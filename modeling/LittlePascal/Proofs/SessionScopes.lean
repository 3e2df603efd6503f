import LittlePascal.Proofs.OpenScopes
import LittlePascal.Proofs.Sessions
import LittlePascal.Proofs.Verdict

/-! # What failed analyses leave behind

The analysis of a program that is refused stops where it stands, with scopes open. They stay open, and the
scope of the next program is opened inside them. So the names that could be seen at the point of failure
can be seen by all later programs: they excuse uses that would otherwise be refused. Names declared twice
are refused as ever.

Main definitions:
* `Program.remains`, `Program.remnants`: the names that can be seen after a program, or after several;
* `Session.openScopes`: the scopes that are open in a session.

Main statements:
* `Program.violations_within`: what is refused if some names can be seen around a program;
* `Session.analyse_step`, `Session.analyse_run`: one analysis in a session, and any number of them;
* `analyse_fresh_iff`: when an analysis has the outcome that it would have by itself, and when no scope
  stays open. -/

namespace LittlePascal

/-! ## Uses that are excused -/

/-- A fault that is none if these names can be seen: the use of one of them. -/
def Fault.excused (names : List String) : Fault → Bool
  | .undeclared id => id.name ∈ names
  | _ => false

/-- Of the uses of names, those remain that more names do not excuse. -/
theorem undeclaredUses_append (visible left : List String) (ids : List Ident) :
    undeclaredUses (visible ++ left) ids =
      (undeclaredUses visible ids).filter fun fault => !fault.excused left := by
  rw [undeclaredUses, undeclaredUses, List.filter_map, List.filter_filter]
  congr 1
  apply List.filter_congr
  intro id _
  simp [Fault.excused, Bool.and_comm]

namespace Decl

mutual

/-- Of the violations in a declaration, those remain that more names do not excuse. -/
theorem violations_append (visible left here : List String) :
    ∀ d : Decl, d.violations (visible ++ left) here =
      (d.violations visible here).filter fun fault => !fault.excused left
  | .var binding => by
    rw [violations, violations]
    split <;> rfl
  | .procedure p parameters ds body => by
    have inner : Binding.names parameters ++ p :: (visible ++ left) =
        (Binding.names parameters ++ p :: visible) ++ left := by
      rw [List.append_assoc, List.cons_append]
    rw [violations, violations, inner, violationsAll_append _ left _ ds, ← List.append_assoc,
      undeclaredUses_append, List.filter_append]

/-- Of the violations in declarations, those remain that more names do not excuse. -/
theorem violationsAll_append (visible left here : List String) :
    ∀ ds : List Decl, violationsAll (visible ++ left) here ds =
      (violationsAll visible here ds).filter fun fault => !fault.excused left
  | [] => rfl
  | d :: rest => by
    rw [violationsAll, violationsAll, violations_append visible left here d, ← List.cons_append,
      violationsAll_append (d.name :: visible) left (d.name :: here) rest, List.filter_append]

end

end Decl

/-- If some names can be seen around a program, those of its violations remain that they do not
excuse. -/
theorem Program.violations_within (left : List String) (p : Program) :
    p.block.violations left [] = p.violations.filter fun fault => !fault.excused left := by
  simp only [violations, Block.violations, List.filter_append, ← Decl.violationsAll_append,
    ← undeclaredUses_append, List.nil_append, List.append_nil]

/-- The first of some faults is also the first of those that are not excused exactly if it is not
excused. -/
theorem head?_filter_excused_iff {left : List String} {faults : List Fault} :
    (faults.filter fun fault => !fault.excused left).head? = faults.head? ↔
      ∀ id, faults.head? = some (.undeclared id) → id.name ∉ left := by
  cases faults with
  | nil => simp
  | cons first rest =>
    cases excused : first.excused left with
    | false =>
      rw [List.filter_cons_of_pos (by simp [excused])]
      simp only [List.head?_cons, Option.some.injEq, true_iff]
      rintro id rfl
      simpa [Fault.excused] using excused
    | true =>
      rw [List.filter_cons_of_neg (by simp [excused])]
      constructor
      · -- a fault that is not excused is not the first one
        intro same
        rw [List.head?_filter, List.head?_cons] at same
        have kept := List.find?_some same
        simp [excused] at kept
      · intro fresh
        cases first with
        | undeclared id => exact absurd (by simpa [Fault.excused] using excused) (fresh id rfl)
        | _ => cases excused

/-! ## Names that remain -/

namespace Program

/-- The names that can be seen after the analysis of a program, if some could be seen before: those at its
first violation, or the same as before if there is none. -/
def remains (around : List String) (p : Program) : List String :=
  match (p.sightings around).head? with
  | some (_, visible) => visible
  | none => around

/-- The names that can be seen after the analysis of some programs. -/
def remnants (programs : List Program) : List String := programs.foldl remains []

end Program

/-! ## Analyses in a session -/

/-- The open scopes of a survey. -/
def Survey.openScopes : Survey → ScopeChain
  | .table _ => []
  | .scopes state => state.chain

namespace Session

/-- The scopes that are open in a session. -/
def openScopes (s : Session) : ScopeChain := (s.survey?.map Survey.openScopes).getD []

variable {logs : Bool} {s : Session} {st : ScopeState} {left : List String}

/-- A step that analyses a source comes down to the analysis of its program. -/
theorem step_analyse (source : Edition.calls.Source) (surveyed : s.survey? = some (.scopes st)) :
    s.step .calls (Edition.calls.analysis? logs) .analyse (some source.text) =
      match Scoped.program ⟨true, logs⟩ source.program st with
      | .ok _ st' =>
        ⟨.ok (some .missing), some source.reading, { s with survey? := some (.scopes st') }⟩
      | .error fault st' =>
        ⟨.error fault, some source.reading, { s with survey? := some (.scopes st') }⟩ := by
  rw [step_source]
  simp only [Edition.analysis?, perform, analyse, surveyed, Option.getD_some]
  cases outcome : Scoped.program ⟨true, logs⟩ source.program st with
  | ok a st' =>
    have node : (Analysis.scoped ⟨true, logs⟩).node (.program source.program) (.scopes st) =
        .ok a (.scopes st') := Survey.onScopes_of_ok outcome
    simp only [node]
  | error fault st' =>
    have node : (Analysis.scoped ⟨true, logs⟩).node (.program source.program) (.scopes st) =
        .error fault (.scopes st') := Survey.onScopes_of_error outcome
    simp only [node]

/-- One analysis in a session: its outcome is the first violation that the names seen before do not excuse,
and the names seen afterwards are those that remain. No scope is open afterwards exactly if none was
before and the program is well declared. -/
theorem analyse_step (source : Edition.calls.Source) (surveyed : s.survey? = some (.scopes st))
    (sees : ScopeChain.Sees Scoped.Ordinary st.chain left) :
    let done := s.step .calls (Edition.calls.analysis? logs) .analyse (some source.text)
    done.result = Fault.outcome (source.program.block.violations left []).head? ∧
      ∃ st', done.session.survey? = some (.scopes st') ∧
        ScopeChain.Sees Scoped.Ordinary st'.chain (source.program.remains left) ∧
        (st'.chain = [] ↔ st.chain = [] ∧ source.program.WellDeclared) := by
  obtain ⟨_, same, orderly⟩ := orderly_of_attempt source.yields
  cases same
  have meets := @Scoped.program_meets ⟨true, logs⟩ st rfl source.program left
    orderly.declarations.regular orderly.body sees
  have keeps := @Scoped.program_keeps ⟨true, logs⟩ source.program st
  -- without open scopes the program is judged by itself
  have alone : st.chain = [] → ((∃ a st', Scoped.program ⟨true, logs⟩ source.program st = .ok a st') ↔
      source.program.WellDeclared) := by
    intro unopened
    rw [← Program.violations_eq_nil_iff orderly.declarations.ordered]
    exact (Scoped.program_settles rfl orderly.declarations.regular orderly.body unopened).ok_iff
  intro done
  rw [show done = _ from step_analyse source surveyed, ← Program.map_fst_sightings, List.head?_map]
  cases outcome : Scoped.program ⟨true, logs⟩ source.program st with
  | ok a st' =>
    rw [outcome] at meets keeps
    obtain ⟨none, _⟩ := meets
    have kept : st'.chain = st.chain := keeps
    rw [none]
    refine ⟨rfl, st', rfl, ?_, ?_⟩
    · rw [Program.remains, none, kept]
      exact sees
    · rw [kept]
      constructor
      · intro unopened
        exact ⟨unopened, (alone unopened).mp ⟨a, st', outcome⟩⟩
      · exact And.left
  | error fault st' =>
    rw [outcome] at meets keeps
    obtain ⟨visible, head, seen⟩ := meets
    obtain ⟨inner, opened, chain⟩ := keeps
    rw [head]
    refine ⟨rfl, st', rfl, ?_, ?_⟩
    · rw [Program.remains, head]
      exact seen
    · rw [chain]
      constructor
      · intro none
        exact absurd (List.append_eq_nil_iff.mp none).1 opened
      · rintro ⟨unopened, declared⟩
        obtain ⟨_, _, accepted⟩ := (alone unopened).mpr declared
        rw [outcome] at accepted
        cases accepted

/-- Any number of analyses in a session: the names seen afterwards are those that remain of all programs.
No scope is open afterwards exactly if none was before and all programs are well declared. -/
theorem analyse_run (sources : List Edition.calls.Source) (surveyed : s.survey? = some (.scopes st))
    (sees : ScopeChain.Sees Scoped.Ordinary st.chain left) :
    ∃ st', (s.afterAll .calls (Edition.calls.analysis? logs) .analyse
        (sources.map Edition.Source.text)).survey? = some (.scopes st') ∧
      ScopeChain.Sees Scoped.Ordinary st'.chain
        ((sources.map Edition.Source.program).foldl Program.remains left) ∧
      (st'.chain = [] ↔ st.chain = [] ∧ ∀ p ∈ sources.map Edition.Source.program, p.WellDeclared) := by
  induction sources generalizing s st left with
  | nil => exact ⟨st, surveyed, sees, by simp⟩
  | cons source rest ih =>
    obtain ⟨_, st₁, surveyed₁, sees₁, open₁⟩ := @analyse_step logs s st left source surveyed sees
    obtain ⟨st₂, surveyed₂, sees₂, open₂⟩ := ih surveyed₁ sees₁
    refine ⟨st₂, surveyed₂, sees₂, ?_⟩
    rw [open₂, open₁, List.map_cons, List.forall_mem_cons, and_assoc]

end Session

/-- In a session of the last edition, the analysis of a program after others has the outcome that it would
have by itself exactly if its first violation is not the use of a name that remains of the others. No
scope stays open exactly if all the programs are well declared. -/
theorem analyse_fresh_iff (logs : Bool) (sources : List Edition.calls.Source)
    (source : Edition.calls.Source) :
    let analysis? := Edition.calls.analysis? logs
    let fresh := Session.initial analysis?
    let used := fresh.afterAll .calls analysis? .analyse (sources.map Edition.Source.text)
    let done := used.step .calls analysis? .analyse (some source.text)
    (done.result = (fresh.step .calls analysis? .analyse (some source.text)).result ↔
      ∀ id, source.program.violations.head? = some (.undeclared id) →
        id.name ∉ Program.remnants (sources.map Edition.Source.program)) ∧
    (done.session.openScopes = [] ↔
      ∀ p ∈ (sources ++ [source]).map Edition.Source.program, p.WellDeclared) := by
  intro analysis? fresh used done
  have none : ScopeChain.Sees Scoped.Ordinary [] [] := by
    intro s _
    simp [ScopeChain.Has]
  obtain ⟨alone, _⟩ := @Session.analyse_step logs fresh ⟨[], #[]⟩ [] source rfl none
  obtain ⟨st, surveyed, sees, unopened⟩ :=
    @Session.analyse_run logs fresh ⟨[], #[]⟩ [] sources rfl none
  obtain ⟨after, st', surveyed', _, unopened'⟩ :=
    @Session.analyse_step logs used st _ source surveyed sees
  constructor
  · rw [after, alone, Fault.outcome_inj, Program.violations_within]
    exact head?_filter_excused_iff
  · have chain : done.session.openScopes = st'.chain := by
      rw [Session.openScopes, surveyed']
      rfl
    rw [chain, unopened', unopened, List.map_append, List.forall_mem_append]
    simp

set_option maxRecDepth 10000 in
/-- A name that a refused program has declared is taken for declared in the next one, and scopes stay
open. -/
theorem analyse_fresh_iff_name_remains :
    ∃ first second : Edition.calls.Source,
      first.text = "PROGRAM p; VAR a : REAL; BEGIN b := 1 END." ∧
      second.text = "PROGRAM q; BEGIN a := 1 END." ∧
      let analysis? := Edition.calls.analysis? false
      let fresh := Session.initial analysis?
      let used := (fresh.step .calls analysis? .analyse (some first.text)).session
      let done := used.step .calls analysis? .analyse (some second.text)
      done.result ≠ (fresh.step .calls analysis? .analyse (some second.text)).result ∧
        done.session.openScopes ≠ [] := by
  let p : Program := ⟨"p", ⟨[.var ⟨⟨"a", ⟨1, 16⟩⟩, ⟨.real, ⟨1, 20⟩⟩⟩],
    [.assign ⟨"b", ⟨1, 32⟩⟩ ⟨1, 34⟩ (.literal (.whole 1) ⟨1, 37⟩)]⟩⟩
  let q : Program := ⟨"q", ⟨[],
    [.assign ⟨"a", ⟨1, 18⟩⟩ ⟨1, 20⟩ (.literal (.whole 1) ⟨1, 23⟩)]⟩⟩
  let marks : List Mark :=
    [⟨.reserved .program, ⟨1, 1⟩, ' '⟩, ⟨.name "p", ⟨1, 9⟩, ';'⟩,
     ⟨.punctuation .semicolon, ⟨1, 10⟩, ' '⟩, ⟨.reserved .var, ⟨1, 12⟩, ' '⟩,
     ⟨.name "a", ⟨1, 16⟩, ' '⟩, ⟨.punctuation .colon, ⟨1, 18⟩, ' '⟩,
     ⟨.reserved .realType, ⟨1, 20⟩, ';'⟩, ⟨.punctuation .semicolon, ⟨1, 24⟩, ' '⟩,
     ⟨.reserved .beginBlock, ⟨1, 26⟩, ' '⟩, ⟨.name "b", ⟨1, 32⟩, ' '⟩,
     ⟨.punctuation .assign, ⟨1, 34⟩, ' '⟩, ⟨.literal (.whole 1), ⟨1, 37⟩, ' '⟩,
     ⟨.reserved .endBlock, ⟨1, 39⟩, '.'⟩, ⟨.punctuation .dot, ⟨1, 42⟩, none⟩]
  let marks' : List Mark :=
    [⟨.reserved .program, ⟨1, 1⟩, ' '⟩, ⟨.name "q", ⟨1, 9⟩, ';'⟩,
     ⟨.punctuation .semicolon, ⟨1, 10⟩, ' '⟩, ⟨.reserved .beginBlock, ⟨1, 12⟩, ' '⟩,
     ⟨.name "a", ⟨1, 18⟩, ' '⟩, ⟨.punctuation .assign, ⟨1, 20⟩, ' '⟩,
     ⟨.literal (.whole 1), ⟨1, 23⟩, ' '⟩, ⟨.reserved .endBlock, ⟨1, 25⟩, '.'⟩,
     ⟨.punctuation .dot, ⟨1, 28⟩, none⟩]
  have reads : Edition.calls.lexis.Reads "PROGRAM p; VAR a : REAL; BEGIN b := 1 END." marks := by decide
  have reads' : Edition.calls.lexis.Reads "PROGRAM q; BEGIN a := 1 END." marks' := by decide
  -- both bodies assign one
  have assigns : ∀ m n k l o : Mark, ∀ s, m.lexeme = .reserved .beginBlock → n.lexeme = .name s →
      k.lexeme = .punctuation .assign → l.lexeme = .literal (.whole 1) →
      o.lexeme = .reserved .endBlock →
      DerivesStmt Edition.calls.grammar [m, n, k, l, o]
        (.compound [.assign ⟨s, n.place⟩ k.place (.literal (.whole 1) l.place)]) :=
    fun _ _ _ _ _ _ first name assign one last =>
      .compound first (.one (.assign name assign (.product (.factor (.literal one))))) last
  have type : DerivesType [marks[6]] ⟨.real, ⟨1, 20⟩⟩ := .word rfl
  have a : DerivesIdent [marks[4]] ⟨"a", ⟨1, 16⟩⟩ := .name rfl
  have group : DerivesGroup ((marks.drop 4).take 4) _ := .group (.group (.one a) rfl type) rfl
  have derives : Edition.calls.grammar.Derives marks p :=
    .program rfl rfl rfl (.block (.some rfl (.cons group .nil)) .nil
      (assigns marks[8] marks[9] marks[10] marks[11] marks[12] "b" rfl rfl rfl rfl rfl)) rfl
  have derives' : Edition.calls.grammar.Derives marks' q :=
    .program rfl rfl rfl (.block .absent .nil
      (assigns marks'[3] marks'[4] marks'[5] marks'[6] marks'[7] "a" rfl rfl rfl rfl rfl)) rfl
  obtain ⟨reading, yields⟩ := Grammar.attempt_of_derives Edition.full_calls reads derives
  obtain ⟨reading', yields'⟩ := Grammar.attempt_of_derives Edition.full_calls reads' derives'
  let first : Edition.calls.Source := ⟨_, p, reading, yields⟩
  let second : Edition.calls.Source := ⟨_, q, reading', yields'⟩
  obtain ⟨alike, unopened⟩ := analyse_fresh_iff false [first] second
  refine ⟨first, second, rfl, rfl, fun same => ?_, fun none => ?_⟩
  · have remains : "a" ∈ Program.remnants [p] := by decide
    exact alike.mp same ⟨"a", ⟨1, 18⟩⟩ rfl remains
  · have declared : q.WellDeclared := unopened.mp none q (by simp [second])
    rcases (declared _ (.self _)).visible ⟨"a", ⟨1, 18⟩⟩ (by decide) with no | no | no | no
    · exact no
    · cases no
    · cases no
    · cases no

end LittlePascal
