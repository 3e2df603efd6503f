import LittlePascal.Proofs.Migration
import LittlePascal.Proofs.RunMemories

/-! # What a session remembers

The strict editions refuse to read a variable without a value. They take a value that is missing for no value at
all, so they can tell whether a variable has been assigned only because nothing but numbers is ever stored. This
holds over a whole session, whatever texts are run in it and wherever they fail; in the edition with statements
all numbers are whole.

So a variable is refused exactly if no assignment to it has been completed in the session before, and no
arithmetic meets a missing value.

Main definitions:
* `Expr.isWhole`: the literals of an expression are whole numbers;
* `Edition.recalled`: the memory that the runs of some texts leave;
* `Edition.Assigned`: an assignment to a variable has been completed in a session;
* `Edition.Storable`: what an edition may store.

Main statements:
* `Expr.eval_refused`, `Expr.eval_whole`: what strict reading computes;
* `Reached.forall_values`: what all values of a memory have in common, at every moment of a run;
* `Edition.mem_recalled_concat`, `Edition.mem_recalled_iff`: the names that are remembered are those that have
  been assigned, after one text more and after any number of them;
* `Edition.refused_iff_not_assigned`: a variable is refused until an assignment to it has been completed;
* `strict_session_reads`: what the strict editions store, and when they refuse a variable. -/

namespace LittlePascal

/-! ## Whole numbers -/

/-- Whether the literals of an expression are whole numbers. -/
def Expr.isWhole : Expr → Bool
  | .literal (.whole _) _ => true
  | .literal (.real _) _ => false
  | .var _ => true
  | .signed _ _ operand => operand.isWhole
  | .binary _ _ left right => left.isWhole && right.isWhole
  | .hole => true

/-- All values of a memory are of a class. -/
def Memory.Forall (P : Value → Prop) (m : Memory) : Prop := ∀ x v, m.get? x = some v → P v

/-- A value of the class may be stored. -/
theorem Memory.Forall.set {P : Value → Prop} {m : Memory} (h : m.Forall P) {v : Value} (such : P v)
    (x : String) : Memory.Forall P (m.set x v) := by
  intro y w found
  rw [OrderedMap.get?_set] at found
  by_cases same : y = x
  · rw [if_pos same, Option.some.injEq] at found
    exact found ▸ such
  · rw [if_neg same] at found
    exact h y w found

namespace Expr

variable {rules : EvalRules} {m : Memory}

/-- Where no division of doubles is asked for, whole numbers are combined to a whole number. -/
theorem combine_whole {operation : Operation} (floors : operation ≠ .divide) {left right : Except Fault Value}
    (first : Within (fun v => ∃ n, v = .whole n) (fun _ => True) left)
    (second : Within (fun v => ∃ n, v = .whole n) (fun _ => True) right) :
    Within (fun v => ∃ n, v = .whole n) (fun _ => True) (combine operation left right) := by
  have others : Within (fun v => ∃ n, v = .whole n) (fun _ => True) (do
      let l ← left
      let r ← right
      liftArithmetic (l.apply operation r)) := by
    refine first.bind ?_
    rintro _ ⟨n, rfl⟩
    refine second.bind ?_
    rintro _ ⟨k, rfl⟩
    refine within_liftArithmetic (fun v applied => ?_) fun _ _ => trivial
    cases operation with
    | add | subtract | multiply =>
      cases applied
      exact ⟨_, rfl⟩
    | floorDivide =>
      rw [Value.apply_floorDivide_whole] at applied
      split at applied <;> cases applied
      exact ⟨_, rfl⟩
    | divide => exact absurd rfl floors
  cases operation <;> first | exact others | exact absurd rfl floors

/-- In a memory of whole numbers an expression of whole numbers has a whole value, if the slash rounds down and
variables without a value are refused. -/
theorem eval_whole (floors : rules.slashFloors = true) (strict : rules.strict = true)
    (memory : m.Forall fun v => ∃ n, v = .whole n) {e : Expr} (whole : e.isWhole = true) :
    Within (fun v => ∃ n, v = .whole n) (fun _ => True) (e.eval rules m) := by
  induction e with
  | literal l _ =>
    cases l with
    | whole n => exact ⟨n, rfl⟩
    | real x => cases whole
  | var id =>
    -- a missing value is refused, so what is read is a value of the memory
    rw [eval, readVariable, strict]
    split
    · exact ⟨_, rfl⟩
    · rename_i x found
      exact memory _ _ found
    · trivial
  | signed sign _ operand ih =>
    refine (ih whole).bind ?_
    rintro _ ⟨n, rfl⟩
    cases sign <;> exact ⟨_, rfl⟩
  | binary operator _ left right ihLeft ihRight =>
    rw [isWhole, Bool.and_eq_true] at whole
    have other : operation rules operator ≠ .divide := by
      cases operator <;> simp [operation, floors]
    exact combine_whole other (ihLeft whole.1) (ihRight whole.2)
  | hole => trivial

/-- Strictly read, an expression has a number for its value, is refused a variable, or fails as arithmetic on
numbers does. -/
theorem eval_refused {g : Grammar} (holes : g.holes = false) (strict : rules.strict = true) {e : Expr}
    (fits : e.Fits g) :
    Within (fun v => v.isNumber = true) (fun fault => fault.IsNumeric ∨ ∃ x, fault = .unbound x)
      (e.eval rules m) := by
  induction e with
  | literal l _ => cases l <;> rfl
  | var id =>
    rw [eval, readVariable, strict]
    split
    · rfl
    · rfl
    · exact .inr ⟨_, rfl⟩
  | signed sign _ operand ih =>
    refine (ih fits).bind fun v number => within_liftArithmetic (fun _ => Value.isNumber_of_applySign) ?_
    intro f failed
    cases v with
    | whole | real => cases sign <;> cases failed
    | missing => cases number
  | binary operator _ left right ihLeft ihRight =>
    refine combine_of_values (ihLeft fits.1) (ihRight fits.2) ?_ ?_ ?_
    · intro v fault number failed
      exact .inl (Fault.isNumeric_arithmetic (Value.isNumeric_of_toReal number failed))
    · intro x y fault failed
      exact .inl (Fault.isNumeric_arithmetic (@Value.isNumeric_of_applyReals .divide _ _ _ failed))
    · intro v w fault number number' failed
      exact .inl (Fault.isNumeric_arithmetic (Value.isNumeric_of_apply number number' failed))
  | hole => exact (not_fits_hole holes fits).elim

/-- Strictly read from a memory of numbers, a variable is refused exactly if it is not listed. -/
theorem eval_var_unbound_iff (strict : rules.strict = true) (numbers : m.Forall fun v => v.isNumber = true)
    (id : Ident) : (Expr.var id).eval rules m = .error (.unbound id.name) ↔ id.name ∉ m.names := by
  rw [OrderedMap.mem_names_iff, eval, readVariable, strict]
  cases found : m.get? id.name with
  | none => simp
  | some v =>
    have number := numbers id.name v found
    cases v with
    | whole | real => simp
    | missing => cases number

end Expr

/-! ## Trees of whole numbers -/

/-- Marks none of which is a real number. -/
def Mark.Whole (ms : List Mark) : Prop := ∀ m ∈ ms, ∀ x, m.lexeme ≠ .literal (.real x)

/-- Without real numbers the literals of a derived expression are whole. -/
theorem DerivesExpr.isWhole {level : Level} {ms : List Mark} {e : Expr} (h : DerivesExpr level ms e)
    (whole : Mark.Whole ms) : e.isWhole = true := by
  induction h with
  | @literal m l mark =>
    cases l with
    | whole n => rfl
    | real x => exact absurd mark (whole m List.mem_cons_self x)
  | var _ => rfl
  | signed _ _ ih => exact ih (List.forall_mem_cons.mp whole).2
  | parens _ _ _ ih => exact ih (List.forall_mem_append.mp (List.forall_mem_cons.mp whole).2).1
  | factor _ ih | product _ ih => exact ih whole
  | multiplied _ _ _ _ ihLeft ihRight | added _ _ _ _ ihLeft ihRight =>
    obtain ⟨left, right⟩ := List.forall_mem_append.mp whole
    rw [Expr.isWhole, ihLeft left, ihRight (List.forall_mem_cons.mp right).2]
    rfl

/-- The right-hand sides of derived statements are whole if those of each of them are. -/
theorem Separated.isWhole {ms : List Mark} {children : List Stmt}
    (h : Separated .semicolon (fun ms s => Mark.Whole ms → ∀ a ∈ s.assignments, a.value.isWhole = true) ms children)
    (whole : Mark.Whole ms) : ∀ a ∈ Stmt.assignmentsAll children, a.value.isWhole = true := by
  induction h with
  | one child => simpa [Stmt.assignmentsAll] using child whole
  | more child _ _ ih =>
    obtain ⟨first, later⟩ := List.forall_mem_append.mp whole
    rw [Stmt.assignmentsAll, List.forall_mem_append]
    exact ⟨child first, ih (List.forall_mem_cons.mp later).2⟩

/-- The right-hand sides of a statement that is derived from whole lexemes are whole. -/
theorem DerivesStmt.isWhole {g : Grammar} {ms : List Mark} {s : Stmt} (h : DerivesStmt g ms s) :
    Mark.Whole ms → ∀ a ∈ s.assignments, a.value.isWhole = true := by
  refine DerivesStmt.induction (P := fun ms s => Mark.Whole ms → ∀ a ∈ s.assignments, a.value.isWhole = true)
    ?_ ?_ ?_ ?_ h
  · intro m n ms children _ forms _ whole
    exact forms.isWhole (List.forall_mem_append.mp (List.forall_mem_cons.mp whole).2).1
  · intros
    simp_all [Stmt.assignments]
  · intro m n ms s e _ _ form whole
    rw [Stmt.assignments, List.forall_mem_singleton]
    exact form.isWhole (List.forall_mem_cons.mp (List.forall_mem_cons.mp whole).2).2
  · simp [Stmt.assignments]

namespace Edition

/-- The edition with statements reads no real numbers. -/
theorem marks_whole {text : String} {ms : List Mark} (reads : Edition.statements.lexis.Reads text ms) :
    Mark.Whole ms := by
  intro m member x
  obtain ⟨word, rest, cut, _⟩ := reads.exists_cut (plain_lexis rfl) m member
  generalize m.lexeme = l at cut
  cases cut with
  | @word c word =>
    -- a word is reserved or an identifier, and no reserved word stands for a number
    intro same
    rw [Lexis.wordLexeme] at same
    cases found : Edition.statements.lexis.reserved.lookup (String.ofList
        (if Edition.statements.lexis.foldsCase then Text.capitals (c :: word) else c :: word)) with
    | none =>
      rw [found] at same
      cases same
    | some l =>
      have kinds : ∀ entry ∈ Edition.statements.reserved, entry.2.kind ≠ .real := by decide
      rw [found] at same
      have kind : l.kind = .real := by rw [show l = _ from same]; rfl
      exact kinds _ (mem_of_lookup found) kind
  | whole => simp
  | assign => simp
  | @mark c l _ marked =>
    have kinds := @test_of_mark .statements (fun _ l? => l?.all fun l => l.kind ≠ .real) (by decide) c l marked
    rw [Option.all_some, decide_eq_true_eq] at kinds
    exact fun same => kinds (by rw [same]; rfl)

/-- The right-hand sides of its programs have whole literals. -/
theorem isWhole_of_accepts {text : String} {tree : Node} {reading : Reading}
    (parsed : Edition.statements.Accepts text tree reading) : ∀ a ∈ tree.assignments, a.value.isWhole = true := by
  obtain ⟨r, opened, read⟩ := Lexis.attempt_eq_done.mp parsed
  obtain ⟨last, ms, m, children, passage, rfl, form, _⟩ :=
    (Grammar.parse_bare_iff (uncalled_grammar (.inl rfl)) rfl).mp read
  have whole := marks_whole ⟨r, reading, opened, passage, last⟩
  exact form.isWhole (List.forall_mem_append.mp whole).1

end Edition

/-! ## Values at every moment -/

section Values

variable {P : Value → Prop} {rules : EvalRules} {m now : Memory} {assignments before : List Assignment}
  {writes writes' : List (String × Value)} {fault? : Option Fault}

/-- If right-hand sides keep to a class of values, all values of a memory are of it at every moment. -/
theorem Reached.forall_values
    (closed : ∀ a ∈ assignments, ∀ m v, Memory.Forall P m → a.value.eval rules m = .ok v → P v)
    (h : m.Forall P) (reached : Reached rules m assignments before now) : now.Forall P := by
  refine reached.invariant h fun before a now v _ next held value => ?_
  exact held.set (closed a (next.subset (by simp)) now v held value) _

/-- What is written up to a moment is written by the whole run. -/
theorem Executes.writes_prefix (h : Executes rules m assignments writes fault?) (sub : before <+: assignments)
    (written : Writes rules m before writes') : writes' <+: writes := by
  induction written generalizing assignments writes with
  | nil => exact List.nil_prefix
  | @cons m a v rest further value _ ih =>
    -- both runs compute the same first value, so the longer one does not end there
    obtain ⟨others, rfl⟩ := sub
    rcases h.cons_inv with ⟨fault, failed, _⟩ | ⟨w, later, value', rfl, behind⟩
    · cases value.symm.trans failed
    · cases value.symm.trans value'
      exact List.cons_prefix_cons.mpr ⟨rfl, ih behind ⟨others, rfl⟩⟩

/-- A name that has been assigned by a moment is there at the end. -/
theorem Executes.mem_names (h : Executes rules m assignments writes fault?)
    (reached : Reached rules m assignments before now) {x : String} (assigned : x ∈ now.names) :
    x ∈ (m.setAll writes).names := by
  obtain ⟨sub, writes', written, rfl⟩ := Reached.iff_writes.mp reached
  obtain ⟨further, rfl⟩ := h.writes_prefix sub written
  rw [OrderedMap.setAll_append, OrderedMap.names_setAll]
  exact List.mem_append_left _ assigned

end Values

/-! ## Sessions of runs -/

namespace Edition

variable {e : Edition} {texts : List String} {text : String} {x : String}

/-- The memory that the runs of some texts leave, one after the other from an empty memory on. -/
def recalled (e : Edition) (texts : List String) : Memory :=
  ((Session.initial none).afterAll e none .run texts).memory

/-- Behind some texts, a run of another one has come to a moment at which these assignments are completed. -/
def Completes (e : Edition) (texts : List String) (text : String) (before : List Assignment) (now : Memory) :
    Prop :=
  ∃ tree reading, e.Accepts text tree reading ∧ Reached e.evalRules (e.recalled texts) tree.assignments before now

/-- An assignment to a variable has been completed in a session: it is one of those before this moment of the
present run, or was completed in the run of an earlier text. -/
def Assigned (e : Edition) (texts : List String) (before : List Assignment) (x : String) : Prop :=
  x ∈ before.map (fun b => b.target.name) ∨
    ∃ earlier text later before' now, texts = earlier ++ text :: later ∧ e.Completes earlier text before' now ∧
      x ∈ before'.map fun b => b.target.name

theorem recalled_concat :
    e.recalled (texts ++ [text]) =
      (((Session.initial none).afterAll e none .run texts).step e none .run (some text)).session.memory := by
  rw [recalled, Session.afterAll, List.foldl_append]
  rfl

/-- A text that is accepted is executed from what is remembered. -/
theorem recalled_concat_of_accepts (statements : e.hasStatements = true) {tree : Node} {reading : Reading}
    (parsed : e.Accepts text tree reading) (texts : List String) :
    ∃ writes fault?, Executes e.evalRules (e.recalled texts) tree.assignments writes fault? ∧
      (((Session.initial none).afterAll e none .run texts).step e none .run (some text)).result =
        Fault.outcome fault? ∧
      e.recalled (texts ++ [text]) = (e.recalled texts).setAll writes := by
  obtain ⟨writes, fault?, executes, ran⟩ := @Session.run_tree e.evalRules tree (parsed.hasStatements statements)
    ((Session.initial none).afterAll e none .run texts)
  refine ⟨writes, fault?, executes, ?_, ?_⟩
  · rw [Session.step_run parsed, ran]
  · rw [recalled_concat, Session.step_run parsed, ran]
    rfl

/-- A text that is not accepted leaves the memory as it is, and one that is runs up to some moment. -/
theorem recalled_concat_cases (statements : e.hasStatements = true) (texts : List String) (text : String) :
    e.recalled (texts ++ [text]) = e.recalled texts ∨
      ∃ before, e.Completes texts text before (e.recalled (texts ++ [text])) := by
  cases attempt : e.lexis.attempt e.grammar.parse text with
  | unopened fault | failed fault reading =>
    refine .inl ?_
    rw [recalled_concat, Session.step, attempt]
    rfl
  | done tree reading =>
    obtain ⟨writes, fault?, executes, _, memory⟩ := recalled_concat_of_accepts statements attempt texts
    obtain ⟨before, reached⟩ := executes.reached
    exact .inr ⟨before, tree, reading, attempt, memory ▸ reached⟩

/-- One text more: what was remembered stays, and what its run assigns is remembered too. -/
theorem mem_recalled_concat (statements : e.hasStatements = true) :
    x ∈ (e.recalled (texts ++ [text])).names ↔
      x ∈ (e.recalled texts).names ∨
        ∃ before now, e.Completes texts text before now ∧ x ∈ before.map fun b => b.target.name := by
  constructor
  · intro member
    rcases recalled_concat_cases statements texts text with same | ⟨before, tree, reading, parsed, reached⟩
    · exact .inl (same ▸ member)
    · refine (reached.mem_names_iff.mp member).imp_right fun assigned => ?_
      exact ⟨before, _, ⟨tree, reading, parsed, reached⟩, assigned⟩
  · rintro (member | ⟨before, now, ⟨tree, reading, parsed, reached⟩, assigned⟩)
    · rcases recalled_concat_cases statements texts text with same | ⟨before, tree, reading, _, reached⟩
      · exact same ▸ member
      · exact reached.mem_names_iff.mpr (.inl member)
    · obtain ⟨writes, fault?, executes, _, memory⟩ := recalled_concat_of_accepts statements parsed texts
      rw [memory]
      exact executes.mem_names reached (reached.mem_names_iff.mpr (.inr assigned))

/-- The names that are remembered are those to which an assignment has been completed. -/
theorem mem_recalled_iff (statements : e.hasStatements = true) :
    x ∈ (e.recalled texts).names ↔
      ∃ earlier text later before now, texts = earlier ++ text :: later ∧ e.Completes earlier text before now ∧
        x ∈ before.map fun b => b.target.name := by
  induction texts using List.reverseRecOn with
  | nil =>
    have empty : e.recalled [] = .empty := rfl
    simp [empty]
  | append_singleton texts text ih =>
    rw [mem_recalled_concat statements, ih]
    constructor
    · rintro (⟨earlier, text', later, before, now, rfl, completes, assigned⟩ | ⟨before, now, completes, assigned⟩)
      · exact ⟨earlier, text', later ++ [text], before, now, by simp, completes, assigned⟩
      · exact ⟨texts, text, [], before, now, rfl, completes, assigned⟩
    · rintro ⟨earlier, text', later, before, now, parts, completes, assigned⟩
      -- the text of the assignment is the last one, or one before it
      rcases List.eq_nil_or_concat later with rfl | ⟨later, last, rfl⟩
      · obtain ⟨rfl, rfl⟩ := List.append_singleton_inj.mp parts
        exact .inr ⟨before, now, completes, assigned⟩
      · rw [List.concat_eq_append, ← List.cons_append, ← List.append_assoc] at parts
        obtain ⟨rfl, rfl⟩ := List.append_singleton_inj.mp parts
        exact .inl ⟨earlier, text', later, before, now, rfl, completes, assigned⟩

/-- At a moment of a run, the names that have a value are those to which an assignment has been completed. -/
theorem mem_names_iff_assigned (statements : e.hasStatements = true) {assignments before : List Assignment}
    {now : Memory} (reached : Reached e.evalRules (e.recalled texts) assignments before now) :
    x ∈ now.names ↔ e.Assigned texts before x := by
  rw [reached.mem_names_iff, mem_recalled_iff statements, or_comm]
  rfl

/-! ## What the strict editions store and refuse -/

/-- A value that an edition may store: a number, and in the edition with statements a whole one. -/
def Storable (e : Edition) (v : Value) : Prop := v.isNumber = true ∧ (e = .statements → ∃ n, v = .whole n)

/-- The strict editions compute storable values from storable ones. -/
theorem storable_of_eval (strict : e ∈ [Edition.statements, .declarations]) {tree : Node} {reading : Reading}
    (parsed : e.Accepts text tree reading) {a : Assignment} (member : a ∈ tree.assignments) {m : Memory} {v : Value}
    (memory : m.Forall e.Storable) (value : a.value.eval e.evalRules m = .ok v) : e.Storable v := by
  have rules : ∀ e ∈ [Edition.statements, .declarations], e.grammar.holes = false ∧ e.evalRules.strict = true := by
    decide
  obtain ⟨holes, refuses⟩ := rules e strict
  have fits : a.value.Fits e.grammar := Node.fits_of_mem_assignments (Grammar.fits_of_attempt parsed) member
  constructor
  · have within := Expr.eval_refused (m := m) holes refuses fits
    rwa [value] at within
  · rintro rfl
    have whole : m.Forall fun v => ∃ n, v = .whole n := fun x v found => (memory x v found).2 rfl
    have within := @Expr.eval_whole Edition.statements.evalRules m rfl rfl whole _ (isWhole_of_accepts parsed a member)
    rwa [value] at within

/-- At every moment of a run that goes on from storable values, all values are storable. -/
theorem forall_storable_of_reached (strict : e ∈ [Edition.statements, .declarations]) {tree : Node}
    {reading : Reading} (parsed : e.Accepts text tree reading) {m now : Memory} {before : List Assignment}
    (memory : m.Forall e.Storable) (reached : Reached e.evalRules m tree.assignments before now) :
    now.Forall e.Storable :=
  reached.forall_values (fun _ member _ _ => storable_of_eval strict parsed member) memory

/-- A session stores storable values only. -/
theorem forall_storable_recalled (strict : e ∈ [Edition.statements, .declarations]) (texts : List String) :
    (e.recalled texts).Forall e.Storable := by
  have statements : ∀ e ∈ [Edition.statements, .declarations], e.hasStatements = true := by decide
  induction texts using List.reverseRecOn with
  | nil => rintro x v ⟨⟩
  | append_singleton texts text ih =>
    rcases recalled_concat_cases (statements e strict) texts text with same | ⟨before, tree, reading, parsed, reached⟩
    · exact same ▸ ih
    · exact forall_storable_of_reached strict parsed ih reached

/-- At a moment of a run, a variable is refused exactly if no assignment to it has been completed. -/
theorem refused_iff_not_assigned (strict : e ∈ [Edition.statements, .declarations]) {tree : Node} {reading : Reading}
    (parsed : e.Accepts text tree reading) {before : List Assignment} {now : Memory}
    (reached : Reached e.evalRules (e.recalled texts) tree.assignments before now) (id : Ident) :
    (Expr.var id).eval e.evalRules now = .error (.unbound id.name) ↔ ¬e.Assigned texts before id.name := by
  have rules : ∀ e ∈ [Edition.statements, .declarations], e.hasStatements = true ∧ e.evalRules.strict = true := by
    decide
  obtain ⟨statements, refuses⟩ := rules e strict
  have storable := forall_storable_of_reached strict parsed (forall_storable_recalled strict texts) reached
  rw [Expr.eval_var_unbound_iff refuses (fun x v found => (storable x v found).1) id,
    mem_names_iff_assigned statements reached]

end Edition

/-- Neither arithmetic on numbers nor a variable that is refused is a fault of a missing value. -/
theorem Fault.not_isMissing {fault : Fault} (h : fault.IsNumeric ∨ ∃ x, fault = .unbound x) : ¬fault.IsMissing := by
  rintro ⟨f, rfl, missing⟩
  rcases h with ⟨f', same, numeric⟩ | ⟨x, same⟩
  · cases same
    cases missing.symm.trans numeric
  · cases same

/-- Whatever the strict editions run in a session, they store numbers only, the edition with statements whole
ones. A variable that is come to is refused exactly if no assignment to it has been completed in the session
before. A run of a program that is accepted ends early only with such a refusal or where arithmetic on numbers
fails. -/
theorem strict_session_reads {e : Edition} (strict : e ∈ [Edition.statements, .declarations])
    (texts : List String) :
    (e.recalled texts).Forall e.Storable ∧
    ∀ text tree reading, e.Accepts text tree reading →
      let done := ((Session.initial none).afterAll e none .run texts).step e none .run (some text)
      (∀ before now, Reached e.evalRules (e.recalled texts) tree.assignments before now →
        now.Forall e.Storable ∧
        ∀ id, (Expr.var id).eval e.evalRules now = .error (.unbound id.name) ↔ ¬e.Assigned texts before id.name) ∧
      (∀ x, done.result = .error (.unbound x) ↔
        ∃ before a now id, Reached e.evalRules (e.recalled texts) tree.assignments before now ∧
          before ++ [a] <+: tree.assignments ∧ a.value.Visits e.evalRules now (.var id) ∧ id.name = x ∧
          ¬e.Assigned texts before x) ∧
      (∀ x, (Fault.unbound x).message e.wording = Text.quoted x) ∧
      (∀ fault, done.result = .error fault →
        ¬fault.IsMissing ∧ (fault.IsNumeric ∨ ∃ x, fault = .unbound x)) := by
  have rules : ∀ e ∈ [Edition.statements, .declarations],
      e.hasStatements = true ∧ e.grammar.holes = false ∧ e.evalRules.strict = true := by decide
  obtain ⟨statements, holes, refuses⟩ := rules e strict
  have stored := Edition.forall_storable_recalled strict texts
  refine ⟨stored, fun text tree reading parsed => ?_⟩
  intro done
  obtain ⟨writes, fault?, executes, ended, _⟩ := Edition.recalled_concat_of_accepts statements parsed texts
  have ends : ∀ fault, done.result = .error fault ↔ fault? = some fault := by
    intro fault
    rw [← @Fault.outcome_inj fault? (some fault), ← ended]
    exact Iff.rfl
  refine ⟨fun before now reached => ?_, fun x => ?_, fun x => rfl, fun fault failed => ?_⟩
  · exact ⟨Edition.forall_storable_of_reached strict parsed stored reached,
      Edition.refused_iff_not_assigned strict parsed reached⟩
  · rw [ends, executes.eq_some_iff_reached]
    constructor
    · rintro ⟨before, a, now, reached, next, fails⟩
      obtain ⟨id, rfl, inside, refused⟩ := Expr.exists_visits_of_unbound fails
      have unassigned := (Edition.refused_iff_not_assigned strict parsed reached id).mp refused
      exact ⟨before, a, now, id, reached, next, inside, rfl, unassigned⟩
    · rintro ⟨before, a, now, id, reached, next, inside, rfl, unassigned⟩
      have refused := (Edition.refused_iff_not_assigned strict parsed reached id).mpr unassigned
      exact ⟨before, a, now, reached, next, inside.eval_eq_error refused⟩
  · obtain ⟨before, a, now, reached, next, fails⟩ := executes.eq_some_iff_reached.mp ((ends fault).mp failed)
    have fits : a.value.Fits e.grammar :=
      Node.fits_of_mem_assignments (Grammar.fits_of_attempt parsed) (next.subset (by simp))
    have within := Expr.eval_refused (m := now) holes refuses fits
    rw [fails] at within
    exact ⟨Fault.not_isMissing within, within⟩

/-- A first text fails behind its first assignment and a second one cannot be read. A third one then reads the
variable of that assignment under a sign, and is refused the one whose assignment was not completed. -/
theorem strict_session_reads_after_failures :
    let texts := ["BEGIN a := 7; b := a / (7 - a) END.", "BEGIN b := END"]
    let text := "BEGIN c := -a; BEGIN d := c + b; e := d END END."
    let done := ((Session.initial none).afterAll .statements none .run texts).step .statements none .run (some text)
    Edition.statements ∈ [Edition.statements, .declarations] ∧
      ∃ tree reading, Edition.statements.Accepts text tree reading ∧
        done.result = .error (.unbound "b") ∧ done.session.memory.names = ["a", "c"] ∧
        ∃ before, ¬Edition.statements.Assigned texts before "b" := by
  intro texts text done
  have member : Edition.statements ∈ [Edition.statements, .declarations] := by decide
  have yields : Edition.statements.yields text (fun _ => true) = true := by decide +kernel
  obtain ⟨tree, reading, parsed, _⟩ := Edition.exists_accepts yields
  have refused : done.fault? = some (.unbound "b") := by decide +kernel
  have names : done.session.memory.names = ["a", "c"] := by decide +kernel
  have failed := StepOutcome.fault?_eq_some.mp refused
  obtain ⟨_, reads⟩ := strict_session_reads member texts
  obtain ⟨_, unbound, _⟩ := reads text tree reading parsed
  obtain ⟨before, _, _, _, _, _, _, _, unassigned⟩ := (unbound "b").mp failed
  exact ⟨member, tree, reading, parsed, failed, names, before, unassigned⟩

end LittlePascal
