import LittlePascal.Proofs.Recognition
import LittlePascal.Proofs.Scoping
import LittlePascal.Proofs.Writing

/-! # The verdict on programs that were read

A program that was read has no holes, its variables stand before its procedures, and none of its names
is that of a built-in type: such a name is a reserved word in any letter case. For such programs the
analysis of scopes has an exact verdict.

Main statements:
* `Grammar.Derives.orderly`: what holds of every program that a text yields;
* `analysis_verdict`: such a program is accepted exactly if it is well declared, and otherwise refused
  with its first violation. -/

namespace LittlePascal

/-! ## Names on marks -/

/-- All names on marks are of a class. -/
def Named (names : String → Prop) (ms : List Mark) : Prop :=
  ∀ m ∈ ms, ∀ s, m.lexeme = .name s → names s

section Marks

variable {names : String → Prop} {ms ns : List Mark} {m : Mark}

/-- The names on two lists of marks. -/
theorem named_append : Named names (ms ++ ns) ↔ Named names ms ∧ Named names ns := by
  simp only [Named, List.mem_append]
  constructor
  · intro h
    exact ⟨fun m member => h m (.inl member), fun m member => h m (.inr member)⟩
  · rintro ⟨left, right⟩ m (member | member)
    · exact left m member
    · exact right m member

/-- The name on the first mark. -/
theorem Named.head {s : String} (h : Named names (m :: ms)) (name : m.lexeme = .name s) : names s :=
  h m List.mem_cons_self s name

/-- The names on the marks behind the first one. -/
theorem Named.tail (h : Named names (m :: ms)) : Named names ms :=
  fun n member => h n (List.mem_cons_of_mem m member)

variable {α : Type} {P : α → Prop} {Item : List Mark → α → Prop} {as : List α}

/-- What holds of all items holds of a separated list. -/
theorem Separated.forall_mem {separator : Punctuation}
    (item : ∀ {ms a}, Named names ms → Item ms a → P a) (h : Separated separator Item ms as)
    (named : Named names ms) : ∀ a ∈ as, P a := by
  induction h with
  | one form =>
    intro a member
    cases List.mem_singleton.mp member
    exact item named form
  | more form _ _ ih =>
    obtain ⟨first, rest⟩ := named_append.mp named
    intro a member
    rcases List.mem_cons.mp member with rfl | member
    · exact item first form
    · exact ih rest.tail a member

/-- What holds of all items holds of a repeated list. -/
theorem Repeated.forall_mem (item : ∀ {ms a}, Named names ms → Item ms a → P a)
    (h : Repeated Item ms as) (named : Named names ms) : ∀ a ∈ as, P a := by
  induction h with
  | nil => simp
  | cons form _ ih =>
    obtain ⟨first, rest⟩ := named_append.mp named
    intro a member
    rcases List.mem_cons.mp member with rfl | member
    · exact item first form
    · exact ih rest a member

end Marks

/-! ## Expressions and statements are regular -/

section Regular

variable {g : Grammar} {names : String → Prop} {ms : List Mark}

/-- A derived expression is regular. -/
theorem DerivesExpr.regular {level : Level} {e : Expr} (h : DerivesExpr level ms e)
    (named : Named names ms) : e.Regular names := by
  induction h with
  | literal _ => trivial
  | var name => exact named.head name
  | signed _ _ _ => trivial
  | parens _ _ _ ih => exact ih (named_append.mp named.tail).1
  | factor _ ih => exact ih named
  | multiplied _ _ _ _ ihLeft ihRight =>
    obtain ⟨left, right⟩ := named_append.mp named
    exact ⟨ihLeft left, ihRight right.tail⟩
  | product _ ih => exact ih named
  | added _ _ _ _ ihLeft ihRight =>
    obtain ⟨left, right⟩ := named_append.mp named
    exact ⟨ihLeft left, ihRight right.tail⟩

/-- A regular statement before regular ones. -/
theorem Stmt.AllRegular.cons {s : Stmt} {rest : List Stmt} (first : AllRegular names [s])
    (later : AllRegular names rest) : AllRegular names (s :: rest) := by
  cases first with
  | compound children _ => exact .compound children later
  | assign proper regular _ => exact .assign proper regular later
  | call regular _ => exact .call regular later
  | empty _ => exact .empty later

mutual

/-- A derived statement is regular. -/
theorem DerivesStmt.regular {ms : List Mark} {s : Stmt} (h : DerivesStmt g ms s)
    (named : Named names ms) : Stmt.AllRegular names [s] := by
  cases h with
  | compound _ forms _ =>
    exact .compound (separated_regular forms (named_append.mp named.tail).1) .nil
  | call _ _ _ _ form _ =>
    refine .call ?_ .nil
    have inner := (named_append.mp named.tail.tail).1
    cases form with
    | none => simp
    | some forms => exact forms.forall_mem (fun named form => form.regular named) inner
  | assign name _ form =>
    exact .assign (named.head name) (form.regular named.tail.tail) .nil
  | empty => exact .empty .nil

/-- Derived statements are regular. -/
theorem separated_regular {ms : List Mark} {children : List Stmt}
    (h : Separated .semicolon (DerivesStmt g) ms children) (named : Named names ms) :
    Stmt.AllRegular names children := by
  cases h with
  | one form => exact form.regular named
  | more form _ forms =>
    obtain ⟨first, rest⟩ := named_append.mp named
    exact (form.regular first).cons (separated_regular forms rest.tail)

end

/-! ## Declarations are regular and in order -/

/-- Names that share a type. -/
theorem DerivesBindings.named {bindings : List Binding} (h : DerivesBindings ms bindings)
    (named : Named names ms) : ∀ binding ∈ bindings, names binding.id.name := by
  cases h with
  | @group _ _ _ ids _ forms _ _ =>
    have all : ∀ id ∈ ids, names id.name := by
      refine forms.forall_mem ?_ (named_append.mp named).1
      rintro ms id named ⟨name⟩
      exact named.head name
    intro binding member
    obtain ⟨id, among, rfl⟩ := List.mem_map.mp member
    exact all id among

/-- The variables of a block are variables. -/
theorem DerivesVariables.named {ds : List Decl} (h : DerivesVariables ms ds)
    (named : Named names ms) : ∀ d ∈ ds, ∃ binding, d = .var binding ∧ names binding.id.name := by
  cases h with
  | absent => simp
  | @some _ _ groups _ forms =>
    have all : ∀ group ∈ groups, ∀ d ∈ group, ∃ binding, d = .var binding ∧ names binding.id.name := by
      refine forms.forall_mem ?_ named.tail
      rintro ms _ named ⟨form, _⟩ d member
      obtain ⟨binding, among, rfl⟩ := List.mem_map.mp member
      exact ⟨binding, rfl, form.named (named_append.mp named).1 binding among⟩
    intro d member
    obtain ⟨group, among, member⟩ := List.mem_flatten.mp member
    exact all group among d member

/-- Declarations that are in order and regular, with names of a class. -/
structure Decl.Orderly (names : String → Prop) (ds : List Decl) : Prop where
  ordered : AllOrdered ds
  regular : AllRegular names ds

/-- A block in which all is in order and regular. -/
structure Block.Orderly (names : String → Prop) (b : Block) : Prop where
  declarations : Decl.Orderly names b.declarations
  body : Stmt.AllRegular names b.body

/-- Variables before declarations that are in order. -/
theorem Decl.Orderly.append {vars ds : List Decl}
    (all : ∀ d ∈ vars, ∃ binding, d = .var binding ∧ names binding.id.name)
    (h : Decl.Orderly names ds) : Decl.Orderly names (vars ++ ds) := by
  induction vars with
  | nil => exact h
  | cons d rest ih =>
    obtain ⟨binding, rfl, proper⟩ := all d List.mem_cons_self
    obtain ⟨ordered, regular⟩ := ih fun d member => all d (List.mem_cons_of_mem _ member)
    exact ⟨.var ordered, .var proper regular⟩

mutual

/-- A derived procedure has a block in which all is in order. -/
theorem DerivesProcedure.orderly {ms : List Mark} {d : Decl} :
    DerivesProcedure g ms d → Named names ms →
      ∃ p parameters, ∃ b : Block,
        d = .procedure p parameters b.declarations b.body ∧ b.Orderly names
  | .procedure _ _ _ _ form _, named => by
    have inner := (named_append.mp (named_append.mp named.tail.tail).2.tail).1
    exact ⟨_, _, _, rfl, form.orderly inner⟩

/-- Derived procedures are in order, with no variables among them. -/
theorem repeated_orderly {ms : List Mark} {ds : List Decl} :
    Repeated (DerivesProcedure g) ms ds → Named names ms →
      Decl.Orderly names ds ∧ Decl.variableNames ds = []
  | .nil, _ => ⟨⟨.nil, .nil⟩, rfl⟩
  | .cons form forms, named => by
    obtain ⟨first, rest⟩ := named_append.mp named
    obtain ⟨p, parameters, b, rfl, inner⟩ := form.orderly first
    obtain ⟨later, none⟩ := repeated_orderly forms rest
    exact ⟨⟨.procedure inner.declarations.ordered none later.ordered,
      .procedure inner.declarations.regular inner.body later.regular⟩, none⟩

/-- In a derived block all is in order. -/
theorem DerivesBlock.orderly {ms : List Mark} {b : Block} :
    DerivesBlock g ms b → Named names ms → b.Orderly names
  | .block vars forms form, named => by
    obtain ⟨first, rest⟩ := named_append.mp named
    obtain ⟨second, third⟩ := named_append.mp rest
    refine ⟨.append (vars.named first) (repeated_orderly forms second).1, ?_⟩
    cases form.regular third with
    | compound body _ => exact body

end

/-- In a derived program all is in order. -/
theorem Grammar.Derives.orderly {p : Program} (h : g.Derives ms p) (named : Named names ms) :
    p.block.Orderly names := by
  cases h with
  | program _ _ _ form _ => exact form.orderly (named_append.mp named.tail.tail.tail).1

end Regular

/-! ## Names of built-in types are reserved -/

namespace Edition

/-- No reserved word is read as a name. -/
theorem reserved_ne_name {e : Edition} {key : String} {l : Lexeme} (h : e.reserved.lookup key = some l)
    (s : String) : l ≠ .name s := by
  rintro rfl
  have other := @test_of_reserved e (·.kind ≠ .name) (by cases e <;> decide) _ _ h
  cases other

/-- No mark is read as a name. -/
theorem mark_ne_name {e : Edition} {x : Char} (s : String) : e.mark x ≠ some (.name s) := by
  intro marked
  have other := @test_of_mark e (fun _ l? => l?.all (·.kind ≠ .name)) (by cases e <;> decide) _ _ marked
  cases other

/-- A name is not that of a built-in type, which is a reserved word. -/
theorem ordinary_of_makes {e : Edition} {limit : DigitLimit} (typed : e.hasDeclarations = true) {s : String}
    (h : (e.lexis limit).Makes (.name s)) : Scoped.Ordinary s := by
  rcases h with ⟨word, same⟩ | ⟨n, _, same⟩ | same | ⟨x, same⟩
  · change Lexeme.name s = e.lexis.wordLexeme word at same
    rw [Lexis.wordLexeme] at same
    cases found : e.lexis.reserved.lookup
        (String.ofList (if e.lexis.foldsCase then Text.capitals word else word)) with
    | some l =>
      rw [found] at same
      exact absurd same.symm (reserved_ne_name found s)
    | none =>
      rw [found] at same
      cases same
      intro builtin
      have letters : word ∈ ["INTEGER".toList, "REAL".toList] := by
        rw [← String.toList_ofList (l := word)]
        exact List.mem_map_of_mem builtin
      -- the word in capitals would have been found
      have known : ∀ word ∈ ["INTEGER".toList, "REAL".toList],
          e.lexis.reserved.lookup
            (String.ofList (if e.lexis.foldsCase then Text.capitals word else word)) ≠ none := by
        cases e <;> revert typed <;> decide
      exact known word letters found
  · cases same
  · cases same
  · exact absurd same (mark_ne_name s)

/-- The names in a text are ordinary. -/
theorem named_of_reads {e : Edition} {limit : DigitLimit} (typed : e.hasDeclarations = true)
    {text : String} {ms : List Mark} (reads : (e.lexis limit).Reads text ms) :
    Named Scoped.Ordinary ms := by
  intro m member s name
  have makes := reads.makes m member
  rw [name] at makes
  exact ordinary_of_makes typed makes

end Edition

/-! ## The verdict -/

/-- The names in a text of the last edition are ordinary. -/
theorem ordinary_of_reads {limit : DigitLimit} {text : String} {ms : List Mark}
    (reads : (Edition.calls.lexis limit).Reads text ms) : Named Scoped.Ordinary ms :=
  Edition.named_of_reads rfl reads

/-- In a program that was read all is in order, with ordinary names. -/
theorem orderly_of_attempt {limit : DigitLimit} {text : String} {tree : Node} {reading : Reading}
    (h : (Edition.calls.lexis limit).attempt (Edition.calls.grammar limit).parse text =
      .done tree reading) :
    ∃ p, tree = .program p ∧ p.block.Orderly Scoped.Ordinary := by
  obtain ⟨ms, p, reads, same, form⟩ := Grammar.reads_of_attempt Edition.full_calls h
  exact ⟨p, same, form.orderly (ordinary_of_reads reads)⟩

namespace Survey

variable {α : Type} {work : ScopeWork α} {st : ScopeState}

/-- Work on scopes that succeeds, on a survey. -/
theorem onScopes_of_ok {a : α} {st' : ScopeState} (h : work st = .ok a st') :
    onScopes work (.scopes st) = .ok a (.scopes st') := by
  simp [onScopes, h]

/-- Work on scopes that fails, on a survey. -/
theorem onScopes_of_error {fault : Fault} {st' : ScopeState} (h : work st = .error fault st') :
    onScopes work (.scopes st) = .error fault (.scopes st') := by
  simp [onScopes, h]

/-- Work on scopes succeeds on a survey exactly if it does on its scopes. -/
theorem onScopes_ok_iff {a : α} :
    (∃ survey, onScopes work (.scopes st) = .ok a survey) ↔ ∃ st', work st = .ok a st' := by
  cases outcome : work st with
  | ok b st' => simp [onScopes_of_ok outcome]
  | error fault st' => simp [onScopes_of_error outcome]

/-- Work on scopes fails on a survey exactly if it does on its scopes. -/
theorem onScopes_error_iff {fault : Fault} :
    (∃ survey, onScopes work (.scopes st) = .error fault survey) ↔
      ∃ st', work st = .error fault st' := by
  cases outcome : work st with
  | ok b st' => simp [onScopes_of_ok outcome]
  | error fault' st' => simp [onScopes_of_error outcome]

end Survey

/-- A program that was read and that the last edition accepts is well declared. -/
theorem wellDeclared_of_accepted {text : String} {tree : Node} {reading : Reading} {logs : Bool}
    {analysis : Analysis} {survey : Survey}
    (parsed : Edition.calls.lexis.attempt Edition.calls.grammar.parse text = .done tree reading)
    (found : Edition.calls.analysis? logs = some analysis)
    (accepted : analysis.node tree analysis.initial = .ok () survey) :
    ∃ p, tree = .program p ∧ p.block.Orderly Scoped.Ordinary ∧ p.WellDeclared := by
  obtain ⟨p, rfl, orderly⟩ := orderly_of_attempt parsed
  cases found
  have settles := @Scoped.program_settles ⟨true, logs⟩ ⟨[], #[]⟩ rfl p
    orderly.declarations.regular orderly.body rfl
  obtain ⟨st, accepted⟩ := Survey.onScopes_ok_iff.mp ⟨survey, accepted⟩
  have none : p.violations = [] := settles.ok_iff.mp ⟨(), st, accepted⟩
  exact ⟨p, rfl, orderly, (Program.violations_eq_nil_iff orderly.declarations.ordered).mp none⟩

/-- The verdict of the last edition on a program that was read: it is accepted exactly if it is well
declared, and otherwise refused with its first violation. -/
theorem analysis_verdict {text : String} {tree : Node} {reading : Reading} (logs : Bool)
    (parsed : Edition.calls.lexis.attempt Edition.calls.grammar.parse text = .done tree reading) :
    ∃ p analysis, tree = .program p ∧ Edition.calls.analysis? logs = some analysis ∧
      ((∃ survey, analysis.node tree analysis.initial = .ok () survey) ↔ p.WellDeclared) ∧
      ∀ fault, (∃ survey, analysis.node tree analysis.initial = .error fault survey) ↔
        p.violations.head? = some fault := by
  obtain ⟨p, rfl, orderly⟩ := orderly_of_attempt parsed
  have settles := @Scoped.program_settles ⟨true, logs⟩ ⟨[], #[]⟩ rfl p
    orderly.declarations.regular orderly.body rfl
  refine ⟨p, .scoped ⟨true, logs⟩, rfl, rfl, ?_, fun fault => ?_⟩
  · rw [← Program.violations_eq_nil_iff orderly.declarations.ordered, ← settles.ok_iff]
    exact Survey.onScopes_ok_iff.trans ⟨fun ⟨st, h⟩ => ⟨(), st, h⟩, fun ⟨(), st, h⟩ => ⟨st, h⟩⟩
  · exact Survey.onScopes_error_iff.trans settles.error_iff

set_option maxRecDepth 10000 in
/-- Of two names that are not declared, the one on the right-hand side is met first. -/
theorem analysis_verdict_right_hand_side_first :
    ∃ tree reading analysis survey,
      Edition.calls.lexis.attempt Edition.calls.grammar.parse "PROGRAM p; BEGIN a := b END." =
        .done tree reading ∧
      Edition.calls.analysis? true = some analysis ∧
      analysis.node tree analysis.initial = .error (.undeclared ⟨"b", ⟨1, 23⟩⟩) survey := by
  obtain ⟨tree, reading, parsed, named⟩ : ∃ p reading,
      Edition.calls.lexis.attempt Edition.calls.grammar.parse "PROGRAM p; BEGIN a := b END." =
        .done (.program p) reading ∧
      p.violations.head? = some (.undeclared ⟨"b", ⟨1, 23⟩⟩) := ⟨_, _, rfl, rfl⟩
  obtain ⟨p, analysis, same, found, _, refused⟩ := analysis_verdict true parsed
  cases same
  obtain ⟨survey, failed⟩ := (refused _).mpr named
  exact ⟨_, reading, analysis, survey, parsed, found, failed⟩

end LittlePascal
