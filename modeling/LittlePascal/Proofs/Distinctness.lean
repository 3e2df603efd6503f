import LittlePascal.Proofs.OpenScopes
import LittlePascal.Proofs.Verdict

/-! # Names that are declared once

The scope of a block takes in the parameters of its procedure, its variables and its procedures. Only a
variable is compared with what the scope already has. So in an accepted program the variables of a block
differ from each other and from the parameters, but parameters may repeat each other, and a procedure may
have the name of anything: the later symbol then takes the place of the earlier one.

Main definitions:
* `Setting.declaredNames`: the names that are declared in the scope of a block;
* `Scoped.Enters`, `Scoped.EntersProgram`: a name is entered into a scope while the analysis runs.

Main statements:
* `Setting.Proper.nodup_declaredNames_iff`: what is missing for the names of a block to be distinct;
* `Scoped.entersProgram_iff`: no symbol is replaced exactly if the names of every block are distinct;
* `accepted_distinct_iff`: both together, for programs that were read and accepted. -/

namespace LittlePascal

/-! ## The names of a scope -/

/-- The variables and the procedures among declarations are all that they declare. -/
theorem Decl.map_name_perm (ds : List Decl) :
    (ds.map name).Perm (variableNames ds ++ procedureNames ds) := by
  induction ds with
  | nil => exact .nil
  | cons d rest ih =>
    cases d with
    | var binding => exact ih.cons binding.id.name
    | procedure p _ _ _ => exact (ih.cons p).trans List.perm_middle.symm

namespace Setting

/-- The names that are declared in the scope of a block: its parameters, variables and procedures. -/
def declaredNames (b : Setting) : List String := b.parameters ++ b.block.declarations.map Decl.name

/-- The procedures of a setting. -/
def procedureNames (b : Setting) : List String := Decl.procedureNames b.block.declarations

/-- If the variables of a block are distinct and differ from its parameters, its names are distinct
exactly if the parameters are, and the procedures are, and no procedure has the name of a parameter or of
a variable. -/
theorem Proper.nodup_declaredNames_iff {b : Setting} (proper : b.Proper) :
    b.declaredNames.Nodup ↔
      b.parameters.Nodup ∧ b.procedureNames.Nodup ∧
        ∀ s ∈ b.procedureNames, s ∉ b.parameters ∧ s ∉ b.variableNames := by
  have perm : b.declaredNames.Perm (b.parameters ++ (b.variableNames ++ b.procedureNames)) :=
    (Decl.map_name_perm b.block.declarations).append_left b.parameters
  rw [perm.nodup_iff, List.nodup_append, List.nodup_append]
  constructor
  · rintro ⟨parameters, ⟨_, procedures, apart⟩, apart'⟩
    refine ⟨parameters, procedures, fun s member => ⟨fun parameter => ?_, fun var => ?_⟩⟩
    · exact apart' s parameter s (List.mem_append_right _ member) rfl
    · exact apart s var s member rfl
  · rintro ⟨parameters, procedures, apart⟩
    refine ⟨parameters, ⟨proper.distinct, procedures, ?_⟩, ?_⟩
    · rintro s var _ procedure rfl
      exact (apart s procedure).2 var
    · rintro s parameter _ member rfl
      rcases List.mem_append.mp member with var | procedure
      · exact proper.fresh s var parameter
      · exact (apart s procedure).1 parameter

/-- In all settings inside a setting the declared names are distinct. -/
def AllDistinct (b : Setting) : Prop := ∀ c, b.Contains c → c.declaredNames.Nodup

/-- The names in the settings of its procedures are distinct too. -/
theorem AllDistinct.inside {b : Setting} (distinct : b.AllDistinct) {before after ds : List Decl}
    {p : String} {parameters : List Binding} {body : List Stmt}
    (split : b.block.declarations = before ++ .procedure p parameters ds body :: after) :
    (b.inside before p parameters ⟨ds, body⟩).AllDistinct :=
  fun c contained => distinct c (.procedure split contained)

end Setting

namespace Scoped

/-! ## Names are entered -/

/-- The analysis of declarations, begun in a state, comes to enter a name into a scope: that of a
variable or a procedure behind the declarations before it, that of a parameter behind the parameters
before it, or a name inside a procedure. -/
inductive Enters (rules : ScopeRules) : List Decl → ScopeState → Scope → String → Prop where
  | var {before after : List Decl} {binding : Binding} {st st' st'' : ScopeState} {scope : Scope}
      {outer : ScopeChain} :
      decls rules before st = .ok () st' → st'.chain = scope :: outer →
      localVariable rules binding st' = .ok () st'' →
      Enters rules (before ++ .var binding :: after) st scope binding.id.name
  | procedure {before after inner : List Decl} {p : String} {parameters : List Binding}
      {body : List Stmt} {st st' : ScopeState} {scope : Scope} {outer : ScopeChain} :
      decls rules before st = .ok () st' → st'.chain = scope :: outer →
      Enters rules (before ++ .procedure p parameters inner body :: after) st scope p
  | parameter {before after inner : List Decl} {p : String} {first rest : List Binding}
      {binding : Binding} {body : List Stmt} {st st' st'' : ScopeState} {symbols : List Symbol}
      {scope : Scope} {outer : ScopeChain} :
      decls rules before st = .ok () st' → opening rules p first st' = .ok symbols st'' →
      st''.chain = scope :: outer →
      Enters rules (before ++ .procedure p (first ++ binding :: rest) inner body :: after) st scope
        binding.id.name
  | inside {before after inner : List Decl} {p s : String} {parameters : List Binding}
      {body : List Stmt} {st st' st'' : ScopeState} {scope : Scope} :
      decls rules before st = .ok () st' →
      (opening rules p parameters >>= completeProcedure p) st' = .ok () st'' →
      Enters rules inner st'' scope s →
      Enters rules (before ++ .procedure p parameters inner body :: after) st scope s

/-- The analysis of a program, begun in a state, comes to enter a name into a scope: that of a built-in
type, or one that the program declares. -/
inductive EntersProgram (rules : ScopeRules) (p : Program) (st : ScopeState) : Scope → String → Prop where
  | builtin {first rest : List Symbol} {symbol : Symbol} {st' : ScopeState} {scope : Scope}
      {outer : ScopeChain} :
      Symbol.builtins = first ++ symbol :: rest →
      (enter rules "global" 1 >>= fun _ => first.forM (insert rules)) st = .ok () st' →
      st'.chain = scope :: outer → EntersProgram rules p st scope symbol.name
  | declared {st' : ScopeState} {scope : Scope} {s : String} :
      beginning rules st = .ok () st' → Enters rules p.block.declarations st' scope s →
      EntersProgram rules p st scope s

variable {rules : ScopeRules} {st st' : ScopeState} {own : Scope} {outer : ScopeChain}

/-- The scope after some declarations has what it had and their names. -/
theorem grown_of_decls {ds : List Decl} (opened : st.chain = own :: outer)
    (ran : decls rules ds st = .ok () st') :
    ∃ own', st'.chain = own' :: outer ∧ own.Grows (ds.map Decl.name) own' := by
  have keeps := @decls_keeps rules st own outer ds opened
  rw [ran] at keeps
  exact keeps

/-- Declarations are analysed in two parts. -/
theorem decls_append (ds es : List Decl) :
    decls rules (ds ++ es) = decls rules ds >>= fun _ => decls rules es := by
  induction ds with
  | nil => rfl
  | cons d rest ih => rw [List.cons_append, decls, decls, ih, bind_assoc]

/-- Declarations that succeed come to each of them. -/
theorem ok_of_decls_append {before after : List Decl} {d : Decl}
    (ran : decls rules (before ++ d :: after) st = .ok () st') :
    ∃ st₁ st₂, decls rules before st = .ok () st₁ ∧ decl rules d st₁ = .ok () st₂ := by
  rw [decls_append] at ran
  obtain ⟨_, st₁, first, ran⟩ := Work.bind_eq_ok.mp ran
  rw [decls] at ran
  obtain ⟨_, st₂, second, _⟩ := Work.bind_eq_ok.mp ran
  exact ⟨st₁, st₂, first, second⟩

/-! ## Distinct names replace no symbol -/

/-- A name behind distinct names is new in the scope that they have been entered into. -/
theorem not_has_of_nodup {names before : List String} {s : String} {after : List String} {scope : Scope}
    (distinct : (names ++ (before ++ s :: after)).Nodup) (known : own.has s = true → s ∈ names)
    (grows : own.Grows before scope) : scope.has s = false := by
  obtain ⟨_, second, apart⟩ := List.nodup_append.mp distinct
  obtain ⟨_, _, apart'⟩ := List.nodup_append.mp second
  rw [Bool.eq_false_iff]
  intro has
  rcases (grows s).mp has with has | member
  · exact apart s (known has) s (by simp) rfl
  · exact apart' s member s List.mem_cons_self rfl

/-- If the names of all blocks are distinct, a name is new where it is entered. -/
theorem Enters.not_has {ds : List Decl} {scope : Scope} {s : String}
    (enters : Enters rules ds st scope s) {b : Setting} (same : b.block.declarations = ds)
    (distinct : b.AllDistinct) (opened : st.chain = own :: outer)
    (known : ∀ d ∈ ds, own.has d.name = true → d.name ∈ b.parameters) : scope.has s = false := by
  induction enters generalizing b own outer with
  | @var before after binding st st' st'' scope outer' ran opened' _ =>
    obtain ⟨own', chain, grows⟩ := grown_of_decls opened ran
    rw [opened', List.cons.injEq] at chain
    obtain ⟨rfl, rfl⟩ := chain
    have nodup := distinct b (.self b)
    rw [Setting.declaredNames, same, List.map_append, List.map_cons] at nodup
    exact not_has_of_nodup nodup (known (.var binding) (by simp)) grows
  | @procedure before after inner p parameters body st st' scope outer' ran opened' =>
    obtain ⟨own', chain, grows⟩ := grown_of_decls opened ran
    rw [opened', List.cons.injEq] at chain
    obtain ⟨rfl, rfl⟩ := chain
    have nodup := distinct b (.self b)
    rw [Setting.declaredNames, same, List.map_append, List.map_cons] at nodup
    exact not_has_of_nodup nodup (known (.procedure p parameters inner body) (by simp)) grows
  | @parameter before after inner p first rest binding body st st' st'' symbols scope outer' ran ready
      opened' =>
    obtain ⟨own', chain, _⟩ := grown_of_decls opened ran
    obtain ⟨_, own'', around, log, again, has, _⟩ := @opening_ok rules st' own' outer p first chain
    rw [ready] at again
    cases again
    rw [List.cons.injEq] at opened'
    obtain ⟨rfl, _⟩ := opened'
    have nodup := distinct.inside same _ (.self _)
    rw [Setting.declaredNames, List.nodup_append] at nodup
    have parameters : (Binding.names first ++ binding.id.name :: Binding.names rest).Nodup := by
      simpa [Setting.inside, Binding.names] using nodup.1
    rw [Bool.eq_false_iff, Ne, has]
    exact fun member => (List.nodup_append.mp parameters).2.2 _ member _ List.mem_cons_self rfl
  | @inside before after inner p s parameters body st st' st'' scope ran ready _ ih =>
    obtain ⟨own', chain, _⟩ := grown_of_decls opened ran
    obtain ⟨own'', around, log, again, has, _⟩ :=
      @opening_completed rules st' own' outer p parameters chain
    rw [ready] at again
    cases again
    exact ih rfl (distinct.inside same) rfl fun d _ => (has d.name).mp

/-! ## If no symbol is replaced, names are distinct -/

/-- Names none of which occurs before itself are distinct. -/
theorem nodup_of_splits {names : List String}
    (new : ∀ before s after, names = before ++ s :: after → s ∉ before) : names.Nodup := by
  induction names with
  | nil => exact List.nodup_nil
  | cons s rest ih =>
    rw [List.nodup_cons]
    constructor
    · intro again
      obtain ⟨before, after, rfl⟩ := List.append_of_mem again
      exact new (s :: before) s after rfl List.mem_cons_self
    · refine ih fun before t after split member => ?_
      exact new (s :: before) t after (by rw [split]; rfl) (List.mem_cons_of_mem s member)

/-- If every name that declarations enter is new, the names of the block that they belong to are
distinct. -/
theorem nodup_of_enters {b : Setting} (opened : st.chain = own :: outer)
    (ran : decls rules b.block.declarations st = .ok () st')
    (known : ∀ s ∈ b.parameters, own.has s = true) (distinct : b.parameters.Nodup)
    (new : ∀ scope s, Enters rules b.block.declarations st scope s → scope.has s = false) :
    b.declaredNames.Nodup := by
  -- a declared name is new, so it is neither a parameter nor declared before
  have fresh : ∀ before d after, b.block.declarations = before ++ d :: after →
      d.name ∉ b.parameters ∧ d.name ∉ before.map Decl.name := by
    intro before d after split
    rw [split] at ran
    obtain ⟨st₁, st₂, first, second⟩ := ok_of_decls_append ran
    obtain ⟨own', chain, grows⟩ := grown_of_decls opened first
    have entered : Enters rules b.block.declarations st own' d.name := by
      rw [split]
      cases d with
      | var binding =>
        rw [decl] at second
        exact .var first chain second
      | procedure _ _ _ _ => exact .procedure first chain
    have absent := Bool.eq_false_iff.mp (new _ _ entered)
    exact ⟨fun member => absent ((grows _).mpr (.inl (known _ member))),
      fun member => absent ((grows _).mpr (.inr member))⟩
  rw [Setting.declaredNames, List.nodup_append]
  refine ⟨distinct, nodup_of_splits fun names s others same => ?_, ?_⟩
  · obtain ⟨before, rest, split, rfl, later⟩ := List.map_eq_append_iff.mp same
    obtain ⟨d, after, rfl, rfl, _⟩ := List.map_eq_cons_iff.mp later
    exact (fresh before d after split).2
  · rintro s parameter _ member rfl
    obtain ⟨d, among, rfl⟩ := List.mem_map.mp member
    obtain ⟨before, after, split⟩ := List.append_of_mem among
    exact (fresh before d after split).1 parameter

/-- The parameters of a procedure are distinct if each of them is new where it is entered. -/
theorem nodup_parameters_of_enters {ds before after inner : List Decl} {p : String}
    {parameters : List Binding} {body : List Stmt}
    (split : ds = before ++ .procedure p parameters inner body :: after)
    (opened : st.chain = own :: outer) (ran : decls rules before st = .ok () st')
    (new : ∀ scope s, Enters rules ds st scope s → scope.has s = false) :
    (Binding.names parameters).Nodup := by
  refine nodup_of_splits fun names s others same => ?_
  obtain ⟨first, rest, rfl, rfl, later⟩ := List.map_eq_append_iff.mp same
  obtain ⟨binding, rest, rfl, rfl, _⟩ := List.map_eq_cons_iff.mp later
  obtain ⟨own', chain, _⟩ := grown_of_decls opened ran
  obtain ⟨symbols, own'', around, log, ready, has, _⟩ := @opening_ok rules st' own' outer p first chain
  have entered : Enters rules ds st own'' binding.id.name := by
    rw [split]
    exact .parameter ran ready rfl
  have absent := Bool.eq_false_iff.mp (new _ _ entered)
  exact fun member => absent ((has _).mpr member)

/-- If every name that declarations enter is new, the names of all blocks inside are distinct. -/
theorem nodup_of_contains {b c : Setting} (contained : b.Contains c) (opened : st.chain = own :: outer)
    (ran : decls rules b.block.declarations st = .ok () st')
    (known : ∀ s ∈ b.parameters, own.has s = true) (distinct : b.parameters.Nodup)
    (new : ∀ scope s, Enters rules b.block.declarations st scope s → scope.has s = false) :
    c.declaredNames.Nodup := by
  induction contained generalizing st st' own outer with
  | self b => exact nodup_of_enters opened ran known distinct new
  | @procedure b c before after ds p parameters body split _ ih =>
    rw [split] at ran
    obtain ⟨st₁, st₂, first, second⟩ := ok_of_decls_append ran
    obtain ⟨own', chain, _⟩ := grown_of_decls opened first
    obtain ⟨own'', around, log, ready, has, _⟩ :=
      @opening_completed rules st₁ own' outer p parameters chain
    rw [decl_procedure, Work.bind_of_ok ready] at second
    obtain ⟨_, st₃, block, _⟩ := Work.bind_eq_ok.mp second
    refine ih rfl block (fun s => (has s).mpr) (nodup_parameters_of_enters split opened first new) ?_
    intro scope s entered
    refine new scope s ?_
    rw [split]
    exact .inside first ready entered

/-! ## Programs -/

/-- The built-in types are entered into an empty scope, one after the other. -/
theorem not_has_builtin {first rest : List Symbol} {symbol : Symbol} {scope : Scope}
    (split : Symbol.builtins = first ++ symbol :: rest)
    (ran : (enter rules "global" 1 >>= fun _ => first.forM (insert rules)) st = .ok () st')
    (opened : st'.chain = scope :: outer) : scope.has symbol.name = false := by
  obtain ⟨log, entering⟩ := @enter_ok rules "global" 1 st
  rw [Work.bind_of_ok entering] at ran
  match first, split with
  | [], split =>
    cases ran
    cases opened
    rfl
  | [symbol'], split =>
    cases split
    obtain ⟨log', inserted⟩ := @insert_ok rules ⟨.opened "global" 1 :: st.chain, log⟩ _ _
      (.builtin "INTEGER") rfl
    have ran' := (Work.bind_of_ok inserted).symm.trans ran
    cases ran'
    cases opened
    rfl
  | _ :: _ :: _, split => simp [Symbol.builtins] at split

/-- In a program that is accepted no symbol takes the place of another one exactly if the names of every
block are distinct. -/
theorem entersProgram_iff {p : Program} (ordinary : ∀ d ∈ p.block.declarations, Ordinary d.name)
    (ran : program rules p st = .ok () st') :
    (∀ scope s, EntersProgram rules p st scope s → scope.has s = false) ↔
      Setting.AllDistinct ⟨fun _ => False, [], p.block⟩ := by
  obtain ⟨scope, log, begun, grows⟩ := @beginning_ok rules st
  rw [program_eq_beginning, Work.bind_of_ok begun, block, bind_assoc] at ran
  obtain ⟨_, st'', declared, _⟩ := Work.bind_eq_ok.mp ran
  constructor
  · intro new c contained
    exact nodup_of_contains contained rfl declared (by simp) List.nodup_nil fun scope' s entered =>
      new scope' s (.declared begun entered)
  · rintro distinct scope' s (⟨split, ran, opened⟩ | ⟨begun', entered⟩)
    · exact not_has_builtin split ran opened
    · rw [begun] at begun'
      cases begun'
      -- of the names that the scope has at first, none can be declared
      refine entered.not_has rfl distinct rfl fun d member has => absurd ((grows d.name).mp has) ?_
      rw [Scope.has_opened]
      simpa [Ordinary] using ordinary d member

end Scoped

/-! ## Programs that were read -/

/-- The declarations of a derived program have names of a class. -/
theorem Grammar.Derives.declarations_named {g : Grammar} {names : String → Prop} {ms : List Mark}
    {p : Program} (h : g.Derives ms p) (named : Named names ms) :
    ∀ d ∈ p.block.declarations, names d.name := by
  obtain ⟨_, _, _, ⟨vars, procedures, _⟩, _⟩ := h
  obtain ⟨first, rest⟩ := named_append.mp (named_append.mp named.tail.tail.tail).1
  intro d member
  rcases List.mem_append.mp member with var | procedure
  · obtain ⟨binding, rfl, proper⟩ := vars.named first d var
    exact proper
  · refine (show ∀ d ∈ _, names d.name from
      procedures.forall_mem ?_ (named_append.mp rest).1) d procedure
    rintro ns d named ⟨_, name, _, _, _, _⟩
    exact named.tail.head name

/-- In a program that was read the declarations have ordinary names. -/
theorem ordinary_declarations {text : String} {p : Program} {reading : Reading}
    (h : Edition.calls.lexis.attempt Edition.calls.grammar.parse text = .done (.program p) reading) :
    ∀ d ∈ p.block.declarations, Scoped.Ordinary d.name := by
  obtain ⟨ms, _, reads, same, form⟩ := Grammar.reads_of_attempt Edition.full_calls h
  cases same
  exact form.declarations_named (ordinary_of_reads reads)

/-- In a program that the last edition accepts, the names that a block declares are distinct exactly if
its parameters are, and its procedures are, and no procedure has the name of a parameter or of a variable:
the rest is checked. The analysis never replaces a symbol by another one exactly if the names of all blocks
are distinct. -/
theorem accepted_distinct_iff {text : String} {tree : Node} {reading : Reading} {logs : Bool}
    {analysis : Analysis} {survey : Survey}
    (parsed : Edition.calls.lexis.attempt Edition.calls.grammar.parse text = .done tree reading)
    (found : Edition.calls.analysis? logs = some analysis)
    (accepted : analysis.node tree analysis.initial = .ok () survey) :
    ∃ p, tree = .program p ∧
      (∀ c, Setting.Contains ⟨fun _ => False, [], p.block⟩ c →
        (c.declaredNames.Nodup ↔
          c.parameters.Nodup ∧ c.procedureNames.Nodup ∧
            ∀ s ∈ c.procedureNames, s ∉ c.parameters ∧ s ∉ c.variableNames)) ∧
      ((∀ scope s, Scoped.EntersProgram ⟨true, logs⟩ p ⟨[], #[]⟩ scope s → scope.has s = false) ↔
        ∀ c, Setting.Contains ⟨fun _ => False, [], p.block⟩ c → c.declaredNames.Nodup) := by
  obtain ⟨p, rfl, _, declared⟩ := wellDeclared_of_accepted parsed found accepted
  cases found
  obtain ⟨st, ran⟩ := Survey.onScopes_ok_iff.mp ⟨survey, accepted⟩
  refine ⟨p, rfl, fun c contained => (declared c contained).nodup_declaredNames_iff, ?_⟩
  exact Scoped.entersProgram_iff (ordinary_declarations parsed) ran

set_option maxRecDepth 10000 in
/-- A program that is accepted although a procedure has two parameters of one name, so that the symbol of
the first one is replaced. -/
theorem accepted_distinct_iff_parameter_twice :
    let p : Program := ⟨"p", ⟨[.procedure "q"
      [⟨⟨"x", ⟨1, 24⟩⟩, ⟨.real, ⟨1, 31⟩⟩⟩, ⟨⟨"x", ⟨1, 27⟩⟩, ⟨.real, ⟨1, 31⟩⟩⟩] [] [.empty]], [.empty]⟩⟩
    let analysis := Analysis.scoped ⟨true, false⟩
    (∃ reading, Edition.calls.lexis.attempt Edition.calls.grammar.parse
      "PROGRAM p; PROCEDURE q(x, x : REAL); BEGIN END; BEGIN END." = .done (.program p) reading) ∧
    Edition.calls.analysis? false = some analysis ∧
    (∃ survey, analysis.node (.program p) analysis.initial = .ok () survey) ∧
    ¬ ∀ scope s, Scoped.EntersProgram ⟨true, false⟩ p ⟨[], #[]⟩ scope s → scope.has s = false := by
  intro p analysis
  let marks : List Mark :=
    [⟨.reserved .program, ⟨1, 1⟩, ' '⟩, ⟨.name "p", ⟨1, 9⟩, ';'⟩,
     ⟨.punctuation .semicolon, ⟨1, 10⟩, ' '⟩, ⟨.reserved .procedure, ⟨1, 12⟩, ' '⟩,
     ⟨.name "q", ⟨1, 22⟩, '('⟩, ⟨.punctuation .leftParen, ⟨1, 23⟩, 'x'⟩,
     ⟨.name "x", ⟨1, 24⟩, ','⟩, ⟨.punctuation .comma, ⟨1, 25⟩, ' '⟩,
     ⟨.name "x", ⟨1, 27⟩, ' '⟩, ⟨.punctuation .colon, ⟨1, 29⟩, ' '⟩,
     ⟨.reserved .realType, ⟨1, 31⟩, ')'⟩, ⟨.punctuation .rightParen, ⟨1, 35⟩, ';'⟩,
     ⟨.punctuation .semicolon, ⟨1, 36⟩, ' '⟩, ⟨.reserved .beginBlock, ⟨1, 38⟩, ' '⟩,
     ⟨.reserved .endBlock, ⟨1, 44⟩, ';'⟩, ⟨.punctuation .semicolon, ⟨1, 47⟩, ' '⟩,
     ⟨.reserved .beginBlock, ⟨1, 49⟩, ' '⟩, ⟨.reserved .endBlock, ⟨1, 55⟩, '.'⟩,
     ⟨.punctuation .dot, ⟨1, 58⟩, none⟩]
  have reads : Edition.calls.lexis.Reads
      "PROGRAM p; PROCEDURE q(x, x : REAL); BEGIN END; BEGIN END." marks := by decide
  have x : DerivesIdent [marks[6]] ⟨"x", ⟨1, 24⟩⟩ := .name rfl
  have again : DerivesIdent [marks[8]] ⟨"x", ⟨1, 27⟩⟩ := .name rfl
  have type : DerivesType [marks[10]] ⟨.real, ⟨1, 31⟩⟩ := .word rfl
  have parameters : DerivesParameters ((marks.drop 5).take 7) _ :=
    .some rfl (.one (.group (.more x rfl (.one again)) rfl type)) rfl
  have nothing : ∀ m n : Mark, m.lexeme = .reserved .beginBlock → n.lexeme = .reserved .endBlock →
      DerivesBlock Edition.calls.grammar [m, n] ⟨[], [.empty]⟩ :=
    fun m n first last => .block .absent .nil (.compound first (.one .empty) last)
  have procedure : DerivesProcedure Edition.calls.grammar ((marks.drop 3).take 13) _ :=
    .procedure rfl rfl parameters rfl (nothing marks[13] marks[14] rfl rfl) rfl
  have main : DerivesStmt Edition.calls.grammar ((marks.drop 16).take 2) (.compound [.empty]) :=
    .compound rfl (.one .empty) rfl
  have derives : Edition.calls.grammar.Derives marks p :=
    .program rfl rfl rfl (.block .absent (.cons procedure .nil) main) rfl
  obtain ⟨reading, parsed⟩ := Grammar.attempt_of_derives Edition.full_calls reads derives
  have found : Edition.calls.analysis? false = some analysis := rfl
  obtain ⟨survey, accepted⟩ : ∃ survey,
      analysis.node (.program p) analysis.initial = .ok () survey := ⟨_, rfl⟩
  obtain ⟨_, same, blocks, replaced⟩ := accepted_distinct_iff parsed found accepted
  cases same
  refine ⟨⟨reading, parsed⟩, found, ⟨survey, accepted⟩, fun new => ?_⟩
  -- the block of the procedure
  have contained := @Setting.Contains.procedure ⟨fun _ => False, [], p.block⟩ _ [] [] [] "q" _ [.empty]
    rfl (.self _)
  have parameters := ((blocks _ contained).mp (replaced.mp new _ contained)).1
  exact absurd parameters (by decide)

end LittlePascal
