import LittlePascal.Proofs.Scoping

/-! # Scopes that stay open

What the analysis of scopes does to the scopes around its work, for every tree and whether it succeeds or
fails. A piece of work that succeeds closes whatever it has opened, and the innermost scope has grown by
the names that were declared in it. A piece of work that fails closes nothing: the scopes around it are as
they were, and inside them there is at least one more.

Main definition: `Keeps`, what work leaves of the scopes around it.

Main statements:
* `Scoped.stmts_keeps`, `Scoped.decls_keeps`: statements and declarations;
* `Scoped.program_keeps`: programs. -/

namespace LittlePascal

/-! ## What work leaves behind -/

/-- Work keeps the scopes around it: it succeeds, and then the open scopes are as stated, or it fails and
leaves one scope or more open inside those around it. -/
def Keeps {α : Type} (outcome : EStateM.Result Fault ScopeState α) (around : ScopeChain)
    (Post : ScopeChain → Prop) : Prop :=
  match outcome with
  | .ok _ st => Post st.chain
  | .error _ st => ∃ inner, inner ≠ [] ∧ st.chain = inner ++ around

namespace Keeps

variable {α β : Type} {work : ScopeWork α} {further : α → ScopeWork β} {st : ScopeState}
  {around : ScopeChain} {Post Post' : ScopeChain → Prop}

/-- Work in sequence keeps what its parts keep. -/
theorem bind (first : Keeps (work st) around Post)
    (second : ∀ a st', Post st'.chain → Keeps (further a st') around Post') :
    Keeps ((work >>= further) st) around Post' := by
  cases h : work st with
  | ok a st' =>
    rw [h] at first
    rw [Work.bind_of_ok h]
    exact second a st' first
  | error fault st' =>
    rw [h] at first
    rw [Work.bind_of_error h]
    exact first

variable {outcome : EStateM.Result Fault ScopeState α}

/-- Less can be said of the open scopes. -/
theorem mono (h : Keeps outcome around Post) (weaker : ∀ chain, Post chain → Post' chain) :
    Keeps outcome around Post' := by
  cases outcome with
  | ok a st => exact weaker _ h
  | error fault st => exact h

/-- Work that keeps one more scope keeps those around it. -/
theorem outward {scope : Scope} (h : Keeps outcome (scope :: around) Post) :
    Keeps outcome around Post := by
  cases outcome with
  | ok a st => exact h
  | error fault st =>
    obtain ⟨inner, _, same⟩ := h
    exact ⟨inner ++ [scope], by simp, by rw [same, List.append_assoc, List.singleton_append]⟩

end Keeps

namespace Scoped

variable {rules : ScopeRules} {st : ScopeState} {scope : Scope} {outer : ScopeChain}

/-! ## Uses -/

/-- A use changes no scope. -/
theorem use_keeps (id : Ident) (opened : st.chain = scope :: outer) :
    Keeps (use rules id st) outer (· = scope :: outer) := by
  obtain ⟨log, found⟩ := @lookup_ok rules st scope outer id.name opened
  rw [use, Work.bind_of_ok found]
  cases ScopeChain.lookup? (scope :: outer) id.name with
  | some symbol => exact rfl
  | none => exact ⟨[scope], List.cons_ne_nil _ _, rfl⟩

/-- Literals and signs change no scope, whether they are known or not. -/
theorem literals_keeps (fault : Fault) (opened : st.chain = scope :: outer) :
    Keeps ((if rules.literals then pure () else throw fault : ScopeWork Unit) st) outer
      (· = scope :: outer) := by
  split
  · exact opened
  · exact ⟨[scope], List.cons_ne_nil _ _, opened⟩

/-- An expression changes no scope. -/
theorem expr_keeps (e : Expr) (opened : st.chain = scope :: outer) :
    Keeps (expr rules e st) outer (· = scope :: outer) := by
  induction e generalizing st with
  | literal _ _ => exact literals_keeps _ opened
  | var id => exact use_keeps id opened
  | signed _ _ _ _ => exact literals_keeps _ opened
  | binary _ _ _ _ ihLeft ihRight =>
    rw [expr]
    exact (ihLeft opened).bind fun _ _ kept => ihRight kept
  | hole => exact ⟨[scope], List.cons_ne_nil _ _, opened⟩

/-- The arguments of a call change no scope. -/
theorem arguments_keeps (arguments : List Expr) (opened : st.chain = scope :: outer) :
    Keeps (arguments.forM (expr rules) st) outer (· = scope :: outer) := by
  induction arguments generalizing st with
  | nil => exact opened
  | cons e _ ih => exact (expr_keeps e opened).bind fun _ _ kept => ih kept

mutual

/-- A statement changes no scope. -/
theorem stmt_keeps {st : ScopeState} :
    ∀ s : Stmt, st.chain = scope :: outer → Keeps (stmt rules s st) outer (· = scope :: outer)
  | .compound children, opened => by
    rw [stmt]
    exact stmts_keeps children opened
  | .assign target _ value, opened => by
    rw [stmt]
    exact (expr_keeps value opened).bind fun _ _ kept => use_keeps target kept
  | .call _ arguments, opened => by
    rw [stmt]
    exact arguments_keeps arguments opened
  | .empty, opened => opened

/-- Statements change no scope. -/
theorem stmts_keeps {st : ScopeState} :
    ∀ body : List Stmt, st.chain = scope :: outer →
      Keeps (stmts rules body st) outer (· = scope :: outer)
  | [], opened => opened
  | statement :: rest, opened => by
    rw [stmts]
    exact (stmt_keeps statement opened).bind fun _ _ kept => stmts_keeps rest kept

end

/-! ## Declarations -/

/-- A variable that is new is entered into the innermost scope. -/
theorem localVariable_keeps (binding : Binding) (opened : st.chain = scope :: outer) :
    Keeps (localVariable rules binding st) outer (ScopeChain.Grown scope outer [binding.id.name]) := by
  obtain ⟨log, found⟩ := @lookup_ok rules st scope outer binding.type.type.name opened
  obtain ⟨log', met⟩ := @lookupHere_ok rules ⟨scope :: outer, log⟩ scope outer binding.id.name rfl
  obtain ⟨log'', entered⟩ := @insert_ok rules ⟨scope :: outer, log'⟩ scope outer
    (.var binding.id.name (ScopeChain.lookup? (scope :: outer) binding.type.type.name)) rfl
  rw [localVariable, Work.bind_of_ok found, Work.bind_of_ok met]
  cases ScopeChain.lookup? [scope] binding.id.name with
  | some symbol => exact ⟨[scope], List.cons_ne_nil _ _, rfl⟩
  | none =>
    show Keeps (insert rules _ ⟨scope :: outer, log'⟩) outer _
    rw [entered]
    exact ⟨_, rfl, Scope.grows_insert⟩

/-- A procedure is entered into the innermost scope, and its own scope is closed after its block. -/
theorem procedure_keeps {p : String} {parameters : List Binding} {inner : List Decl}
    {body : List Stmt} (opened : st.chain = scope :: outer)
    (block : ∀ {st' scope' outer'}, st'.chain = scope' :: outer' →
      Keeps (decls rules inner st') outer' (ScopeChain.Grown scope' outer' (inner.map Decl.name))) :
    Keeps (decl rules (.procedure p parameters inner body) st) outer
      (ScopeChain.Grown scope outer [p]) := by
  obtain ⟨own, around, log, same, _, grows⟩ :=
    @procedure_eq rules st scope outer p parameters inner body opened
  rw [same]
  -- the block works inside the scope that has just been entered
  refine (block rfl).outward.bind ?_
  rintro _ st' ⟨own', opened', _⟩
  refine (stmts_keeps body opened').outward.bind fun _ st'' kept => ?_
  obtain ⟨log', closed⟩ := @close_ok rules st'' own' (around :: outer) p kept
  rw [closed]
  exact ⟨around, rfl, grows⟩

mutual

/-- A declaration adds its name to the innermost scope. -/
theorem decl_keeps {st : ScopeState} {scope : Scope} {outer : ScopeChain} :
    ∀ d : Decl, st.chain = scope :: outer →
      Keeps (decl rules d st) outer (ScopeChain.Grown scope outer [d.name])
  | .var binding, opened => by
    rw [decl]
    exact localVariable_keeps binding opened
  | .procedure _ _ inner _, opened => procedure_keeps opened (decls_keeps inner)

/-- Declarations add their names to the innermost scope. -/
theorem decls_keeps {st : ScopeState} {scope : Scope} {outer : ScopeChain} :
    ∀ ds : List Decl, st.chain = scope :: outer →
      Keeps (decls rules ds st) outer (ScopeChain.Grown scope outer (ds.map Decl.name))
  | [], opened => ⟨scope, opened, .nil⟩
  | d :: rest, opened => by
    rw [decls]
    refine (decl_keeps d opened).bind ?_
    rintro _ st' ⟨scope', opened', grows⟩
    refine (decls_keeps rest opened').mono ?_
    rintro chain ⟨scope'', same, grows'⟩
    exact ⟨scope'', same, grows.append grows'⟩

end

/-! ## Programs -/

/-- A program that is accepted leaves the open scopes as they were; one that is refused leaves scopes
open inside them. -/
theorem program_keeps (p : Program) (st : ScopeState) :
    Keeps (program rules p st) st.chain (· = st.chain) := by
  obtain ⟨scope, log, same, _⟩ := @program_eq rules p st
  rw [same, block, bind_assoc]
  refine (decls_keeps p.block.declarations rfl).bind ?_
  rintro _ st' ⟨scope', opened, _⟩
  refine (stmts_keeps p.block.body opened).bind fun _ st'' kept => ?_
  obtain ⟨log', closed⟩ := @close_ok rules st'' scope' st.chain "global" kept
  rw [closed]
  exact rfl

end Scoped

end LittlePascal
