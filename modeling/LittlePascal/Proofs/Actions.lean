import LittlePascal.Proofs.Nesting

/-! # The analysis of scopes as a list of actions

What the analysis does next never depends on what it has found, unless it fails: a program is a list of actions
that are performed one after the other until one of them fails. The states between two actions are the states
that the analysis passes through.

Main definitions:
* `Scoped.Action`, `Scoped.Action.perform`: one action, and what it does to the open scopes;
* `Program.actions`: the actions of a program;
* `Scoped.Passes`: a state that is passed through.

Main statements:
* `Scoped.stmts_eq_actions`, `Scoped.decls_eq_actions`: statements and declarations are their actions;
* `Scoped.program_eq_actions`: so are programs whose names are ordinary. -/

namespace LittlePascal

/-! ## Actions -/

/-- The parameters of a procedure of a scope. -/
def Scope.parameters (scope : Scope) (procedure : String) : List Symbol :=
  match scope.symbols.get? procedure with
  | some (.procedure _ parameters) => parameters
  | _ => []

namespace Scoped

/-- One action of the analysis of scopes. -/
inductive Action where
  /-- The scope of a program is opened, with the built-in types. -/
  | begin
  /-- A procedure is entered, without parameters yet. -/
  | procedure (name : String)
  /-- The scope of a procedure is opened. -/
  | enter (name : String)
  | parameter (procedure : String) (binding : Binding)
  | declare (binding : Binding)
  | use (id : Ident)
  /-- An expression without parts that are looked at. -/
  | pass (e : Expr)
  | close (name : String)

/-- A parameter becomes known to the symbol of its procedure, in the scope around the innermost one. -/
def addParameter (procedure : String) (symbol : Symbol) : ScopeWork Unit :=
  modify fun s =>
    match s.chain with
    | inner :: around :: outer =>
      { s with chain := inner ::
          around.insert (.procedure procedure (around.parameters procedure ++ [symbol])) :: outer }
    | _ => s

/-- What an action does. -/
def Action.perform (rules : ScopeRules) : Action → ScopeWork Unit
  | .begin => beginning rules
  | .procedure name => insert rules (.procedure name [])
  | .enter name => do Scoped.enter rules name ((← level) + 1)
  | .parameter p binding => Scoped.parameter rules binding >>= addParameter p
  | .declare binding => localVariable rules binding
  | .use id => Scoped.use rules id
  | .pass e => expr rules e
  | .close name => Scoped.close rules name

/-- Actions are performed until one of them fails. -/
def performAll (rules : ScopeRules) (actions : List Action) : ScopeWork Unit :=
  actions.forM (Action.perform rules)

/-- Actions that are performed from one state on pass through another one: it is there when some of them have
been performed, the last of them with or without success. -/
def Passes (rules : ScopeRules) (actions : List Action) (st st' : ScopeState) : Prop :=
  ∃ before, before <+: actions ∧ (performAll rules before st = .ok () st' ∨
    ∃ fault, performAll rules before st = .error fault st')

end Scoped

open Scoped (Action)

/-- The actions of an expression. -/
def Expr.actions : Expr → List Action
  | .var id => [.use id]
  | .binary _ _ left right => left.actions ++ right.actions
  | e => [.pass e]

namespace Stmt

mutual

/-- The actions of a statement. -/
def actions : Stmt → List Action
  | .compound children => actionsAll children
  | .assign target _ value => value.actions ++ [.use target]
  | .call _ arguments => arguments.flatMap Expr.actions
  | .empty => []

/-- The actions of statements, in order. -/
def actionsAll : List Stmt → List Action
  | [] => []
  | statement :: rest => actions statement ++ actionsAll rest

end

end Stmt

namespace Decl

mutual

/-- The actions of a declaration. -/
def actions : Decl → List Action
  | .var binding => [.declare binding]
  | .procedure name parameters declarations body =>
    .procedure name :: .enter name :: (parameters.map (.parameter name) ++
      (actionsAll declarations ++ (Stmt.actionsAll body ++ [.close name])))

/-- The actions of declarations, in order. -/
def actionsAll : List Decl → List Action
  | [] => []
  | declaration :: rest => actions declaration ++ actionsAll rest

end

end Decl

/-- The actions of a program. -/
def Program.actions (p : Program) : List Action :=
  .begin :: (Decl.actionsAll p.block.declarations ++ (Stmt.actionsAll p.block.body ++ [.close "global"]))

namespace Scoped

variable {rules : ScopeRules}

/-! ## Statements -/

@[simp] theorem performAll_nil : performAll rules [] = pure () := rfl

@[simp] theorem performAll_cons (action : Action) (rest : List Action) :
    performAll rules (action :: rest) = (do action.perform rules; performAll rules rest) := rfl

@[simp] theorem performAll_append (first second : List Action) :
    performAll rules (first ++ second) = (do performAll rules first; performAll rules second) := by
  induction first with
  | nil => simp
  | cons action rest ih => simp [ih]

/-- An expression is its actions. -/
theorem expr_eq_actions (e : Expr) : expr rules e = performAll rules e.actions := by
  induction e with
  | var id => simp [expr, Expr.actions, Action.perform]
  | binary _ _ left right left_ih right_ih =>
    rw [expr, Expr.actions, performAll_append, left_ih, right_ih]
  | literal _ _ => simp [Expr.actions, Action.perform]
  | signed _ _ _ _ => simp [Expr.actions, Action.perform]
  | hole => simp [Expr.actions, Action.perform]

/-- Arguments are their actions. -/
theorem arguments_eq_actions (arguments : List Expr) :
    arguments.forM (expr rules) = performAll rules (arguments.flatMap Expr.actions) := by
  induction arguments with
  | nil => rfl
  | cons e rest ih =>
    rw [List.flatMap_cons, performAll_append, ← expr_eq_actions, ← ih]
    rfl

mutual

/-- A statement is its actions. -/
theorem stmt_eq_actions : (s : Stmt) → stmt rules s = performAll rules s.actions
  | .compound children => by rw [stmt, Stmt.actions, stmts_eq_actions children]
  | .assign target _ value => by simp [stmt, Stmt.actions, expr_eq_actions, Action.perform]
  | .call _ arguments => by rw [stmt, Stmt.actions, arguments_eq_actions]
  | .empty => by rw [stmt, Stmt.actions, performAll_nil]

/-- Statements are their actions. -/
theorem stmts_eq_actions : (body : List Stmt) → stmts rules body = performAll rules (Stmt.actionsAll body)
  | [] => by rw [stmts, Stmt.actionsAll, performAll_nil]
  | s :: rest => by
    rw [stmts, Stmt.actionsAll, performAll_append, stmt_eq_actions s, stmts_eq_actions rest]

end

/-! ## Parameters -/

section Parameters

variable {st : ScopeState} {scope inner base : Scope} {outer : ScopeChain} {log : Array String}

/-- A look-up in all open scopes, with its lines. -/
theorem lookup_noted (name : String) (opened : st.chain = scope :: outer) :
    lookup rules name st = .ok (ScopeChain.lookup? (scope :: outer) name) ⟨scope :: outer, st.log ++
      noted rules ((ScopeChain.examined (scope :: outer) name).map (lookupLine name))⟩ := by
  rw [lookup, Work.get_bind, opened]
  exact (lookupIn_noted ..).trans (by rw [opened])

/-- An entry into the innermost scope, with its line. -/
theorem insert_noted (symbol : Symbol) (opened : st.chain = scope :: outer) :
    insert rules symbol st = .ok () ⟨scope.insert symbol :: outer,
      st.log ++ noted rules ["Insert: " ++ symbol.name]⟩ := by
  rw [insert, Work.get_bind, opened]
  exact Work.bind_of_ok (write_noted ..)

/-- What is entered under another name into the scope around the innermost one makes no difference to a
look-up. -/
theorem lookup?_insert_around {name : String} {symbol : Symbol} (other : name ≠ symbol.name) :
    ScopeChain.lookup? (inner :: base.insert symbol :: outer) name =
      ScopeChain.lookup? (inner :: base :: outer) name := by
  simp [ScopeChain.lookup?, Scope.insert, OrderedMap.insertSymbol, other]

/-- Nor does it make one to its lines. -/
theorem lookupLines_insert_around {name : String} {symbol : Symbol} (other : name ≠ symbol.name) :
    (ScopeChain.examined (inner :: base.insert symbol :: outer) name).map (lookupLine name) =
      (ScopeChain.examined (inner :: base :: outer) name).map (lookupLine name) := by
  have same : (base.insert symbol).has name = base.has name := by
    simp [Scope.has, Scope.insert, OrderedMap.insertSymbol, other]
  simp only [ScopeChain.examined, same]
  split
  · rfl
  · split <;> rfl

/-- The name of a type is not an ordinary one. -/
theorem not_ordinary_type (type : BaseType) : ¬Ordinary type.name := by
  cases type <;> simp [Ordinary, BaseType.name, BaseType.word, Reserved.spelling]

/-- A parameter gets its symbol and its lines whatever is known of the parameters of its procedure. -/
theorem parameter_beside {p : String} (ordinary : Ordinary p) (binding : Binding) :
    ∃ symbol log', ∀ known,
      parameter rules binding ⟨inner :: base.insert (.procedure p known) :: outer, log⟩ =
        .ok symbol ⟨inner.insert symbol :: base.insert (.procedure p known) :: outer, log'⟩ := by
  have other : binding.type.type.name ≠ p := fun same =>
    not_ordinary_type binding.type.type (same ▸ ordinary)
  refine ⟨.var binding.id.name (ScopeChain.lookup? (inner :: base :: outer) binding.type.type.name),
    log ++ noted rules ((ScopeChain.examined (inner :: base :: outer) binding.type.type.name).map
      (lookupLine binding.type.type.name)) ++ noted rules ["Insert: " ++ binding.id.name],
    fun known => ?_⟩
  rw [parameter, Work.bind_of_ok (lookup_noted _ rfl), lookup?_insert_around other,
    lookupLines_insert_around other]
  exact Work.bind_of_ok (insert_noted _ rfl)

/-- The parameters that are known become one more. -/
theorem addParameter_eq (p : String) (known : List Symbol) (symbol : Symbol) :
    addParameter p symbol ⟨inner :: base.insert (.procedure p known) :: outer, log⟩ =
      .ok () ⟨inner :: base.insert (.procedure p (known ++ [symbol])) :: outer, log⟩ := by
  have found : (base.insert (.procedure p known)).parameters p = known := by
    simp [Scope.parameters, Scope.insert, OrderedMap.insertSymbol, Symbol.name]
  have again : (base.insert (.procedure p known)).insert (.procedure p (known ++ [symbol])) =
      base.insert (.procedure p (known ++ [symbol])) :=
    Scope.insert_insert (.procedure p known) (.procedure p (known ++ [symbol])) rfl base
  rw [← again]
  nth_rewrite 3 [← found]
  rfl

/-- Parameters become known one by one as they do all at once. -/
theorem parameters_eq_actions {p : String} (ordinary : Ordinary p) (bindings : List Binding) :
    ∀ inner log known, ∃ symbols inner' log',
      bindings.mapM (parameter rules) ⟨inner :: base.insert (.procedure p []) :: outer, log⟩ =
        .ok symbols ⟨inner' :: base.insert (.procedure p []) :: outer, log'⟩ ∧
      performAll rules (bindings.map (.parameter p))
          ⟨inner :: base.insert (.procedure p known) :: outer, log⟩ =
        .ok () ⟨inner' :: base.insert (.procedure p (known ++ symbols)) :: outer, log'⟩ := by
  induction bindings with
  | nil => exact fun inner log known => ⟨[], inner, log, rfl, by rw [List.append_nil]; rfl⟩
  | cons binding rest ih =>
    intro inner log known
    -- what is known of the procedure grows on one side only, and the parameter does not see it
    obtain ⟨symbol, log₁, first⟩ := @parameter_beside rules inner base outer log p ordinary binding
    obtain ⟨symbols, inner', log', mapped, performed⟩ :=
      ih (inner.insert symbol) log₁ (known ++ [symbol])
    refine ⟨symbol :: symbols, inner', log', ?_, ?_⟩
    · rw [List.mapM_cons, Work.bind_of_ok (first []), Work.bind_of_ok mapped]
      rfl
    · have step : (Action.parameter p binding).perform rules
          ⟨inner :: base.insert (.procedure p known) :: outer, log⟩ =
          .ok () ⟨inner.insert symbol :: base.insert (.procedure p (known ++ [symbol])) :: outer, log₁⟩ :=
        (Work.bind_of_ok (first known)).trans (addParameter_eq p known symbol)
      rw [List.map_cons, performAll_cons, Work.bind_of_ok step, performed, List.append_assoc]
      rfl

end Parameters

/-! ## Declarations and programs -/

/-- A procedure as far as its parameters is its first actions. -/
theorem opening_eq_actions {p : String} (ordinary : Ordinary p) (parameters : List Binding) :
    (opening rules p parameters >>= completeProcedure p) =
      performAll rules (.procedure p :: .enter p :: parameters.map (.parameter p)) := by
  funext st
  obtain ⟨chain, log⟩ := st
  cases chain with
  | nil => rfl
  | cons scope outer =>
    let around : Scope := scope.insert (.procedure p [])
    obtain ⟨log₁, inserted⟩ := @insert_ok rules ⟨scope :: outer, log⟩ scope outer (.procedure p []) rfl
    obtain ⟨log₂, entering⟩ := @enter_ok rules p (around.level + 1) ⟨around :: outer, log₁⟩
    obtain ⟨symbols, own, log₃, bound, performed⟩ := @parameters_eq_actions rules scope outer p ordinary
      parameters (.opened p (around.level + 1)) log₂ []
    -- at last the procedure is entered anew, now with all of its parameters
    have completed : completeProcedure p symbols ⟨own :: around :: outer, log₃⟩ =
        .ok () ⟨own :: scope.insert (.procedure p symbols) :: outer, log₃⟩ := by
      rw [← Scope.insert_insert (.procedure p []) (.procedure p symbols) rfl scope]
      rfl
    have opened : opening rules p parameters ⟨scope :: outer, log⟩ = .ok symbols ⟨own :: around :: outer, log₃⟩ := by
      rw [opening, Work.bind_of_ok inserted, Work.bind_of_ok (level_ok rfl), Work.bind_of_ok entering]
      exact bound
    have entered : (Action.enter p).perform rules ⟨around :: outer, log₁⟩ =
        .ok () ⟨.opened p (around.level + 1) :: around :: outer, log₂⟩ :=
      (Work.bind_of_ok (level_ok rfl)).trans entering
    rw [Work.bind_of_ok opened, completed]
    exact ((Work.bind_of_ok inserted).trans ((Work.bind_of_ok entered).trans performed)).symm

/-- Declarations with ordinary names are their actions. -/
theorem decls_eq_actions {ds : List Decl} (named : Decl.AllNamed Ordinary ds) :
    decls rules ds = performAll rules (Decl.actionsAll ds) := by
  induction named with
  | nil => rw [decls, Decl.actionsAll, performAll_nil]
  | @var binding rest _ _ ih =>
    rw [decls, decl, Decl.actionsAll, Decl.actions, performAll_append, ih]
    simp [Action.perform]
  | @procedure p parameters inner rest body ordinary _ _ _ inner_ih rest_ih =>
    rw [decls, decl_procedure, opening_eq_actions ordinary, inner_ih, stmts_eq_actions, rest_ih,
      Decl.actionsAll, Decl.actions]
    simp [Action.perform]

/-- A program with ordinary names is its actions. -/
theorem program_eq_actions {p : Program} (named : Decl.AllNamed Ordinary p.block.declarations) :
    program rules p = performAll rules p.actions := by
  rw [program_eq_beginning, block, decls_eq_actions named, stmts_eq_actions, Program.actions]
  simp [Action.perform]

end Scoped

end LittlePascal
