import LittlePascal.Fault
import LittlePascal.Scope
import LittlePascal.Tree

/-! # Nested scopes

The third analysis gives the program and every procedure a scope of its own. A procedure is entered
into the scope around it before its own scope is opened for its parameters and its block. A variable
must be new in its scope; a variable that is used must be visible. What stands behind a sign is not
looked at.

The scopes that are open, and the lines written, are kept when the analysis fails, and the scopes of a
failed analysis enclose those of the next one.

It is the `SemanticAnalyzer` of parts 14 to 16 of the series. -/

namespace LittlePascal

/-- What an edition decides about the analysis of scopes. -/
structure ScopeRules where
  /-- Whether literals and signs are known; otherwise the analysis fails at them. -/
  literals : Bool
  /-- Whether lines are written. -/
  logs : Bool
  deriving DecidableEq, Repr

/-- The open scopes, the innermost one first, and the lines written. -/
structure ScopeState where
  chain : ScopeChain
  log : Array String

/-- Work on open scopes. -/
abbrev ScopeWork := EStateM Fault ScopeState

namespace Scoped

/-- A line is written, if lines are written at all. -/
def write (rules : ScopeRules) (line : String) : ScopeWork Unit :=
  modify fun s => if rules.logs then { s with log := s.log.push line } else s

/-- The line about the look-up of a name in a scope. -/
def lookupLine (name : String) (scope : Scope) : String :=
  "Lookup: " ++ name ++ ". (Scope name: " ++ scope.name ++ ")"

/-- A name is looked up in the given scopes. -/
def lookupIn (rules : ScopeRules) (chain : ScopeChain) (name : String) :
    ScopeWork (Option Symbol) := do
  (chain.examined name).forM fun scope => write rules (lookupLine name scope)
  return chain.lookup? name

/-- A name is looked up in all open scopes. -/
def lookup (rules : ScopeRules) (name : String) : ScopeWork (Option Symbol) := do
  match (← get).chain with
  | [] => throw (.noScope .lookup)
  | chain => lookupIn rules chain name

/-- A name is looked up in the innermost scope only. -/
def lookupHere (rules : ScopeRules) (name : String) : ScopeWork (Option Symbol) := do
  match (← get).chain with
  | [] => throw (.noScope .lookup)
  | scope :: _ => lookupIn rules [scope] name

/-- A symbol is entered into the innermost scope. -/
def insert (rules : ScopeRules) (symbol : Symbol) : ScopeWork Unit := do
  match (← get).chain with
  | [] => throw (.noScope .insert)
  | scope :: outer =>
    write rules ("Insert: " ++ symbol.name)
    modify fun s => { s with chain := scope.insert symbol :: outer }

/-- A scope is opened inside the others. -/
def enter (rules : ScopeRules) (name : String) (level : Nat) : ScopeWork Unit := do
  write rules ("ENTER scope: " ++ name)
  modify fun s => { s with chain := Scope.opened name level :: s.chain }

/-- The innermost scope is written down and closed. -/
def close (rules : ScopeRules) (name : String) : ScopeWork Unit := do
  match (← get).chain.headText with
  | some text => write rules text
  | none => pure ()
  modify fun s => { s with chain := s.chain.tail }
  write rules ("LEAVE scope: " ++ name)

/-- The parameters of the procedure whose scope is the innermost one become known to its symbol, in
the scope around it. -/
def completeProcedure (name : String) (parameters : List Symbol) : ScopeWork Unit :=
  modify fun s =>
    match s.chain with
    | inner :: around :: outer =>
      { s with chain := inner :: around.insert (.procedure name parameters) :: outer }
    | _ => s

/-- The level of the innermost scope. -/
def level : ScopeWork Nat := do
  match (← get).chain with
  | [] => throw (.noScope .insert)
  | scope :: _ => return scope.level

/-- A variable must be visible. -/
def use (rules : ScopeRules) (id : Ident) : ScopeWork Unit := do
  if (← lookup rules id.name).isNone then throw (.undeclared id)

/-- The variables of an expression are used. -/
def expr (rules : ScopeRules) : Expr → ScopeWork Unit
  | .var id => use rules id
  | .binary _ _ left right => do
    expr rules left
    expr rules right
  | .hole => throw (.unhandled Expr.hole.className)
  | e => if rules.literals then pure () else throw (.unhandled e.className)

mutual

/-- The variables of a statement are used, those of a right-hand side before the target. -/
def stmt (rules : ScopeRules) : Stmt → ScopeWork Unit
  | .compound children => stmts rules children
  | .assign target _ value => do
    expr rules value
    use rules target
  | .call _ arguments => arguments.forM (expr rules)
  | .empty => pure ()

/-- The variables of statements are used, in order. -/
def stmts (rules : ScopeRules) : List Stmt → ScopeWork Unit
  | [] => pure ()
  | statement :: rest => do
    stmt rules statement
    stmts rules rest

end

/-- A parameter is entered with its type; this is its symbol. -/
def parameter (rules : ScopeRules) (binding : Binding) : ScopeWork Symbol := do
  let type ← lookup rules binding.type.type.name
  let symbol := Symbol.var binding.id.name type
  insert rules symbol
  return symbol

/-- A variable is entered with its type, if its name is new in the innermost scope. -/
def localVariable (rules : ScopeRules) (binding : Binding) : ScopeWork Unit := do
  let type ← lookup rules binding.type.type.name
  if (← lookupHere rules binding.id.name).isSome then throw (.duplicate binding.id)
  insert rules (.var binding.id.name type)

mutual

/-- A variable is entered; a procedure is entered and then analysed in a scope of its own. -/
def decl (rules : ScopeRules) : Decl → ScopeWork Unit
  | .var binding => localVariable rules binding
  | .procedure name parameters declarations body => do
    insert rules (.procedure name [])
    enter rules name ((← level) + 1)
    let symbols ← parameters.mapM (parameter rules)
    completeProcedure name symbols
    decls rules declarations
    stmts rules body
    close rules name

/-- Declarations in order. -/
def decls (rules : ScopeRules) : List Decl → ScopeWork Unit
  | [] => pure ()
  | declaration :: rest => do
    decl rules declaration
    decls rules rest

end

/-- The declarations of a block and then its statements. -/
def block (rules : ScopeRules) (b : Block) : ScopeWork Unit := do
  decls rules b.declarations
  stmts rules b.body

/-- A program, in a scope that holds the built-in types. -/
def program (rules : ScopeRules) (p : Program) : ScopeWork Unit := do
  enter rules "global" 1
  Symbol.builtins.forM (insert rules)
  block rules p.block
  close rules "global"

/-- The analysis of any node. -/
def node (rules : ScopeRules) : Node → ScopeWork Unit
  | .expr e => expr rules e
  | .stmt s => stmt rules s
  | .decl d => decl rules d
  | .block b => block rules b
  | .program p => program rules p
  | n => throw (.unhandled n.className)

end Scoped

end LittlePascal
