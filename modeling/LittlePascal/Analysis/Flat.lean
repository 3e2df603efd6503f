import LittlePascal.Analysis.Declared

/-! # One table, declared once

The second analysis also refuses a name that is declared twice, and looks at the right-hand side of
an assignment before its target. It knows neither literals, signs nor procedures: a program with one
of them fails where it stands. The check for a second declaration can be left out. It is the
`SemanticAnalyzer` of part 13 of the series. -/

namespace LittlePascal.Flat

open TableWork

/-- A symbol is entered and written down. -/
def insert (symbol : Symbol) : TableWork Unit := do
  write ("Insert: " ++ symbol.name)
  enter symbol

/-- The table with the built-in types. -/
def initial : TableWork Unit := Symbol.builtins.forM insert

/-- A variable must be in the table. -/
def use (id : Ident) : TableWork Unit := do
  if (← lookup id.name).isNone then throw (.undeclared id)

/-- The variables of an expression are used. -/
def expr : Expr → TableWork Unit
  | .var id => use id
  | .binary _ _ left right => do
    expr left
    expr right
  | e => throw (.unhandled e.className)

mutual

/-- The variables of a statement are used. -/
def stmt : Stmt → TableWork Unit
  | .compound children => stmts children
  | .assign target _ value => do
    expr value
    use target
  | .call procedure arguments => throw (.unhandled (Stmt.call procedure arguments).className)
  | .empty => pure ()

/-- The variables of statements are used, in order. -/
def stmts : List Stmt → TableWork Unit
  | [] => pure ()
  | statement :: rest => do
    stmt statement
    stmts rest

end

/-- A variable is entered with its type, unless the name is in the table already and that is
checked. -/
def decl (checksTwice : Bool) : Decl → TableWork Unit
  | .var binding => do
    let type ← lookup binding.type.type.name
    if checksTwice then
      if (← lookup binding.id.name).isSome then throw (.duplicate binding.id)
    insert (.var binding.id.name type)
  | .procedure name parameters declarations body =>
    throw (.unhandled (Decl.procedure name parameters declarations body).className)

/-- The declarations of a block and then its statements. -/
def block (checksTwice : Bool) (b : Block) : TableWork Unit := do
  b.declarations.forM (decl checksTwice)
  stmts b.body

/-- The analysis of any node. -/
def node (checksTwice : Bool) : Node → TableWork Unit
  | .expr e => expr e
  | .stmt s => stmt s
  | .decl d => decl checksTwice d
  | .block b => block checksTwice b
  | .program p => block checksTwice p.block
  | n => throw (.unhandled n.className)

end LittlePascal.Flat
