import LittlePascal.Fault
import LittlePascal.Symbol
import LittlePascal.Tree

/-! # Every variable is declared

The first analysis enters the variables of a program into one table and looks up every variable that
its statements use, the target of an assignment before its right-hand side. Whatever is inside a
procedure is left alone. The table and the lines written are kept when the analysis fails. It is the
`SymbolTableBuilder` of parts 11 and 12 of the series. -/

namespace LittlePascal

/-- A table of symbols and the lines written about it. -/
structure TableState where
  symbols : SymbolMap
  log : Array String

/-- Work on a table. -/
abbrev TableWork := EStateM Fault TableState

namespace TableWork

/-- A line is written. -/
def write (line : String) : TableWork Unit :=
  modify fun s => { s with log := s.log.push line }

/-- A symbol is entered. -/
def enter (symbol : Symbol) : TableWork Unit :=
  modify fun s => { s with symbols := s.symbols.insertSymbol symbol }

/-- A name is looked up. -/
def lookup (name : String) : TableWork (Option Symbol) := do
  write ("Lookup: " ++ name)
  return (← get).symbols.get? name

end TableWork

namespace Declared

open TableWork

/-- A symbol is entered and written down. -/
def define (symbol : Symbol) : TableWork Unit := do
  write ("Define: " ++ symbol.text .brief)
  enter symbol

/-- The table with the built-in types. -/
def initial : TableWork Unit := Symbol.builtins.forM define

/-- A variable must be in the table. -/
def use (name : String) : TableWork Unit := do
  if (← lookup name).isNone then throw (.unbound name)

/-- The variables of an expression are used. -/
def expr : Expr → TableWork Unit
  | .literal _ _ => pure ()
  | .var id => use id.name
  | .signed _ _ operand => expr operand
  | .binary _ _ left right => do
    expr left
    expr right
  | .hole => throw (.unhandled Expr.hole.className)

mutual

/-- The variables of a statement are used. -/
def stmt : Stmt → TableWork Unit
  | .compound children => stmts children
  | .assign target _ value => do
    use target.name
    expr value
  | .call procedure arguments => throw (.unhandled (Stmt.call procedure arguments).className)
  | .empty => pure ()

/-- The variables of statements are used, in order. -/
def stmts : List Stmt → TableWork Unit
  | [] => pure ()
  | statement :: rest => do
    stmt statement
    stmts rest

end

/-- A variable is defined with its type; a procedure is left alone. -/
def decl : Decl → TableWork Unit
  | .var binding => do
    let type ← lookup binding.type.type.name
    define (.var binding.id.name type)
  | .procedure _ _ _ _ => pure ()

/-- The declarations of a block and then its statements. -/
def block (b : Block) : TableWork Unit := do
  b.declarations.forM decl
  stmts b.body

/-- The analysis of any node. -/
def node : Node → TableWork Unit
  | .expr e => expr e
  | .stmt s => stmt s
  | .decl d => decl d
  | .block b => block b
  | .program p => block p.block
  | n => throw (.unhandled n.className)

end Declared

end LittlePascal
