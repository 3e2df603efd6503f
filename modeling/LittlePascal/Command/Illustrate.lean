import LittlePascal.Command.Arguments
import LittlePascal.Diagram
import LittlePascal.Edition
import LittlePascal.Attempt

/-! # The command that draws a tree

The command writes the tree of a program, or of an expression in the first edition with trees, as a
graph in the DOT language. -/

namespace LittlePascal.Edition

/-- A fragment is drawn. The first edition with trees draws everything twice. -/
def draw (e : Edition) (f : Fragment) : Draw Nat :=
  if e = .trees then Drawing.figureTwice f.figure else Drawing.figure f.figure

/-- The graph of a text. Lines written while drawing come first. -/
def illustrate (e : Edition) (text : String) : Console Unit := do
  let tree ← Console.ofExcept (e.lexis.attempt e.grammar.parse text).result
  let (result, drawing) := match e.draw (.node tree) .blank with
    | .ok _ drawing => (Except.ok (), drawing)
    | .error fault drawing => (Except.error fault, drawing)
  Console.lines drawing.trace
  Console.ofExcept result
  Console.line drawing.text

/-- What the command takes: an expression in the editions without statements, a file in the others. -/
def illustrateUsage (e : Edition) (program : String) : Usage where
  program := program
  description := "Generate an AST DOT file."
  value :=
    if e.hasStatements then ("fname", "Pascal source file")
    else ("text", "Arithmetic expression (in quotes): \"1 + 2 * 3\"")
  flags := []

/-- The command with its arguments. -/
def illustratePlan (e : Edition) (program : String) (args : List String) : Plan :=
  (e.illustrateUsage program).plan args fun value _ =>
    if e.hasStatements then .onText value fun text => e.illustrate (Text.withLineFeeds text)
    else .now (e.illustrate value)

end LittlePascal.Edition
