import LittlePascal.Command.Console
import LittlePascal.Expression

/-! # The command that converses

The editions without statements read expressions line by line and answer each with its value. An empty
line is passed over, and a fault ends the conversation. -/

namespace LittlePascal.Edition

/-- What stands before a line that is to be read. -/
def prompt : String := "calc> "

/-- The answer to a line. -/
def answer (e : Edition) (text : String) : Console Unit := do
  if text.isEmpty then return
  let evaluation ← Console.ofExcept (e.evaluate text)
  Console.lines evaluation.trace
  Console.line (← Console.ofExcept evaluation.result).text

/-- The conversation over the given lines. The prompt stands before each of them and where the next
one would be. -/
def converse (e : Edition) (lines : List String) : Console Unit := do
  lines.forM fun text => do
    Console.write prompt
    e.answer text
  Console.write prompt

end LittlePascal.Edition
