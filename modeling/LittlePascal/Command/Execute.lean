import LittlePascal.Command.Arguments
import LittlePascal.Session

/-! # The command that runs a program

The editions with statements run the program in a file. They differ in what they show: the memory, the
table of names as well, or nothing unless something is wrong; and in whether a fault of the analysis
ends the command, is reported in a line, or ends it after a report. -/

namespace LittlePascal

/-! ## The order of names

Names are sorted by the code points of their characters, and a name comes before its extensions. -/

namespace Text

/-- Whether characters come before other ones or are the same. -/
def charsBefore : List Char → List Char → Bool
  | [], _ => true
  | _ :: _, [] => false
  | a :: as, b :: bs => if a = b then charsBefore as bs else decide (a.toNat < b.toNat)

/-- Whether a name comes before another one or is the same. -/
def before (a b : String) : Bool := charsBefore a.toList b.toList

end Text

/-! ## Memories as text -/

namespace Memory

/-- One variable with its value. -/
def itemText (item : String × Value) : String := item.1 ++ " = " ++ item.2.text

/-- The variables with their values, sorted by name. -/
def sortedItems (m : Memory) : List (String × Value) :=
  m.entries.mergeSort fun a b => Text.before a.1 b.1

/-- A memory in one line, in order of first assignment. -/
def briefText (m : Memory) : String :=
  "\x7b" ++ ", ".intercalate (m.entries.map fun (name, value) =>
    Text.quoted name ++ ": " ++ value.text) ++ "\x7d"

end Memory

namespace Console

/-- The variables with their values, one in a line, sorted by name. -/
def items (m : Memory) : Console Unit := m.sortedItems.forM fun item => line (Memory.itemText item)

/-- The memory at the end of a run, under a heading. -/
def finalMemory (m : Memory) : Console Unit := do
  line ""
  line "Run-time GLOBAL_MEMORY contents:"
  items m

end Console

/-! ## Reading, analysing and running -/

namespace Fault

/-- Whether a fault is about what the text says rather than about what it computes. The editions that
tell places report such a fault and end. -/
def isReported : Fault → Bool
  | .character _ _ => true
  | .unexpected _ => true
  | .undeclared _ => true
  | .duplicate _ => true
  | _ => false

end Fault

namespace Edition

/-- The message of a fault in this edition. -/
def message (e : Edition) (fault : Fault) : String := fault.message e.wording

/-- The tree of a text. -/
def readTree (e : Edition) (text : String) : Console Node :=
  Console.ofExcept (e.lexis.attempt e.grammar.parse text).result

/-- The memory after a run of a tree. -/
def runTree (e : Edition) (m : Memory) (tree : Node) : Console Memory :=
  match tree.run e.evalRules m with
  | .ok _ memory => pure memory
  | .error fault _ => throw (.fault (.program fault))

/-- What an analysis finds in a tree, and the fault if it has one. Its lines are written. -/
def surveyTree (a : Analysis) (tree : Node) : Console (Except Fault Unit × Survey) := do
  let (result, survey) := match a.node tree a.initial with
    | .ok _ survey => (Except.ok (), survey)
    | .error fault survey => (Except.error fault, survey)
  Console.lines survey.log
  return (result, survey)

/-- A line for the fault of a result, if it is one. -/
def tellFault (e : Edition) : Except Fault Unit → Console Unit
  | .ok _ => pure ()
  | .error fault => Console.line (e.message fault)

/-- A fault that is reported ends the command after its line; any other one is caught by nothing. -/
def orReport {α : Type} (e : Edition) : Except Fault α → Console α
  | .ok a => pure a
  | .error fault =>
    if fault.isReported then do
      Console.line (e.message fault)
      throw (.exit 1)
    else throw (.fault (.program fault))

/-- The tables of an analysis, each in its lines. -/
def showTables (a : Analysis) (survey : Survey) : Console Unit :=
  (a.tableTexts survey).forM Console.line

/-! ## The editions -/

/-- A run that shows its memory in one line. -/
def executeBriefly (e : Edition) (m : Memory) (text : String) : Console Memory := do
  let memory ← e.runTree m (← e.readTree text)
  Console.line memory.briefText
  return memory

/-- A run that shows its variables. -/
def executePlainly (e : Edition) (m : Memory) (text : String) : Console Memory := do
  let memory ← e.runTree m (← e.readTree text)
  Console.items memory
  return memory

/-- A run that shows the table of names first. -/
def executeWithTable (e : Edition) (m : Memory) (text : String) : Console Memory := do
  let tree ← e.readTree text
  let (result, survey) ← surveyTree .declared tree
  Console.ofExcept result
  Console.line ""
  Console.line "Symbol Table contents:"
  showTables .declared survey
  let memory ← e.runTree m tree
  Console.finalMemory memory
  return memory

/-- An analysis whose table is shown; nothing is run. -/
def inspect (e : Edition) (a : Analysis) (text : String) : Console Unit := do
  let (result, survey) ← surveyTree a (← e.readTree text)
  e.tellFault result
  showTables a survey

/-- A run after an analysis whose fault is told and no more. -/
def executeRegardless (e : Edition) (a : Analysis) (m : Memory) (text : String) :
    Console Memory := do
  let tree ← e.readTree text
  let (result, _) ← surveyTree a tree
  e.tellFault result
  let memory ← e.runTree m tree
  Console.finalMemory memory
  return memory

/-- A run that shows nothing unless a fault is reported. -/
def executeQuietly (e : Edition) (a : Analysis) (m : Memory) (text : String) : Console Memory := do
  let _ ← Console.ofExcept (e.lexis.openText text)
  let tree ← e.orReport (e.lexis.attempt e.grammar.parse text).result
  let (result, _) ← surveyTree a tree
  e.orReport result
  e.runTree m tree

/-- The command on the text of a program, from a given memory on. An edition without statements has
nothing to run. -/
def execute (e : Edition) (logs : Bool) (m : Memory) (text : String) : Console Memory :=
  match e, e.analysis? logs with
  | .statements, _ => e.executeBriefly m text
  | .declarations, _ => e.executePlainly m text
  | .symbols, _ | .procedures, _ => e.executeWithTable m text
  | .checks, some a => do e.inspect a text; return m
  | .scopes, some a => e.executeRegardless a m text
  | .places, some a | .calls, some a => e.executeQuietly a m text
  | _, _ => return m

/-! ## Arguments -/

/-- What the command takes in the editions that have flags. -/
def executeUsage (program : String) : Usage where
  program := program
  description := "SPI - Simple Pascal Interpreter"
  value := ("inputfile", "Pascal source file")
  flags := [("--scope", "Print scope information")]

/-- The command on the text of a file. -/
def executeFile (e : Edition) (logs : Bool) (path : String) : Plan :=
  .onText path fun text => e.execute logs .empty (Text.withLineFeeds text)

/-- The command with its arguments. The editions that tell places have a flag that makes the analysis
write its lines; the other ones take their first argument as the file and ignore the rest. -/
def executePlan (e : Edition) (program : String) (args : List String) : Plan :=
  match e with
  | .places | .calls =>
    (executeUsage program).plan args fun path flags => e.executeFile (!flags.isEmpty) path
  | _ =>
    match args with
    | [] => .now (throw (.fault .noArgument) : Console Unit)
    | path :: _ => e.executeFile false path

end Edition

end LittlePascal
