import LittlePascal.Command.Converse
import LittlePascal.Command.Demonstrate
import LittlePascal.Command.Illustrate

/-! # The command line

The first argument names a command and the second one an edition by its number; the rest goes to the
command. Everything that is said is decided by the commands; this module reads files and lines and
prints. -/

namespace LittlePascal.CommandLine

/-- What is said when no command is named. -/
def usageText : String :=
  "usage: littlepascal run EDITION [--scope] FILE\n" ++
  "       littlepascal draw EDITION FILE\n" ++
  "       littlepascal calculate EDITION\n" ++
  "       littlepascal demonstrate undeclared|duplicate\n"

/-- A report is printed; this is its exit code. -/
def print (wording : Wording) (report : Report) : IO UInt32 := do
  IO.print report.output
  if let some fault := report.fault? then
    IO.eprintln (fault.message wording)
  return report.exitCode.toUInt32

/-- The contents of a file; absent if it cannot be read. -/
def contents? (path : String) : IO (Option String) := do
  try
    return some (← IO.FS.readFile path)
  catch _ =>
    return none

/-- A plan is carried out. -/
def carryOut (wording : Wording) : Plan → IO UInt32
  | .done report => print wording report
  | .withFile path rest => do print wording (rest (← contents? path))

/-- Lines are read and answered until there are no more or one has a fault. -/
partial def converse (e : Edition) : IO UInt32 := do
  IO.print Edition.prompt
  (← IO.getStdout).flush
  let line ← (← IO.getStdin).getLine
  if line.isEmpty then
    return 0
  let text := if line.endsWith "\n" then (line.dropEnd 1).toString else line
  let report := Report.ofConsole (e.answer text)
  let code ← print e.wording report
  if report.stop?.isSome then
    return code
  converse e

/-- A command for an edition. -/
def dispatch (command : String) (e : Edition) (args : List String) : IO UInt32 :=
  match command with
  | "run" => carryOut e.wording (e.executePlan "littlepascal" args)
  | "draw" => carryOut e.wording (e.illustratePlan "littlepascal" args)
  | "calculate" => converse e
  | _ => do
    IO.eprint usageText
    return 2

end LittlePascal.CommandLine

open LittlePascal LittlePascal.CommandLine in
/-- The program. -/
def main (args : List String) : IO UInt32 :=
  match args with
  | ["demonstrate", "undeclared"] =>
    print Edition.checks.wording (.ofConsole Demonstration.undeclared.run)
  | ["demonstrate", "duplicate"] =>
    print Edition.checks.wording (.ofConsole Demonstration.duplicate.run)
  | command :: edition :: rest =>
    match edition.toNat?.bind Edition.ofNumber? with
    | some e => dispatch command e rest
    | none => do
      IO.eprint usageText
      return 2
  | _ => do
    IO.eprint usageText
    return 2
