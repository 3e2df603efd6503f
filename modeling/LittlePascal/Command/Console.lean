import LittlePascal.Fault

/-! # The console

A command writes to a console and may stop before its last step: with an exit code of its own, or by
a fault that nothing catches. What was written before stays written. -/

namespace LittlePascal

/-- The faults of a command. -/
inductive CommandFault where
  /-- A file was to be named and was not. -/
  | noArgument
  /-- There is no such file. -/
  | noFile (path : String)
  /-- A fault of the program that the command worked on. -/
  | program (fault : Fault)
  deriving DecidableEq, Repr

/-- The message of a fault. -/
def CommandFault.message (wording : Wording) : CommandFault → String
  | .noArgument => "list index out of range"
  | .noFile path => "[Errno 2] No such file or directory: " ++ Text.quoted path
  | .program fault => fault.message wording

/-- Why a command stops early. -/
inductive Stop where
  /-- It has said all there is to say and ends with this code. -/
  | exit (code : Nat)
  /-- Nothing catches this fault. -/
  | fault (fault : CommandFault)
  deriving DecidableEq, Repr

/-- Work that writes a text and may stop early. -/
abbrev Console := EStateM Stop String

namespace Console

/-- Text is written. -/
def write (text : String) : Console Unit := modify (· ++ text)

/-- A line is written. -/
def line (text : String) : Console Unit := do
  write text
  write "\n"

/-- Lines are written. -/
def lines (texts : Array String) : Console Unit := texts.forM line

/-- The result of a calculation, or a fault that nothing catches. -/
def ofExcept {α : Type} : Except Fault α → Console α
  | .ok a => pure a
  | .error fault => throw (.fault (.program fault))

end Console

/-- What a command has done. -/
structure Report where
  output : String
  /-- Why it stopped early, if it did. -/
  stop? : Option Stop
  deriving DecidableEq, Repr

namespace Report

/-- The report of some work, begun on an empty console. -/
def ofConsole {α : Type} (work : Console α) : Report :=
  match work "" with
  | .ok _ output => ⟨output, none⟩
  | .error stop output => ⟨output, some stop⟩

/-- The exit code of a command. -/
def exitCode (r : Report) : Nat :=
  match r.stop? with
  | none => 0
  | some (.exit code) => code
  | some (.fault _) => 1

/-- The fault that ended a command. -/
def fault? (r : Report) : Option CommandFault :=
  match r.stop? with
  | some (.fault fault) => some fault
  | _ => none

end Report

/-! ## Files

A file may end its lines with a line feed, a carriage return, or both. A text that was read from a
file has line feeds only. -/

namespace Text

/-- Characters with every end of a line as one line feed. -/
def lineFeedsOnly : List Char → List Char
  | [] => []
  | '\r' :: '\n' :: rest => '\n' :: lineFeedsOnly rest
  | c :: rest => (if c = '\r' then '\n' else c) :: lineFeedsOnly rest

/-- A text with every end of a line as one line feed. -/
def withLineFeeds (text : String) : String := String.ofList (lineFeedsOnly text.toList)

end Text

/-- What a command does with its arguments: it is done, or it goes on with the contents of a file,
which are absent if there is no such file. -/
inductive Plan where
  | done (report : Report)
  | withFile (path : String) (rest : Option String → Report)

namespace Plan

/-- Work that needs no file. -/
def now {α : Type} (work : Console α) : Plan := .done (.ofConsole work)

/-- Work on the text of a file. -/
def onText {α : Type} (path : String) (work : String → Console α) : Plan :=
  .withFile path fun text? => .ofConsole do
    match text? with
    | some text => let _ ← work text
    | none => throw (.fault (.noFile path))

end Plan

end LittlePascal
