import LittlePascal.Command.Console
import LittlePascal.Text.Digit

/-! # Arguments of a command

A command takes one value and any number of flags, in any order, and a request for help. A flag may be
shortened as long as no other one begins alike. After the word `--` everything is a value. An argument
that begins with a dash is a value nevertheless if it is a negative number or has a blank in it. -/

namespace LittlePascal

/-- What a command takes. -/
structure Usage where
  program : String
  description : String
  /-- The value and what it is. -/
  value : String × String
  /-- The flags, each with its two dashes, and what they do. -/
  flags : List (String × String)

/-- What was found in the arguments of a command. -/
inductive Arguments where
  | help
  | refused
  | accepted (value : String) (flags : List String)
  deriving DecidableEq, Repr

namespace Usage

/-! ## Single arguments -/

/-- What an argument is by itself. -/
inductive Word where
  | value
  | flag (name : String)
  | help
  /-- A flag with something attached to it, which no flag takes. -/
  | attached
  | ambiguous
  | unknown
  deriving DecidableEq, Repr

/-- Whether characters are decimal digits of any script, at least one. -/
def isNumeral (cs : List Char) : Bool := (Text.decimalValue? cs).isSome

/-- Characters without one line feed at the end. -/
def withoutFinalLineFeed (cs : List Char) : List Char :=
  if cs.getLast? = some '\n' then cs.dropLast else cs

/-- Whether an argument is a negative number, with or without a point. -/
def isNegativeNumber (arg : String) : Bool :=
  match arg.toList with
  | '-' :: rest =>
    let body := withoutFinalLineFeed rest
    let fraction := body.dropWhile fun c => (Text.digitValue? c).isSome
    isNumeral body || (fraction.head? = some '.' && isNumeral fraction.tail)
  | _ => false

/-- The long options. -/
def longOptions (u : Usage) : List String := "--help" :: u.flags.map Prod.fst

/-- An option that stands alone. -/
def option (name : String) : Word := if name = "--help" then .help else .flag name

/-- The short request for help with more letters attached: only itself may be repeated. -/
def attachedToHelp (rest : List Char) : Word :=
  if !rest.isEmpty && rest.all (· = 'h') then .help else .attached

/-- An argument that no option explains. -/
def unexplained (arg : String) : Word :=
  if isNegativeNumber arg || arg.toList.contains ' ' then .value else .unknown

/-- An argument that begins with two dashes. Up to an equals sign it may be the beginning of an
option. -/
def longWord (u : Usage) (arg : String) : Word :=
  let name := arg.toList.takeWhile (· ≠ '=')
  let hasText := name.length < arg.length
  if String.ofList name ∈ u.longOptions then
    if hasText then .attached else option arg
  else
    match u.longOptions.filter fun o => name.isPrefixOf o.toList with
    | [] => unexplained arg
    | [o] => if hasText then .attached else option o
    | _ => .ambiguous

/-- What an argument is by itself. -/
def word (u : Usage) (arg : String) : Word :=
  match arg.toList with
  | ['-', 'h'] => .help
  | '-' :: 'h' :: '=' :: rest => attachedToHelp rest
  | '-' :: 'h' :: rest => attachedToHelp rest
  | '-' :: '-' :: _ => u.longWord arg
  | '-' :: _ :: _ => unexplained arg
  | _ => .value

/-! ## All arguments -/

/-- What has been found so far. -/
structure Found where
  value? : Option String
  flags : List String
  /-- Whether something was found that has no use. -/
  surplus : Bool
  /-- Whether the last argument was taken as the value. -/
  justTaken : Bool

namespace Found

/-- Nothing yet. -/
def nothing : Found := ⟨none, [], false, false⟩

/-- One more value. -/
def take (f : Found) (arg : String) : Found :=
  match f.value? with
  | none => { f with value? := some arg, justTaken := true }
  | some _ => { f with surplus := true, justTaken := false }

/-- What was found, when there are no more arguments. -/
def outcome (f : Found) : Arguments :=
  match f.value? with
  | some value => if f.surplus then .refused else .accepted value f.flags
  | none => .refused

/-- What was found, with the arguments after the word `--`. That word belongs to the value next to
it. -/
def closed (f : Found) (rest : List String) : Arguments :=
  let f := { f with surplus := f.surplus || (f.value?.isSome && !f.justTaken) }
  (rest.foldl take f).outcome

end Found

/-- The arguments one after the other. -/
def collect (u : Usage) : List String → Found → Arguments
  | [], found => found.outcome
  | arg :: rest, found =>
    if arg = "--" then found.closed rest
    else
      match u.word arg with
      | .value => u.collect rest (found.take arg)
      | .flag name =>
        u.collect rest { found with flags := found.flags ++ [name], justTaken := false }
      | .help => .help
      | .attached => .refused
      | _ => u.collect rest { found with surplus := true, justTaken := false }

/-- What the arguments of a command say. An ambiguous option is refused before anything else is
looked at. -/
def read (u : Usage) (args : List String) : Arguments :=
  if (args.takeWhile (· ≠ "--")).any fun arg => u.word arg = .ambiguous then .refused
  else u.collect args .nothing

/-! ## Help -/

/-- An entry of the help text, the explanation from the given column on. -/
def helpEntry (column : Nat) (entry : String × String) : String :=
  let start := "  " ++ entry.1
  start ++ String.ofList (List.replicate (column - start.length) ' ') ++ entry.2 ++ "\n"

/-- The help text. -/
def help (u : Usage) : String :=
  let options := ("-h, --help", "show this help message and exit") :: u.flags
  let widths := (u.value :: options).map fun entry => entry.1.length + 4
  let column := widths.foldl (fun widest width => if widest < width then width else widest) 0
  "usage: " ++ u.program ++ " [-h]" ++ String.join (u.flags.map fun f => " [" ++ f.1 ++ "]") ++
    " " ++ u.value.1 ++ "\n\n" ++ u.description ++ "\n\npositional arguments:\n" ++
    helpEntry column u.value ++ "\noptions:\n" ++ String.join (options.map (helpEntry column))

/-- What a command does once its arguments are accepted; otherwise it shows its help or is refused
with the exit code two. -/
def plan (u : Usage) (args : List String) (rest : String → List String → Plan) : Plan :=
  match u.read args with
  | .help => .now (Console.write u.help)
  | .refused => .now (throw (.exit 2) : Console Unit)
  | .accepted value flags => rest value flags

end Usage

end LittlePascal
