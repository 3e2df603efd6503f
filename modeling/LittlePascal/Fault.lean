import LittlePascal.Token

/-! # Faults

Everything that can go wrong between a text and its result is a `Fault`: a cause with what the cause
is about. How a cause is worded depends on the edition of the language and is decided in one place,
`Fault.message`. -/

namespace LittlePascal

/-- What is asked of a scope. -/
inductive ScopeUse where
  | lookup
  | insert
  deriving DecidableEq, Repr

/-- Why digits and a whole number cannot be turned into each other. -/
inductive WholeFault where
  /-- A digit has no decimal value. -/
  | undecimal (digits : String)
  /-- There are more digits to read than the limit allows. -/
  | tooLong (most count : Nat)
  /-- There are more digits to write than the limit allows. -/
  | untold (most : Nat)
  deriving DecidableEq, Repr

/-- The causes of failure. -/
inductive Fault where
  /-- There is no text to read. -/
  | emptyText
  /-- No lexeme begins with the character that stands here. -/
  | character (c : Option Char) (place : Place)
  /-- Digits are not read as a whole number, or a whole number is not written in digits. -/
  | malformedWhole (fault : WholeFault)
  /-- Digits with a point are not a real number. -/
  | malformedReal (digits : String)
  /-- A comment is opened and never closed. -/
  | unclosedComment
  /-- A token was asked for before the first one was read. -/
  | noToken
  /-- The grammar does not allow this token here. -/
  | unexpected (t : Token)
  /-- A bound on the number of steps was reached. -/
  | exhausted
  /-- Arithmetic failed. -/
  | arithmetic (fault : ValueFault)
  /-- No rule applies to a node of this class. -/
  | unhandled (node : String)
  /-- A variable has no value, or no declaration. -/
  | unbound (name : String)
  /-- A name is not visible where it is used. -/
  | undeclared (id : Ident)
  /-- A name is declared twice in one scope. -/
  | duplicate (id : Ident)
  /-- There is no scope to use. -/
  | noScope (use : ScopeUse)
  deriving DecidableEq, Repr

/-- The ways faults are worded. -/
inductive Wording where
  /-- One sentence for wrong characters and wrong tokens alike. -/
  | blunt
  /-- One sentence for each of the two, and one for each fault of declarations. -/
  | plain
  /-- Sentences that tell the token and its place. -/
  | located
  deriving DecidableEq, Repr

/-- The way tokens are shown inside a message. -/
def Wording.naming : Wording → Naming
  | .blunt => .short
  | .plain => .long
  | .located => .qualified

/-- The word for a use of a scope. -/
def ScopeUse.word : ScopeUse → String
  | .lookup => "lookup"
  | .insert => "insert"

/-- The room that a message has for digits without a decimal value. -/
def WholeFault.room : Nat := 200

/-- The message about digits and a whole number. -/
def WholeFault.message : WholeFault → String
  | .undecimal digits => "invalid literal for int() with base 10: " ++ Text.quotedWithin room digits
  | .tooLong most count =>
    "Exceeds the limit (" ++ most.repr ++ " digits) for integer string conversion: value has " ++ count.repr ++
      " digits; use sys.set_int_max_str_digits() to increase the limit"
  | .untold most =>
    "Exceeds the limit (" ++ most.repr ++
      " digits) for integer string conversion; use sys.set_int_max_str_digits() to increase the limit"

namespace Fault

/-- The message about a character that begins no lexeme. -/
def characterMessage (wording : Wording) (c : Option Char) (place : Place) : String :=
  match wording with
  | .located =>
    "LexerError: Lexer error on '" ++ (match c with | some c => String.singleton c | none => "None") ++
      "' line: " ++ place.line.repr ++ " column: " ++ place.column.repr
  | _ => "Error parsing input"

/-- The message about a token that the grammar does not allow. -/
def unexpectedMessage (wording : Wording) (t : Token) : String :=
  match wording with
  | .blunt => "Error parsing input"
  | .plain => "Invalid syntax"
  | .located => "ParserError: Unexpected token -> " ++ t.text .qualified

/-- The message about a name that is not visible. -/
def undeclaredMessage (wording : Wording) (id : Ident) : String :=
  match wording with
  | .located => "SemanticError: Identifier not found -> " ++ id.token.text .qualified
  | _ => "Error: Symbol(identifier) not found '" ++ id.name ++ "'"

/-- The message about a name declared twice. -/
def duplicateMessage (wording : Wording) (id : Ident) : String :=
  match wording with
  | .located => "SemanticError: Duplicate id found -> " ++ id.token.text .qualified
  | _ => "Error: Duplicate identifier '" ++ id.name ++ "' found"

/-- The message of a fault. -/
def message (wording : Wording) : Fault → String
  | .emptyText => "string index out of range"
  | .character c place => characterMessage wording c place
  | .malformedWhole fault => fault.message
  | .malformedReal digits => "could not convert string to float: " ++ Text.quoted digits
  | .unclosedComment => "unclosed comment"
  | .noToken => "'NoneType' object has no attribute 'type'"
  | .unexpected t => unexpectedMessage wording t
  | .exhausted => "too many steps"
  | .arithmetic fault => fault.message
  | .unhandled node => "No visit_" ++ node ++ " method"
  | .unbound name => Text.quoted name
  | .undeclared id => undeclaredMessage wording id
  | .duplicate id => duplicateMessage wording id
  | .noScope use => "'NoneType' object has no attribute '" ++ use.word ++ "'"

end Fault

/-- Arithmetic with its failures as faults. -/
def liftArithmetic {α : Type} : Except ValueFault α → Except Fault α
  | .ok a => .ok a
  | .error fault => .error (.arithmetic fault)

end LittlePascal
