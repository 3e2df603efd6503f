import LittlePascal.Text.Quoted
import LittlePascal.Value

/-! # Tokens

A token is a lexeme with the place of its first character, or the end of the text. The kind of a
token forgets the value of literals and names; the grammars speak of kinds only. `Kind.all` lists
the kinds in their fixed order, which is also the order of the reserved words. -/

namespace LittlePascal

/-- A line and a column of the text, both counted from one. -/
structure Place where
  line : Nat
  column : Nat
  deriving DecidableEq, Repr

/-- The operators. -/
inductive Operator where
  | plus
  | minus
  | times
  | slash
  /-- The operator that is written as a word. -/
  | div
  deriving DecidableEq, Repr

/-- The reserved words that are not operators. -/
inductive Reserved where
  | program
  | integerType
  | realType
  | var
  | procedure
  | beginBlock
  | endBlock
  deriving DecidableEq, Repr

/-- The punctuation marks. -/
inductive Punctuation where
  | leftParen
  | rightParen
  | semicolon
  | dot
  | colon
  | comma
  | assign
  deriving DecidableEq, Repr

/-- The literals. -/
inductive Literal where
  | whole (n : Nat)
  | real (x : Float)
  deriving DecidableEq, Repr

/-- The lexemes. -/
inductive Lexeme where
  | literal (l : Literal)
  | name (s : String)
  | operator (o : Operator)
  | reserved (r : Reserved)
  | punctuation (p : Punctuation)
  deriving DecidableEq, Repr

/-- A lexeme at its place, or the end of the text. -/
inductive Token where
  | lexeme (l : Lexeme) (place : Place)
  | endOfText
  deriving DecidableEq, Repr

/-- The kinds of tokens. -/
inductive Kind where
  | whole
  | real
  | name
  | operator (o : Operator)
  | reserved (r : Reserved)
  | punctuation (p : Punctuation)
  | endOfText
  deriving DecidableEq, Repr

/-- A name and the place where it stands. -/
structure Ident where
  name : String
  place : Place
  deriving DecidableEq, Repr

/-- The value of a literal. -/
def Literal.value : Literal → Value
  | .whole n => .whole n
  | .real x => .real x

/-- The spelling of an operator. -/
def Operator.spelling : Operator → String
  | .plus => "+"
  | .minus => "-"
  | .times => "*"
  | .slash => "/"
  | .div => "DIV"

/-- The spelling of a reserved word. -/
def Reserved.spelling : Reserved → String
  | .program => "PROGRAM"
  | .integerType => "INTEGER"
  | .realType => "REAL"
  | .var => "VAR"
  | .procedure => "PROCEDURE"
  | .beginBlock => "BEGIN"
  | .endBlock => "END"

/-- The spelling of a punctuation mark. -/
def Punctuation.spelling : Punctuation → String
  | .leftParen => "("
  | .rightParen => ")"
  | .semicolon => ";"
  | .dot => "."
  | .colon => ":"
  | .comma => ","
  | .assign => ":="

/-- The kind of a lexeme. -/
def Lexeme.kind : Lexeme → Kind
  | .literal (.whole _) => .whole
  | .literal (.real _) => .real
  | .name _ => .name
  | .operator o => .operator o
  | .reserved r => .reserved r
  | .punctuation p => .punctuation p

/-- The kind of a token. -/
def Token.kind : Token → Kind
  | .lexeme l _ => l.kind
  | .endOfText => .endOfText

/-- The token of a name. -/
def Ident.token (id : Ident) : Token := .lexeme (.name id.name) id.place

namespace Kind

/-- All kinds: marks of one character, the block of reserved words, and the rest. -/
def all : List Kind :=
  [.operator .plus, .operator .minus, .operator .times, .operator .slash,
   .punctuation .leftParen, .punctuation .rightParen, .punctuation .semicolon, .punctuation .dot,
   .punctuation .colon, .punctuation .comma,
   .reserved .program, .reserved .integerType, .reserved .realType, .operator .div, .reserved .var,
   .reserved .procedure, .reserved .beginBlock, .reserved .endBlock,
   .name, .whole, .real, .punctuation .assign, .endOfText]

/-- Every kind is listed. -/
theorem mem_all (k : Kind) : k ∈ all := by
  cases k with
  | operator o => cases o <;> decide
  | reserved r => cases r <;> decide
  | punctuation p => cases p <;> decide
  | _ => decide

/-- What stands for a kind in the list of all kinds: the spelling of its lexeme if it has only one,
and a word of its own otherwise. -/
def spelling : Kind → String
  | .whole => "INTEGER_CONST"
  | .real => "REAL_CONST"
  | .name => "ID"
  | .operator o => o.spelling
  | .reserved r => r.spelling
  | .punctuation p => p.spelling
  | .endOfText => "EOF"

/-- The lexeme of a kind that has only one. -/
def lexeme? : Kind → Option Lexeme
  | .operator o => some (.operator o)
  | .reserved r => some (.reserved r)
  | .punctuation p => some (.punctuation p)
  | _ => none

/-- The kind with the given spelling. -/
def ofSpelling? (word : String) : Option Kind := all.find? fun k => k.spelling = word

end Kind

/-! ## Names of kinds

Three ways to show tokens. The short names know one number type, call the division sign plainly and
show a parenthesis as itself; the long names tell the two number types and the two divisions apart;
the qualified ones add the place. -/

/-- The ways to show tokens. -/
inductive Naming where
  | short
  | long
  | qualified
  deriving DecidableEq, Repr

namespace Kind

/-- The long name of a kind. -/
def longName : Kind → String
  | .whole => "INTEGER_CONST"
  | .real => "REAL_CONST"
  | .name => "ID"
  | .operator .plus => "PLUS"
  | .operator .minus => "MINUS"
  | .operator .times => "MUL"
  | .operator .slash => "FLOAT_DIV"
  | .operator .div => "INTEGER_DIV"
  | .reserved r => r.spelling
  | .punctuation .leftParen => "LPAREN"
  | .punctuation .rightParen => "RPAREN"
  | .punctuation .semicolon => "SEMI"
  | .punctuation .dot => "DOT"
  | .punctuation .colon => "COLON"
  | .punctuation .comma => "COMMA"
  | .punctuation .assign => "ASSIGN"
  | .endOfText => "EOF"

/-- The short name of a kind. -/
def shortName : Kind → String
  | .whole => "INTEGER"
  | .operator .slash => "DIV"
  | .punctuation .leftParen => "("
  | .punctuation .rightParen => ")"
  | k => k.longName

/-- The name of a kind. -/
def nameIn : Naming → Kind → String
  | .short, k => k.shortName
  | .long, k => k.longName
  | .qualified, k => k.longName

end Kind

/-- The value of a lexeme as text. -/
def Lexeme.valueText : Lexeme → String
  | .literal l => l.value.text
  | .name s => Text.quoted s
  | .operator o => Text.quoted o.spelling
  | .reserved r => Text.quoted r.spelling
  | .punctuation p => Text.quoted p.spelling

/-- A place as text. -/
def Place.text (p : Place) : String := p.line.repr ++ ":" ++ p.column.repr

/-- The value of a token as text. -/
def Token.valueText : Token → String
  | .lexeme l _ => l.valueText
  | .endOfText => "None"

/-- The place of a token as text. -/
def Token.placeText : Token → String
  | .lexeme _ place => place.text
  | .endOfText => "None:None"

/-- A token as text. -/
def Token.text (naming : Naming) (t : Token) : String :=
  match naming with
  | .qualified =>
    "Token(TokenType." ++ t.kind.longName ++ ", " ++ t.valueText ++ ", position=" ++ t.placeText ++ ")"
  | _ => "Token(" ++ t.kind.nameIn naming ++ ", " ++ t.valueText ++ ")"

end LittlePascal
