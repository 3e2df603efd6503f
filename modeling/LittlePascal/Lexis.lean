import LittlePascal.Cursor
import LittlePascal.Fault
import LittlePascal.Text.Digit

/-! # Reading lexemes

A `Lexis` is what an edition of the language decides about its lexemes. `Lexis.token` reads the next
token from a cursor; the cursor it leaves behind is kept also when the reading fails, so that reading
can go on from there. It is the `get_next_token` of the series, with `number` and `_id` for numbers and
words.

Main definitions:
* `layoutLength`: how many characters of blanks and closed comments stand first;
* `Lexis.number`, `Lexis.word`, `Lexis.token`: the readers. -/

namespace LittlePascal

/-- Reading from a cursor. A failed reading leaves its cursor behind as well. -/
abbrev Scan := EStateM Fault Cursor

/-- The forms of number literals. -/
inductive NumberForm where
  /-- A single digit. -/
  | digit
  /-- A run of digits. -/
  | whole
  /-- A run of digits, or one with a point and more digits. -/
  | decimal
  deriving DecidableEq, Repr

/-- What an edition decides about its lexemes. -/
structure Lexis where
  /-- Whether a text may be empty. -/
  emptyText : Bool
  /-- Whether blanks may stand between lexemes. -/
  blanks : Bool
  /-- Whether comments in braces may. -/
  comments : Bool
  /-- The form of number literals. -/
  numbers : NumberForm
  /-- Whether there are words, that is names and reserved words. -/
  words : Bool
  /-- The reserved words with their lexemes, in order. -/
  reserved : List (String × Lexeme)
  /-- Whether a reserved word may be written in small letters. -/
  foldsCase : Bool
  /-- Whether a colon followed by an equals sign is the assignment mark. -/
  assign : Bool
  /-- The lexemes of one character. -/
  mark : Char → Option Lexeme
  /-- How many digits a whole number may have. -/
  limit : DigitLimit

/-! ## Blanks and comments -/

/-- The number of characters of blanks and closed comments at the front of a text; `none` if a
comment among them is never closed. The flag `inside` says that a comment is open. -/
def layoutLength (comments : Bool) : (inside : Bool) → List Char → Option Nat
  | false, [] => some 0
  | true, [] => none
  | false, c :: rest =>
    if Text.isBlank c then (layoutLength comments false rest).map (· + 1)
    else if comments && c == '\x7b' then (layoutLength comments true rest).map (· + 1)
    else some 0
  | true, c :: rest => (layoutLength comments (c != '\x7d') rest).map (· + 1)

namespace Scan

/-- One character on. -/
def advance : Scan Unit := modify Cursor.advance

/-- The longest run of characters of a class. -/
def run (p : Char → Bool) : Scan (List Char) := do
  let (chars, behind) := (← get).span p
  set behind
  return chars

/-- Past the blanks that stand here. -/
def skipBlanks : Scan Unit := do
  let _ ← run Text.isBlank

/-- Past the rest of a comment that has been opened. -/
def skipComment : Scan Unit := do
  let (_, behind) := (← get).span (· != '\x7d')
  if behind.rest.isEmpty then throw .unclosedComment
  set behind.advance

/-- The number that a run of digits stands for. Its decimal digits are counted before they are read, and
only up to the first digit without a decimal value. -/
def wholeOf (limit : DigitLimit) (digits : List Char) : Scan Nat :=
  if limit.allows (Text.leadingDecimals digits) then
    match Text.decimalValue? digits with
    | some n => return n
    | none => throw (.malformedWhole (.undecimal (String.ofList digits)))
  else throw (.malformedWhole (.tooLong limit.most (Text.leadingDecimals digits)))

/-- A run of digits as a number. -/
def whole (limit : DigitLimit := .off) : Scan Nat := do
  wholeOf limit (← run Text.isDigit)

/-- The number that digits before and after a point stand for. One of the two runs may be empty. -/
def realOf (before after : List Char) : Scan Float :=
  match Text.decimalValue? (before ++ after) with
  | some n => return Number.nearest n (Number.tenTo after.length)
  | none => throw (.malformedReal (String.ofList (before ++ '.' :: after)))

/-- A run of digits, with a point and more digits if a point follows. -/
def decimal (limit : DigitLimit) : Scan Literal := do
  let before ← run Text.isDigit
  if (← get).char? = some '.' then
    advance
    let after ← run Text.isDigit
    return .real (← realOf before after)
  else
    return .whole (← wholeOf limit before)

/-- A single digit. The cursor moves on only if the digit has a value. -/
def digit (limit : DigitLimit) : Scan Nat := do
  let n ← wholeOf limit ((← get).char?.toList)
  advance
  return n

end Scan

namespace Lexis

/-- The cursor before the first character of a text. -/
def openText (lx : Lexis) (text : String) : Except Fault Cursor :=
  if text.isEmpty && !lx.emptyText then .error .emptyText else .ok (.start text.toList)

/-- Past the blanks and comments that stand here. -/
def skipLayout (lx : Lexis) : Scan Unit := do
  if lx.blanks then
    let cursor ← get
    match layoutLength lx.comments false cursor.rest with
    | some n => set (cursor.advanceBy n)
    | none => throw .unclosedComment

/-- A number literal, without its place. -/
def literal (lx : Lexis) : Scan Literal :=
  match lx.numbers with
  | .digit => return .whole (← Scan.digit lx.limit)
  | .whole => return .whole (← Scan.whole lx.limit)
  | .decimal => Scan.decimal lx.limit

/-- A number literal. -/
def number (lx : Lexis) : Scan Token := do
  let place := (← get).place
  return .lexeme (.literal (← lx.literal)) place

/-- The lexeme of a word: the reserved word it spells, or else a name. -/
def wordLexeme (lx : Lexis) (word : List Char) : Lexeme :=
  let key := String.ofList (if lx.foldsCase then Text.capitals word else word)
  (lx.reserved.lookup key).getD (.name (String.ofList word))

/-- A word. -/
def word (lx : Lexis) : Scan Token := do
  let place := (← get).place
  return .lexeme (lx.wordLexeme (← Scan.run Text.isNameChar)) place

/-- The fault of a character that begins no lexeme. -/
def reject {α : Type} : Scan α := do
  let cursor ← get
  throw (.character cursor.char? cursor.place)

/-- The next token. -/
def token (lx : Lexis) : Scan Token := do
  lx.skipLayout
  let cursor ← get
  match cursor.rest with
  | [] => return .endOfText
  | c :: rest =>
    if lx.words && Text.isLetter c then lx.word
    else if Text.isDigit c then lx.number
    else if lx.assign && c == ':' && rest.head? == some '=' then
      set (cursor.advanceBy 2)
      return .lexeme (.punctuation .assign) cursor.place
    else
      match lx.mark c with
      | some l =>
        set cursor.advance
        return .lexeme l cursor.place
      | none => reject

end Lexis

end LittlePascal
