import LittlePascal.Text.Printable

/-! # Quoted text

Names and other texts are shown between quotes: single ones, or double ones if the text holds a
single quote and no double one. A backslash, the quote in use and what cannot be printed are
escaped, so the shown text is one printable line. Where room is short only the beginning of the
quoted text is shown. -/

namespace LittlePascal.Text

/-- The last `width` hexadecimal digits of a number, with leading zeros. -/
def hexDigits (width : Nat) (n : Nat) : List Char :=
  let digits := Nat.toDigits 16 n
  List.replicate (width - digits.length) '0' ++ digits

/-- One character of a quoted text: itself, or its escape. -/
def quoteChar (quote : Char) (c : Char) : List Char :=
  if c = quote ∨ c = '\\' then ['\\', c]
  else if c = '\t' then ['\\', 't']
  else if c = '\n' then ['\\', 'n']
  else if c = '\r' then ['\\', 'r']
  else if isPrintable c then [c]
  else if c.toNat < 0x100 then '\\' :: 'x' :: hexDigits 2 c.toNat
  else if c.toNat < 0x10000 then '\\' :: 'u' :: hexDigits 4 c.toNat
  else '\\' :: 'U' :: hexDigits 8 c.toNat

/-- The quote that encloses a text. -/
def quoteFor (text : List Char) : Char :=
  if '\'' ∈ text ∧ '"' ∉ text then '"' else '\''

/-- A text between quotes. -/
def quoted (text : String) : String :=
  let quote := quoteFor text.toList
  String.ofList (quote :: (text.toList.flatMap (quoteChar quote) ++ [quote]))

/-- The first `room` characters of a text between quotes. The quotes and the escapes take room as
well, so the closing quote is the first thing that is left out. -/
def quotedWithin (room : Nat) (text : String) : String :=
  String.ofList ((quoted text).toList.take room)

end LittlePascal.Text
