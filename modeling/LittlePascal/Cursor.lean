import LittlePascal.Token

/-! # Cursors

A cursor stands before a character of the text. It holds what is left of the text, how many
characters lie behind it, and its line and column. Moving past the end of the text still counts the
position up; line and column stay where the last character was. These are the fields of the `Lexer` of
the series, and `Cursor.advance` is its `advance`. -/

namespace LittlePascal

/-- A position in a text together with the text from there on. -/
structure Cursor where
  /-- The text that is left. -/
  rest : List Char
  /-- The number of steps taken since the start. -/
  pos : Nat
  line : Nat
  column : Nat
  deriving DecidableEq, Repr

namespace Cursor

/-- The cursor before the first character. -/
def start (text : List Char) : Cursor := ⟨text, 0, 1, 1⟩

/-- The character the cursor stands before. -/
def char? (c : Cursor) : Option Char := c.rest.head?

/-- The character after that one. -/
def peek? (c : Cursor) : Option Char := c.rest.tail.head?

/-- The line and column of the cursor. -/
def place (c : Cursor) : Place := ⟨c.line, c.column⟩

/-- One step on. A newline is left for the next line; the column counts the characters of the line
up to the one the cursor stands before, and does not move when there is none. -/
def advance (c : Cursor) : Cursor :=
  match c.rest with
  | [] => { c with pos := c.pos + 1 }
  | x :: rest =>
    let line := if x = '\n' then c.line + 1 else c.line
    let column := if x = '\n' then 0 else c.column
    ⟨rest, c.pos + 1, line, if rest.isEmpty then column else column + 1⟩

/-- So many steps on. -/
def advanceBy : Nat → Cursor → Cursor
  | 0, c => c
  | n + 1, c => advanceBy n c.advance

/-- The longest run of characters of a class, and the cursor behind it. -/
def span (p : Char → Bool) (c : Cursor) : List Char × Cursor :=
  let run := c.rest.takeWhile p
  (run, c.advanceBy run.length)

@[simp] theorem start_rest (text : List Char) : (start text).rest = text := rfl

@[simp] theorem start_pos (text : List Char) : (start text).pos = 0 := rfl

@[simp] theorem advance_rest (c : Cursor) : c.advance.rest = c.rest.tail := by
  obtain ⟨rest, pos, line, column⟩ := c
  cases rest <;> rfl

@[simp] theorem advance_pos (c : Cursor) : c.advance.pos = c.pos + 1 := by
  obtain ⟨rest, pos, line, column⟩ := c
  cases rest <;> rfl

@[simp] theorem advanceBy_zero (c : Cursor) : c.advanceBy 0 = c := rfl

@[simp] theorem advanceBy_succ (n : Nat) (c : Cursor) :
    c.advanceBy (n + 1) = c.advance.advanceBy n := rfl

/-- So many steps drop so many characters. -/
@[simp] theorem advanceBy_rest (n : Nat) (c : Cursor) : (c.advanceBy n).rest = c.rest.drop n := by
  induction n generalizing c with
  | zero => rfl
  | succ n ih => rw [advanceBy_succ, ih, advance_rest, List.drop_tail]

/-- Every step counts, also past the end of the text. -/
@[simp] theorem advanceBy_pos (n : Nat) (c : Cursor) : (c.advanceBy n).pos = c.pos + n := by
  induction n generalizing c with
  | zero => rfl
  | succ n ih => rw [advanceBy_succ, ih, advance_pos]; omega

/-- Behind a run stands the rest of the text. -/
theorem span_rest (p : Char → Bool) (c : Cursor) : (c.span p).2.rest = c.rest.dropWhile p := by
  rw [span, advanceBy_rest]
  induction c.rest with
  | nil => rfl
  | cons x xs ih =>
    by_cases h : p x = true
    · simp [h, ih]
    · simp [h]

/-- A run and what stands behind it make up the text. -/
theorem span_append_rest (p : Char → Bool) (c : Cursor) :
    (c.span p).1 ++ (c.span p).2.rest = c.rest := by
  rw [span_rest]
  exact List.takeWhile_append_dropWhile

end Cursor

end LittlePascal
