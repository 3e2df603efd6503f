import LittlePascal.Lexis

/-! # Reading tokens by a grammar

A grammar rule sees one token, the current one, and reads on with a cursor. `Parse` is the type of
such rules; like the reading of lexemes it keeps what it has reached when it fails.

Loops and nesting are bounded by `Parse.budget`, a number that exceeds the count of tokens still to
be read: every round of a loop and every level of nesting uses up a token. `Parse.expect` is the `eat`
of the series. -/

namespace LittlePascal

/-- The current token and the cursor behind it. -/
structure Reading where
  token : Token
  cursor : Cursor
  deriving DecidableEq, Repr

/-- Reading by a grammar rule. -/
abbrev Parse := EStateM Fault Reading

/-- The reading of a text that stands at its first token. -/
def Lexis.openReading (lx : Lexis) (text : String) : Except Fault Reading := do
  match lx.token (← lx.openText text) with
  | .ok token cursor => .ok ⟨token, cursor⟩
  | .error fault _ => .error fault

namespace Parse

/-- The current token. -/
def current : Parse Token := return (← get).token

/-- The kind of the current token. -/
def kind : Parse Kind := return (← get).token.kind

/-- The next token becomes the current one. -/
def next (lx : Lexis) : Parse Unit := fun reading =>
  match lx.token reading.cursor with
  | .ok token cursor => .ok () ⟨token, cursor⟩
  | .error fault cursor => .error fault { reading with cursor }

/-- The fault of the current token being of the wrong kind. -/
def reject {α : Type} : Parse α := fun reading => .error (.unexpected reading.token) reading

/-- Past the current token if it is of the given kind. -/
def expect (lx : Lexis) (kind : Kind) : Parse Unit := do
  if (← current).kind = kind then next lx else reject

/-- A number that exceeds the count of tokens still to be read, the current one included. -/
def budget : Parse Nat := return (← get).cursor.rest.length + 2

/-- A calculation inside a rule. -/
def lift {α : Type} : Except Fault α → Parse α
  | .ok a => pure a
  | .error fault => throw fault

/-- Out of budget. -/
def exhausted {α : Type} : Parse α := throw .exhausted

/-- Past the current token if it is a name. -/
def ident (lx : Lexis) : Parse Ident := do
  match ← current with
  | .lexeme (.name name) place =>
    next lx
    return ⟨name, place⟩
  | _ => reject

/-- Items of a list as long as the current token announces another one. The first argument bounds
their number. -/
def manyWhile {α : Type} (announced : Kind → Bool) (item : Parse α) : Nat → Parse (List α)
  | 0 => exhausted
  | n + 1 => do
    if announced (← kind) then
      let first ← item
      return first :: (← manyWhile announced item n)
    else
      return []

/-- Items of a list as long as the current token is of the given kind, which each item begins
with. -/
def many {α : Type} (opener : Kind) (item : Parse α) : Parse (List α) := do
  manyWhile (· == opener) item (← budget)

/-- One item and then more, each after the separator. -/
def separated {α : Type} (lx : Lexis) (separator : Kind) (item : Parse α) : Parse (List α) := do
  let first ← item
  return first :: (← many separator do expect lx separator; item)

/-- Operands joined by operators, folded from the left: as long as the current token is an operator
of the class, it and another operand are combined with what has been read. -/
def foldLeft {α : Type} (lx : Lexis) (operator? : Token → Option (Operator × Place))
    (combine : Operator → Place → α → α → Parse α) (operand : Parse α) : Nat → α → Parse α
  | 0, _ => exhausted
  | n + 1, left => do
    match operator? (← current) with
    | none => return left
    | some (operator, place) =>
      next lx
      let right ← operand
      foldLeft lx operator? combine operand n (← combine operator place left right)

/-- The operator of a token, if it is one of the given ones. -/
def operatorAmong (operators : List Operator) : Token → Option (Operator × Place)
  | .lexeme (.operator o) place => if o ∈ operators then some (o, place) else none
  | _ => none

end Parse

end LittlePascal
