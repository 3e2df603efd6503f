import LittlePascal.Parse

/-! # Calculators

The calculators evaluate while they read. They differ in the expressions they know: a sum of two
digits, a sum or difference of two numbers, a chain of these, a chain of all four operators without
any precedence, and chains whose operands are products, without and with parentheses.

In a chain with products only what follows the first operand is read as a product, so
`8 / 2 * 3` is `8 / (2 * 3)` there while `1 + 8 / 2 * 3` is `1 + ((8 / 2) * 3)`.

These are `expr`, `term` and `factor` of the `Interpreter` in parts 1 to 6 of the series. -/

namespace LittlePascal.Calculator

/-- The operation of an operator: both divisions round down. -/
def operation : Operator → Operation
  | .plus => .add
  | .minus => .subtract
  | .times => .multiply
  | .slash => .floorDivide
  | .div => .floorDivide

/-- Two operands combined by an operator. -/
def combine (operator : Operator) (left right : Value) : Parse Value :=
  Parse.lift (liftArithmetic (left.apply (operation operator) right))

/-- A whole number. -/
def whole (lx : Lexis) : Parse Value := do
  match ← Parse.current with
  | .lexeme (.literal (.whole n)) _ =>
    Parse.next lx
    return .whole n
  | _ => Parse.reject

/-- A first operand and then, as long as one of the operators follows, more operands. -/
def chain (lx : Lexis) (operators : List Operator) (first operand : Parse Value) : Parse Value := do
  let left ← first
  Parse.foldLeft lx (Parse.operatorAmong operators) (fun operator _ => combine operator) operand
    (← Parse.budget) left

/-- The sum of two numbers. -/
def sumOfTwo (lx : Lexis) : Parse Value := do
  let left ← whole lx
  Parse.expect lx (.operator .plus)
  let right ← whole lx
  combine .plus left right

/-- The sum or the difference of two numbers. -/
def sumOrDifference (lx : Lexis) : Parse Value := do
  let left ← whole lx
  let operator := if (← Parse.kind) = .operator .plus then Operator.plus else Operator.minus
  Parse.expect lx (.operator operator)
  let right ← whole lx
  combine operator left right

/-- A chain of sums and differences. -/
def sums (lx : Lexis) : Parse Value := chain lx [.plus, .minus] (whole lx) (whole lx)

/-- A chain of products and quotients. -/
def products (lx : Lexis) (factor : Parse Value) : Parse Value :=
  chain lx [.times, .slash] factor factor

/-- The four operators. -/
def allOperators : List Operator := [.plus, .minus, .times, .slash]

/-- A chain of the four operators, from left to right. -/
def flat (lx : Lexis) : Parse Value := chain lx allOperators (whole lx) (whole lx)

/-- A chain of the four operators whose operands, the first one apart, are products. -/
def mixed (lx : Lexis) (factor : Parse Value) : Parse Value :=
  chain lx allOperators factor (products lx factor)

/-- A number or an expression in parentheses; any other token is left alone and gives no value. The
number of open parentheses is bounded by the first argument. -/
def factorWithin (lx : Lexis) : Nat → Parse Value
  | 0 => Parse.exhausted
  | n + 1 => do
    match ← Parse.current with
    | .lexeme (.literal (.whole value)) _ =>
      Parse.next lx
      return .whole value
    | .lexeme (.punctuation .leftParen) _ =>
      Parse.next lx
      let value ← mixed lx (factorWithin lx n)
      Parse.expect lx (.punctuation .rightParen)
      return value
    | _ => return .missing

/-- A number or an expression in parentheses, if one stands here. -/
def factor (lx : Lexis) : Parse Value := do
  factorWithin lx (← Parse.budget)

end LittlePascal.Calculator

namespace LittlePascal

/-! ## Reading on demand

The first calculators read their first token only when an expression is asked for. -/

/-- A reading whose first token may still be pending. -/
structure PendingReading where
  token : Option Token
  cursor : Cursor
  deriving DecidableEq, Repr

namespace PendingReading

/-- A rule used on a pending reading needs a current token. -/
def rule {α : Type} (p : Parse α) : EStateM Fault PendingReading α := fun pending =>
  match pending.token with
  | none => .error .noToken pending
  | some token =>
    match p ⟨token, pending.cursor⟩ with
    | .ok a reading => .ok a ⟨some reading.token, reading.cursor⟩
    | .error fault reading => .error fault ⟨some reading.token, reading.cursor⟩

/-- Reading of lexemes leaves the current token alone. -/
def scan {α : Type} (s : Scan α) : EStateM Fault PendingReading α := fun pending =>
  match s pending.cursor with
  | .ok a cursor => .ok a { pending with cursor }
  | .error fault cursor => .error fault { pending with cursor }

/-- An expression is read from the next token on. -/
def expression (lx : Lexis) (p : Parse Value) : EStateM Fault PendingReading Value := do
  let token ← scan lx.token
  modify fun pending => { pending with token := some token }
  rule p

end PendingReading

end LittlePascal
