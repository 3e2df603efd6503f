import LittlePascal.Number.Shortest
import LittlePascal.Text.Digit

/-! # Values and arithmetic

A value is a whole number of any size, a double, or missing. Arithmetic on whole numbers is exact and
divides by flooring; as soon as one operand is a double the other is brought to the nearest double.
Every way an operation can fail is a `ValueFault`. -/

namespace LittlePascal

/-- What an expression stands for. -/
inductive Value where
  /-- A whole number. -/
  | whole (n : Int)
  /-- A double. -/
  | real (x : Float)
  /-- No value: the reading of a variable that was never assigned. -/
  | missing
  deriving DecidableEq, Repr

/-- The form of a value, as far as a fault tells of it. -/
inductive Value.Form where
  | whole
  | real
  | missing
  deriving DecidableEq, Repr

/-- The binary operations. -/
inductive Operation where
  | add
  | subtract
  | multiply
  /-- Division rounding down. -/
  | floorDivide
  /-- Division of doubles. -/
  | divide
  deriving DecidableEq, Repr

/-- The unary operations. -/
inductive Sign where
  | plus
  | minus
  deriving DecidableEq, Repr

/-- The ways arithmetic can fail. -/
inductive ValueFault where
  /-- A whole number was divided by zero. -/
  | wholeByZero
  /-- A flooring division with a double on one side was by zero. -/
  | floorByZero
  /-- A division of doubles was by zero. -/
  | realByZero
  /-- A whole number is too large for a double. -/
  | tooLarge
  /-- An operation does not apply to operands of these forms. -/
  | operands (operation : Operation) (left right : Value.Form)
  /-- A sign does not apply to an operand of this form. -/
  | operand (sign : Sign) (form : Value.Form)
  /-- A value of this form is not a number. -/
  | notNumber (form : Value.Form)
  deriving DecidableEq, Repr

/-- A whole number in decimal. -/
def wholeText (n : Int) : String :=
  if n < 0 then "-" ++ n.natAbs.repr else n.natAbs.repr

namespace Value

/-- The form of a value. -/
def form : Value → Form
  | .whole _ => .whole
  | .real _ => .real
  | .missing => .missing

/-- Whether a value is a number. -/
def isNumber : Value → Bool
  | .missing => false
  | _ => true

/-- The text of a value, with all its digits; `fits` says whether a limit allows to write it. -/
def text : Value → String
  | .whole n => wholeText n
  | .real x => Number.realText x
  | .missing => "None"

/-- Whether a limit allows to write the digits of a value. Only whole numbers are limited. -/
def fits (limit : DigitLimit) : Value → Bool
  | .whole n => limit.allows n.natAbs.repr.length
  | _ => true

@[simp] theorem fits_off (value : Value) : value.fits .off = true := by
  cases value <;> rfl

/-- A value as a double. -/
def toReal : Value → Except ValueFault Float
  | .whole n =>
    match Number.ofInt? n with
    | some x => .ok x
    | none => .error .tooLarge
  | .real x => .ok x
  | .missing => .error (.notNumber .missing)

/-- The quotient of two doubles. -/
def divideReals (x y : Float) : Except ValueFault Value :=
  if y == 0.0 then .error .realByZero else .ok (.real (x / y))

/-- An operation on two doubles. -/
def applyReals (operation : Operation) (x y : Float) : Except ValueFault Value :=
  match operation with
  | .add => .ok (.real (x + y))
  | .subtract => .ok (.real (x - y))
  | .multiply => .ok (.real (x * y))
  | .floorDivide => if y == 0.0 then .error .floorByZero else .ok (.real (Number.floorDiv x y))
  | .divide => divideReals x y

/-- An operation on two numbers of which one at least is to be taken as a double. -/
def applyMixed (operation : Operation) (left right : Value) : Except ValueFault Value := do
  let x ← left.toReal
  let y ← right.toReal
  applyReals operation x y

/-- An operation on two values. -/
def apply (operation : Operation) (left right : Value) : Except ValueFault Value :=
  match left, right with
  | .whole m, .whole n =>
    match operation with
    | .add => .ok (.whole (m + n))
    | .subtract => .ok (.whole (m - n))
    | .multiply => .ok (.whole (m * n))
    | .floorDivide => if n = 0 then .error .wholeByZero else .ok (.whole (m.fdiv n))
    | .divide => applyMixed .divide left right
  | .missing, _ => .error (.operands operation left.form right.form)
  | _, .missing => .error (.operands operation left.form right.form)
  | _, _ => applyMixed operation left right

/-- A sign before a value. -/
def applySign (sign : Sign) (value : Value) : Except ValueFault Value :=
  match sign, value with
  | .plus, .whole n => .ok (.whole n)
  | .plus, .real x => .ok (.real x)
  | .minus, .whole n => .ok (.whole (-n))
  | .minus, .real x => .ok (.real (-x))
  | _, .missing => .error (.operand sign value.form)

@[simp] theorem apply_add_whole (m n : Int) :
    apply .add (.whole m) (.whole n) = .ok (.whole (m + n)) := rfl

@[simp] theorem apply_subtract_whole (m n : Int) :
    apply .subtract (.whole m) (.whole n) = .ok (.whole (m - n)) := rfl

@[simp] theorem apply_multiply_whole (m n : Int) :
    apply .multiply (.whole m) (.whole n) = .ok (.whole (m * n)) := rfl

@[simp] theorem apply_floorDivide_whole (m n : Int) :
    apply .floorDivide (.whole m) (.whole n) =
      if n = 0 then .error .wholeByZero else .ok (.whole (m.fdiv n)) := rfl

end Value

namespace ValueFault

/-- The name of a form of values in a message. -/
def formName : Value.Form → String
  | .whole => "int"
  | .real => "float"
  | .missing => "NoneType"

/-- The symbol of an operation in a message. -/
def operationSymbol : Operation → String
  | .add => "+"
  | .subtract => "-"
  | .multiply => "*"
  | .floorDivide => "//"
  | .divide => "/"

/-- The symbol of a sign in a message. -/
def signSymbol : Sign → String
  | .plus => "+"
  | .minus => "-"

/-- The wording of a fault. -/
def message : ValueFault → String
  | .wholeByZero => "integer division or modulo by zero"
  | .floorByZero => "float floor division by zero"
  | .realByZero => "float division by zero"
  | .tooLarge => "int too large to convert to float"
  | .operands operation left right =>
    "unsupported operand type(s) for " ++ operationSymbol operation ++ ": '" ++ formName left ++
      "' and '" ++ formName right ++ "'"
  | .operand sign form =>
    "bad operand type for unary " ++ signSymbol sign ++ ": '" ++ formName form ++ "'"
  | .notNumber form =>
    "float() argument must be a string or a real number, not '" ++ formName form ++ "'"

end ValueFault

end LittlePascal
