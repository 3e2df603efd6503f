import LittlePascal.Evaluate

/-! # Traced evaluation

The first edition with trees computes every node twice: once for a line that tells the value, and once
more for the result. The lines of a node are those of its operands, its own, and those of its operands
again. A value with more digits than may be written ends the evaluation. This is the `visit` of part 7
of the series. -/

namespace LittlePascal

/-- A line that tells the value of a node. -/
def traceLine (value : String) : String := "visitor(node) = " ++ value

/-- A computation that keeps the lines it has written. -/
abbrev Traced := EStateM Fault (Array String)

/-- A line tells a value, unless the value has too many digits. -/
def tellValue (limit : DigitLimit) (value : Value) : Traced Unit :=
  if value.fits limit then modify (·.push (traceLine value.text))
  else throw (.malformedWhole (.untold limit.most))

/-- A value that fits is told in a line of its own. -/
theorem tellValue_of_fits {limit : DigitLimit} {value : Value} (fits : value.fits limit = true)
    (trace : Array String) : tellValue limit value trace = .ok () (trace.push (traceLine value.text)) := by
  rw [tellValue, if_pos fits]
  rfl

/-- A value that does not fit is not told. -/
theorem tellValue_of_long {limit : DigitLimit} {value : Value} (long : value.fits limit = false)
    (trace : Array String) : tellValue limit value trace = .error (.malformedWhole (.untold limit.most)) trace := by
  rw [tellValue, long]
  rfl

/-- A computation done twice, with the first result told in between. -/
def twice {α : Type} (tell : α → Traced Unit) (once : Traced α) : Traced α := do
  tell (← once)
  once

/-- The value of an expression without variables, with the lines that its nodes write. -/
def Expr.evalTraced (rules : EvalRules) (limit : DigitLimit) : Expr → Traced Value
  | .literal l _ => twice (tellValue limit) (return l.value)
  | .var id => throw (.unhandled (Expr.var id).className)
  | .signed sign place operand => throw (.unhandled (Expr.signed sign place operand).className)
  | .binary operator _ left right => twice (tellValue limit) do
    let l ← left.evalTraced rules limit
    let r ← right.evalTraced rules limit
    MonadExcept.ofExcept (liftArithmetic (l.apply (operation rules operator) r))
  | .hole => throw (.unhandled Expr.hole.className)

end LittlePascal
