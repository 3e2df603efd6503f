import LittlePascal.Number.Nearest

/-! # The parts of a double

A double is split into its sign and, if it is finite, the integers `m` and `e` of its magnitude
`m * 2 ^ e`. The exact remainder and the flooring quotient of two doubles are defined on these. -/

namespace LittlePascal.Number

/-- The magnitude of a double. -/
inductive Magnitude where
  /-- Not a number. -/
  | nan
  /-- Infinity. -/
  | infinite
  /-- The number `m * 2 ^ e`. -/
  | finite (m : Nat) (e : Int)
  deriving DecidableEq, Repr

/-- Whether the sign bit of a double is set. -/
def isNegative (x : Float) : Bool := twoTo 63 ≤ x.toBits.toNat

/-- The magnitude of a double. -/
def magnitude (x : Float) : Magnitude :=
  let bits : Nat := x.toBits.toNat % twoTo 63
  let field : Nat := bits / twoTo 52
  let fraction : Nat := bits % twoTo 52
  if field = 0x7FF then (if fraction = 0 then .infinite else .nan)
  else if field = 0 then .finite fraction (-1074)
  else .finite (twoTo 52 + fraction) ((field : Int) - 1075)

/-- The double with the sign of `sign` and the magnitude of `x`. -/
def withSign (x : Float) (sign : Float) : Float :=
  if isNegative x = isNegative sign then x else -x

/-- The natural number `m * 2 ^ e` as a fraction. -/
def asFraction (m : Nat) (e : Int) : Nat × Nat :=
  match e with
  | .ofNat k => (m * twoTo k, 1)
  | .negSucc k => (m, twoTo (k + 1))

/-- The remainder of `x` by `y` with the sign of `x`, exact: the magnitudes are brought to one
exponent and divided as natural numbers. A remainder by zero or of infinity is not a number. -/
def remainder (x y : Float) : Float :=
  match magnitude x, magnitude y with
  | .finite m e, .finite m' e' =>
    if m' = 0 then 0.0 / 0.0
    else
      let place := if e < e' then e else e'
      let rest := (m * twoTo (e - place).toNat) % (m' * twoTo (e' - place).toNat)
      let (num, den) := asFraction rest place
      withSign (nearest num den) x
  | .finite _ _, .infinite => x
  | _, _ => 0.0 / 0.0

/-- The flooring quotient of two doubles, `y` not zero. The remainder is taken off first, the
quotient of what is left is moved down if remainder and divisor differ in sign, and the result is
brought to the nearest whole number; a zero takes the sign of the true quotient. -/
def floorDiv (x y : Float) : Float :=
  let rest := remainder x y
  let raw := (x - rest) / y
  let quotient := if rest != 0.0 && (y < 0.0) != (rest < 0.0) then raw - 1.0 else raw
  if quotient != 0.0 then
    let below := quotient.floor
    if quotient - below > 0.5 then below + 1.0 else below
  else
    withSign 0.0 (x / y)

end LittlePascal.Number
