/-! # The double nearest to a fraction

A finite double is `m * 2 ^ e` with `m < 2 ^ 53`. `nearestBits num den` is the bit pattern of the
double nearest to the fraction `num / den`, a half going to the even neighbour and everything from
half a unit above the largest double on going to infinity. All arithmetic is exact, on natural
numbers. -/

namespace LittlePascal.Number

/-- The power of two with an exponent. -/
def twoTo (k : Nat) : Nat := Nat.pow 2 k

/-- The power of ten with an exponent. -/
def tenTo (k : Nat) : Nat := Nat.pow 10 k

@[simp] theorem twoTo_zero : twoTo 0 = 1 := rfl

@[simp] theorem tenTo_zero : tenTo 0 = 1 := rfl

/-- The quotient `num / den` rounded to the nearest natural number, a half to the even one. -/
def roundDiv (num den : Nat) : Nat :=
  let quotient := num / den
  let remainder := num % den
  if den < 2 * remainder ∨ (2 * remainder = den ∧ quotient % 2 = 1) then quotient + 1 else quotient

/-- The bit pattern of positive infinity. -/
def infinityBits : Nat := 0x7FF * twoTo 52

/-- `num / (den * 2 ^ e)` rounded to the nearest natural number. -/
def scaledRound (num den : Nat) (e : Int) : Nat :=
  match e with
  | .ofNat k => roundDiv num (den * twoTo k)
  | .negSucc k => roundDiv (num * twoTo (k + 1)) den

/-- Whether `num / (den * 2 ^ e)` is below `2 ^ 52`. -/
def belowUnit (num den : Nat) (e : Int) : Bool :=
  match e with
  | .ofNat k => num < den * twoTo k * twoTo 52
  | .negSucc k => num * twoTo (k + 1) < den * twoTo 52

/-- The exponent of the last place of the double nearest to `num / den`: the one that leaves 53
binary digits before the point, and never below that of the subnormal doubles. -/
def lastPlace (num den : Nat) : Int :=
  let guess : Int := (Nat.log2 num : Int) - (Nat.log2 den : Int) - 52
  let place := if belowUnit num den guess then guess - 1 else guess
  if place < -1074 then -1074 else place

/-- The bit pattern of the double nearest to the fraction `num / den`. The significand is added to
the exponent field, so a carry out of it moves to the next exponent by itself. -/
def nearestBits (num den : Nat) : Nat :=
  if num = 0 then 0
  else
    let place := lastPlace num den
    let bits := (place + 1074).toNat * twoTo 52 + scaledRound num den place
    if bits < infinityBits then bits else infinityBits

/-- The double nearest to the fraction `num / den`, infinity if it is too large. -/
def nearest (num den : Nat) : Float := Float.ofBits (nearestBits num den).toUInt64

/-- The double nearest to an integer; `none` if that would be infinite. -/
def ofInt? (n : Int) : Option Float :=
  let bits := nearestBits n.natAbs 1
  if bits = infinityBits then none
  else
    let magnitude := Float.ofBits bits.toUInt64
    some (if n < 0 then -magnitude else magnitude)

@[simp] theorem nearestBits_zero (den : Nat) : nearestBits 0 den = 0 := rfl

end LittlePascal.Number
