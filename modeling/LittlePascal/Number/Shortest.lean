import LittlePascal.Number.Double

/-! # The text of a double

A finite double is written with the fewest decimal digits that read back as the same double, and of
those with the ones nearest to it. `shortest` finds the digits in exact arithmetic; `realText` lays
them out: positionally with at least one digit on either side of the point while the decimal
exponent is from -4 to 15, otherwise with an exponent of at least two digits. -/

namespace LittlePascal.Number

/-- A decimal `digits * 10 ^ exponent`. -/
structure Decimal where
  /-- The significant digits. -/
  digits : Nat
  /-- The exponent of the last digit. -/
  exponent : Int
  deriving DecidableEq, Repr

namespace Decimal

/-- A decimal as a fraction. -/
def fraction (d : Decimal) : Nat × Nat :=
  match d.exponent with
  | .ofNat k => (d.digits * tenTo k, 1)
  | .negSucc k => (d.digits, tenTo (k + 1))

/-- The bit pattern of the double that a decimal reads as. -/
def bits (d : Decimal) : Nat := nearestBits d.fraction.1 d.fraction.2

end Decimal

/-- The largest whole `E` with `10 ^ E ≤ num / den`, for fractions from `10 ^ -400` on. -/
def decimalExponent (num den : Nat) : Int :=
  ((num * tenTo 400 / den).repr.length : Int) - 401

/-- The decimal with `count` digits that reads as the double with the given bits and is nearest to
the fraction `num / den`, if one of the two neighbours of the fraction on that grid does. -/
def withDigits? (bits num den count : Nat) : Option Decimal :=
  let place := decimalExponent num den - (count : Int) + 1
  let (n, d) := match place with
    | .ofNat k => (num, den * tenTo k)
    | .negSucc k => (num * tenTo (k + 1), den)
  let below : Decimal := ⟨n / d, place⟩
  let above : Decimal := ⟨n / d + 1, place⟩
  let nearer := if roundDiv n d = n / d then below else above
  let farther := if roundDiv n d = n / d then above else below
  if nearer.bits = bits then some nearer
  else if farther.bits = bits then some farther
  else none

/-- The decimal with the fewest digits, from `count` on, that reads as the double with the given
bits; the fraction is the double's own value. -/
def shortestFrom (bits num den : Nat) : (rounds count : Nat) → Decimal
  | 0, count => (withDigits? bits num den count).getD ⟨num, 0⟩
  | rounds + 1, count =>
    match withDigits? bits num den count with
    | some decimal => decimal
    | none => shortestFrom bits num den rounds (count + 1)

/-- The decimal with the fewest digits that reads back as `m * 2 ^ e`; seventeen always do. -/
def shortest (m : Nat) (e : Int) : Decimal :=
  let (num, den) := asFraction m e
  shortestFrom (nearestBits num den) num den 16 1

/-- Digits without the zeros at their end. -/
def withoutFinalZeros (digits : List Char) : List Char :=
  (digits.reverse.dropWhile (· = '0')).reverse

/-- The exponent of a decimal as text: a sign and at least two digits. -/
def exponentText (e : Int) : String :=
  let digits := e.natAbs.repr
  (if e < 0 then "e-" else "e+") ++ (if digits.length < 2 then "0" ++ digits else digits)

/-- The layout of significant digits whose first one has the decimal exponent `e`. -/
def layDigits (digits : List Char) (e : Int) : String :=
  if -4 ≤ e ∧ e < 16 then
    match e with
    | .ofNat k =>
      let whole := digits.take (k + 1)
      let part := digits.drop (k + 1)
      String.ofList (whole ++ List.replicate (k + 1 - whole.length) '0') ++ "." ++
        (if part.isEmpty then "0" else String.ofList part)
    | .negSucc k => "0." ++ String.ofList (List.replicate k '0' ++ digits)
  else
    match digits with
    | [] => "0"
    | [d] => String.ofList [d] ++ exponentText e
    | d :: rest => String.ofList (d :: '.' :: rest) ++ exponentText e

/-- A decimal laid out with its shortest digits. -/
def decimalText (d : Decimal) : String :=
  let digits := d.digits.repr.toList
  layDigits (withoutFinalZeros digits) ((digits.length : Int) - 1 + d.exponent)

/-- The text of a double. -/
def realText (x : Float) : String :=
  let sign := if isNegative x then "-" else ""
  match magnitude x with
  | .nan => "nan"
  | .infinite => sign ++ "inf"
  | .finite m e => sign ++ (if m = 0 then "0.0" else decimalText (shortest m e))

end LittlePascal.Number
