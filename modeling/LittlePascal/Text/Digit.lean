import LittlePascal.Text.Letter

/-! # Digits and numerals

A number is a run of digits. Decimal digits of every script have a value from zero to nine; raised,
lowered and enclosed digits count as digits of a run but have no decimal value, so a run that holds
one is read and then refused. Names may hold letters, digits and the remaining numerals.

A `DigitLimit` bounds how many decimal digits a whole number may have when it is read from a text or
written to one. It is a setting of the machine and not of the language, so it is a parameter of
reading and of telling values; `DigitLimit.off` is the setting without a bound. -/

namespace LittlePascal.Text

/-- The zero of each run of ten decimal digits outside ASCII. -/
def decimalZeros : List Nat :=
  [0x660, 0x6F0, 0x7C0, 0x966, 0x9E6, 0xA66, 0xAE6, 0xB66, 0xBE6, 0xC66, 0xCE6, 0xD66, 0xDE6,
   0xE50, 0xED0, 0xF20, 0x1040, 0x1090, 0x17E0, 0x1810, 0x1946, 0x19D0, 0x1A80, 0x1A90, 0x1B50,
   0x1BB0, 0x1C40, 0x1C50, 0xA620, 0xA8D0, 0xA900, 0xA9D0, 0xA9F0, 0xAA50, 0xABF0, 0xFF10,
   0x104A0, 0x10D30, 0x11066, 0x110F0, 0x11136, 0x111D0, 0x112F0, 0x11450, 0x114D0, 0x11650,
   0x116C0, 0x11730, 0x118E0, 0x11950, 0x11C50, 0x11D50, 0x11DA0, 0x16A60, 0x16AC0, 0x16B50,
   0x1D7CE, 0x1D7D8, 0x1D7E2, 0x1D7EC, 0x1D7F6, 0x1E140, 0x1E2F0, 0x1E950, 0x1FBF0]

/-- Digits without a decimal value: raised, lowered and enclosed ones, as ranges of code points. -/
def bareDigitRanges : List (Nat × Nat) :=
  [(0xB2, 0xB3), (0xB9, 0xB9), (0x1369, 0x1371), (0x19DA, 0x19DA), (0x2070, 0x2070),
   (0x2074, 0x2079), (0x2080, 0x2089), (0x2460, 0x2468), (0x2474, 0x247C), (0x2488, 0x2490),
   (0x24EA, 0x24EA), (0x24F5, 0x24FD), (0x24FF, 0x24FF), (0x2776, 0x277E), (0x2780, 0x2788),
   (0x278A, 0x2792), (0x10A40, 0x10A43), (0x10E60, 0x10E68), (0x11052, 0x1105A),
   (0x1F100, 0x1F10A)]

/-- Numerals that are neither letters nor digits, as ranges of code points. -/
def numeralRanges : List (Nat × Nat) :=
  [(0xBC, 0xBE), (0x9F4, 0x9F9), (0xB72, 0xB77), (0xBF0, 0xBF2), (0xC78, 0xC7E), (0xD58, 0xD5E),
   (0xD70, 0xD78), (0xF2A, 0xF33), (0x1372, 0x137C), (0x16EE, 0x16F0), (0x17F0, 0x17F9),
   (0x2150, 0x2182), (0x2185, 0x2189), (0x2469, 0x2473), (0x247D, 0x2487), (0x2491, 0x249B),
   (0x24EB, 0x24F4), (0x24FE, 0x24FE), (0x277F, 0x277F), (0x2789, 0x2789), (0x2793, 0x2793),
   (0x2CFD, 0x2CFD), (0x3007, 0x3007), (0x3021, 0x3029), (0x3038, 0x303A), (0x3192, 0x3195),
   (0x3220, 0x3229), (0x3248, 0x324F), (0x3251, 0x325F), (0x3280, 0x3289), (0x32B1, 0x32BF),
   (0xA6E6, 0xA6EF), (0xA830, 0xA835), (0x10107, 0x10133), (0x10140, 0x10178), (0x1018A, 0x1018B),
   (0x102E1, 0x102FB), (0x10320, 0x10323), (0x10341, 0x10341), (0x1034A, 0x1034A),
   (0x103D1, 0x103D5), (0x10858, 0x1085F), (0x10879, 0x1087F), (0x108A7, 0x108AF),
   (0x108FB, 0x108FF), (0x10916, 0x1091B), (0x109BC, 0x109BD), (0x109C0, 0x109CF),
   (0x109D2, 0x109FF), (0x10A44, 0x10A48), (0x10A7D, 0x10A7E), (0x10A9D, 0x10A9F),
   (0x10AEB, 0x10AEF), (0x10B58, 0x10B5F), (0x10B78, 0x10B7F), (0x10BA9, 0x10BAF),
   (0x10CFA, 0x10CFF), (0x10E69, 0x10E7E), (0x10F1D, 0x10F26), (0x10F51, 0x10F54),
   (0x10FC5, 0x10FCB), (0x1105B, 0x11065), (0x111E1, 0x111F4), (0x1173A, 0x1173B),
   (0x118EA, 0x118F2), (0x11C5A, 0x11C6C), (0x11FC0, 0x11FD4), (0x12400, 0x1246E),
   (0x16B5B, 0x16B61), (0x16E80, 0x16E96), (0x1D2E0, 0x1D2F3), (0x1D360, 0x1D378),
   (0x1E8C7, 0x1E8CF), (0x1EC71, 0x1ECAB), (0x1ECAD, 0x1ECAF), (0x1ECB1, 0x1ECB4),
   (0x1ED01, 0x1ED2D), (0x1ED2F, 0x1ED3D), (0x1F10B, 0x1F10C)]

/-- The value of a decimal digit of any script. -/
def digitValue? (c : Char) : Option Nat :=
  if c.toNat < 0x80 then
    if c.isDigit then some (c.toNat - 0x30) else none
  else
    (decimalZeros.find? fun start => start ≤ c.toNat && c.toNat < start + 10).map (c.toNat - ·)

/-- Whether a character is a digit, with or without a decimal value. -/
def isDigit (c : Char) : Bool :=
  (digitValue? c).isSome || inRanges bareDigitRanges c.toNat

/-- Whether a character may stand inside a name: a letter, a digit or another numeral. -/
def isNameChar (c : Char) : Bool :=
  isLetter c || isDigit c || inRanges numeralRanges c.toNat

/-- The value of a run of decimal digits, most significant first; `none` for an empty run and for a
run that holds a digit without a decimal value. -/
def decimalValue? : List Char → Option Nat
  | [] => none
  | c :: rest => rest.foldl
      (fun value? c => value?.bind fun value => (digitValue? c).map (10 * value + ·)) (digitValue? c)

/-- A letter may stand inside a name. -/
theorem isNameChar_of_isLetter {c : Char} (h : isLetter c = true) : isNameChar c = true := by
  simp [isNameChar, h]

/-- A digit may stand inside a name. -/
theorem isNameChar_of_isDigit {c : Char} (h : isDigit c = true) : isNameChar c = true := by
  simp [isNameChar, h]

/-- The value of a decimal digit is below ten. -/
theorem digitValue?_lt_ten {c : Char} {value : Nat} (h : digitValue? c = some value) :
    value < 10 := by
  unfold digitValue? at h
  split at h
  · split at h
    · rename_i digit
      simp only [Char.isDigit, Bool.and_eq_true, decide_eq_true_eq] at digit
      have upper : c.toNat ≤ 57 := digit.2
      simp only [Option.some.injEq] at h
      omega
    · simp at h
  · obtain ⟨start, found, rfl⟩ := Option.map_eq_some_iff.mp h
    have member := List.find?_some found
    simp only [Bool.and_eq_true, decide_eq_true_eq] at member
    omega

/-- The number of decimal digits before the first character that is none. -/
def leadingDecimals (digits : List Char) : Nat :=
  (digits.takeWhile fun c => (digitValue? c).isSome).length

/-- Without a value so far, no digit brings one. -/
theorem foldl_digits_none (digits : List Char) :
    digits.foldl (fun value? c => value?.bind fun value => (digitValue? c).map (10 * value + ·)) none =
      none := by
  induction digits with
  | nil => rfl
  | cons c digits ih => exact ih

/-- If digits bring a value to a value, each of them has one. -/
theorem isSome_of_foldl_digits {digits : List Char} {value? : Option Nat} {n : Nat}
    (h : digits.foldl (fun value? c => value?.bind fun value => (digitValue? c).map (10 * value + ·))
      value? = some n) : ∀ c ∈ digits, (digitValue? c).isSome = true := by
  induction digits generalizing value? with
  | nil => simp
  | cons c digits ih =>
    rw [List.foldl_cons] at h
    refine List.forall_mem_cons.mpr ⟨?_, ih h⟩
    cases value : digitValue? c with
    | some _ => rfl
    | none =>
      have lost : (value?.bind fun value => (none : Option Nat).map (10 * value + ·)) = none := by
        cases value? <;> rfl
      rw [value, lost, foldl_digits_none] at h
      simp at h

/-- In a run with a value every character is a decimal digit. -/
theorem isSome_of_decimalValue? {digits : List Char} {n : Nat} (h : decimalValue? digits = some n) :
    ∀ c ∈ digits, (digitValue? c).isSome = true := by
  cases digits with
  | nil => simp
  | cons c digits =>
    refine List.forall_mem_cons.mpr ⟨?_, isSome_of_foldl_digits h⟩
    cases value : digitValue? c with
    | some _ => rfl
    | none =>
      rw [decimalValue?, value, foldl_digits_none] at h
      simp at h

/-- All characters of a run with a value are counted. -/
theorem leadingDecimals_of_decimalValue? {digits : List Char} {n : Nat}
    (h : decimalValue? digits = some n) : leadingDecimals digits = digits.length := by
  have all := @List.takeWhile_append_of_pos _ (fun c => (digitValue? c).isSome) digits []
    (isSome_of_decimalValue? h)
  rw [List.append_nil, List.takeWhile_nil, List.append_nil] at all
  rw [leadingDecimals, all]

/-- Each further digit multiplies what is above a value by ten. -/
theorem lt_of_foldl_digits {digits : List Char} {value? : Option Nat} {n bound : Nat}
    (below : ∀ value, value? = some value → value < bound)
    (h : digits.foldl (fun value? c => value?.bind fun value => (digitValue? c).map (10 * value + ·))
      value? = some n) : n < bound * Nat.pow 10 digits.length := by
  induction digits generalizing value? bound with
  | nil =>
    show n < bound * 1
    rw [Nat.mul_one]
    exact below n h
  | cons c digits ih =>
    rw [List.foldl_cons] at h
    have next : n < bound * 10 * Nat.pow 10 digits.length := by
      refine ih (fun value here => ?_) h
      obtain ⟨before, known, here⟩ := Option.bind_eq_some_iff.mp here
      obtain ⟨digit, known', rfl⟩ := Option.map_eq_some_iff.mp here
      have small := below before known
      have small' := digitValue?_lt_ten known'
      omega
    rw [Nat.mul_assoc, Nat.mul_comm 10] at next
    exact next

/-- A run with a value has as many digits at least as the value has. -/
theorem length_toDigits_le {digits : List Char} {n : Nat} (h : decimalValue? digits = some n) :
    (Nat.toDigits 10 n).length ≤ digits.length := by
  cases digits with
  | nil => cases h
  | cons c digits =>
    refine (Nat.length_toDigits_le_iff (by decide) (Nat.succ_pos _)).mpr ?_
    rw [Nat.pow_succ']
    exact lt_of_foldl_digits (fun _ here => digitValue?_lt_ten here) h

end LittlePascal.Text

namespace LittlePascal

/-- How many decimal digits a whole number may have when it is converted from or to a text. The limit is a setting
of the machine that runs an edition: 4300 where nothing else is said, and it can be switched off. Reading and the
evaluation that writes down values take it into account; sessions and commands run with it off. -/
structure DigitLimit where
  /-- The largest number of digits; zero switches the limit off. -/
  most : Nat
  deriving DecidableEq, Repr

namespace DigitLimit

/-- No limit. -/
def off : DigitLimit := ⟨0⟩

/-- Whether a whole number may have so many digits. -/
def allows (limit : DigitLimit) (count : Nat) : Bool := limit.most == 0 || count ≤ limit.most

@[simp] theorem allows_off (count : Nat) : off.allows count = true := rfl

/-- With so many digits, fewer are allowed as well. -/
theorem allows_of_le {limit : DigitLimit} {few many : Nat} (le : few ≤ many)
    (allowed : limit.allows many = true) : limit.allows few = true := by
  simp only [allows, Bool.or_eq_true, beq_iff_eq, decide_eq_true_eq] at allowed ⊢
  omega

/-- A limit refuses exactly the counts above it, unless it is off. -/
theorem allows_eq_false_iff {limit : DigitLimit} {count : Nat} :
    limit.allows count = false ↔ limit ≠ off ∧ limit.most < count := by
  obtain ⟨most⟩ := limit
  simp only [allows, off, ne_eq, DigitLimit.mk.injEq, Bool.or_eq_false_iff, beq_eq_false_iff_ne,
    decide_eq_false_iff_not, Nat.not_le]

end DigitLimit

end LittlePascal
