import LittlePascal.Edition
import LittlePascal.Proofs.Lexing

/-! # How lexemes are written

Every lexeme has a spelling. What stands behind it decides whether it is read back: a word goes on as
long as characters of names follow, a number as long as digits or a point follow, and a colon before an
equals sign is something else. Lexemes written with single spaces between them are always read back.

Main definitions: `Lexeme.spelling`, `Lexeme.endsBefore`, `Lexeme.spaced`.

Main statements: `Edition.spells_spelling`, `Edition.rendered_spaced`. -/

namespace LittlePascal

/-! ## Numbers -/

namespace Text

/-- The ten digits have their values and are neither letters nor layout. -/
theorem isDigit_facts {c : Char} (h : c.isDigit = true) :
    digitValue? c = some (c.toNat - '0'.toNat) ∧ isLetter c = false ∧ isBlank c = false ∧
      c ≠ '\x7b' := by
  have all : ∀ n < 58, 48 ≤ n → digitValue? (Char.ofNat n) = some (n - '0'.toNat) ∧
      isLetter (Char.ofNat n) = false ∧ isBlank (Char.ofNat n) = false ∧ Char.ofNat n ≠ '\x7b' := by
    decide
  simp only [Char.isDigit, Bool.and_eq_true, decide_eq_true_eq] at h
  have lower : 48 ≤ c.toNat := h.1
  have upper : c.toNat ≤ 57 := h.2
  have facts := all c.toNat (by omega) lower
  rwa [Char.ofNat_toNat] at facts

/-- The value of a run of the ten digits. -/
theorem decimalValue?_eq {digits : List Char} (nonempty : digits ≠ [])
    (all : ∀ c ∈ digits, c.isDigit = true) :
    decimalValue? digits = some (Nat.ofDigitChars 10 digits 0) := by
  -- the value of the digits so far is carried along
  have carried : ∀ (rest : List Char) (value : Nat), (∀ c ∈ rest, c.isDigit = true) →
      rest.foldl (fun value? c => value?.bind fun value => (digitValue? c).map (10 * value + ·))
        (some value) = some (Nat.ofDigitChars 10 rest value) := by
    intro rest
    induction rest with
    | nil => exact fun value _ => rfl
    | cons c rest ih =>
      intro value all
      rw [List.foldl_cons, Option.bind_some, (isDigit_facts (all c List.mem_cons_self)).1,
        Option.map_some, ih _ fun c member => all c (List.mem_cons_of_mem _ member),
        Nat.ofDigitChars_cons]
  cases digits with
  | nil => exact absurd rfl nonempty
  | cons c rest =>
    rw [decimalValue?, (isDigit_facts (all c List.mem_cons_self)).1,
      carried rest _ fun c member => all c (List.mem_cons_of_mem _ member), Nat.ofDigitChars_cons,
      Nat.mul_zero, Nat.zero_add]

/-- The decimal digits of a number have its value. -/
theorem decimalValue?_toDigits (n : Nat) : decimalValue? (Nat.toDigits 10 n) = some n := by
  have digits : ∀ c ∈ Nat.toDigits 10 n, c.isDigit = true :=
    fun c => Nat.isDigit_of_mem_toDigits (by decide) (by decide)
  rw [decimalValue?_eq Nat.toDigits_ne_nil digits, Nat.ofDigitChars_ten_toDigits]

end Text

/-- A whole number: its digits, if they are not too many, up to a character that is neither a digit nor a
point. -/
theorem Lexis.spells_whole {lx : Lexis} {rest : List Char} (form : lx.numbers = .decimal) (n : Nat)
    (short : lx.limit.allows (Nat.toDigits 10 n).length = true)
    (ends : ∀ y ∈ rest.head?, Text.isDigit y = false ∧ y ≠ '.') :
    lx.Spells (Nat.toDigits 10 n) (.literal (.whole n)) rest := by
  have ten : ∀ x ∈ Nat.toDigits 10 n, x.isDigit = true :=
    fun x => Nat.isDigit_of_mem_toDigits (by decide) (by decide)
  have digit : ∀ x ∈ Nat.toDigits 10 n, Text.isDigit x = true := by
    intro x member
    rw [Text.isDigit, (Text.isDigit_facts (ten x member)).1]
    rfl
  have value := Text.decimalValue?_toDigits n
  -- the first digit begins neither layout nor a word
  obtain ⟨x, more, digits⟩ := List.exists_cons_of_ne_nil (Nat.toDigits_ne_nil (b := 10) (n := n))
  rw [digits] at ten digit value short ⊢
  obtain ⟨_, letter, blank, brace⟩ := Text.isDigit_facts (ten x List.mem_cons_self)
  have layout : lx.opensLayout x = false := by
    rw [Lexis.opensLayout, blank, beq_eq_false_iff_ne.mpr brace, Bool.and_false]
    rfl
  exact Lexis.spells_digits (.inr ⟨form, fun point => (ends '.' point).2 rfl⟩) layout letter digit value
    short fun y member => (ends y member).1

/-! ## Spellings -/

namespace Lexeme

/-- How a lexeme is written. -/
def spelling : Lexeme → String
  | .literal l => l.value.text
  | .name s => s
  | .operator o => o.spelling
  | .reserved r => r.spelling
  | .punctuation p => p.spelling

/-- A whole number is written with its decimal digits. -/
theorem toList_spelling_whole (n : Nat) :
    (literal (.whole n)).spelling.toList = Nat.toDigits 10 n := by
  have positive : ¬ (n : Int) < 0 := by omega
  show (wholeText n).toList = _
  rw [wholeText, if_neg positive, Int.natAbs_natCast, Nat.repr_eq_ofList_toDigits,
    String.toList_ofList]

/-- Whether a lexeme has ended when this character follows: a number does not go on with digits or a
point nor a word with characters of names, and a colon is not the beginning of the assignment mark. -/
def endsBefore : Lexeme → Char → Bool
  | .literal _, y => !Text.isDigit y && y != '.'
  | .name _, y | .reserved _, y | .operator .div, y => !Text.isNameChar y
  | .punctuation .colon, y => y != '='
  | _, _ => true

/-- Lexemes that are written in one way only: whole numbers, operators, reserved words and punctuation. -/
def isFixed : Lexeme → Bool
  | .literal (.real _) => false
  | .name _ => false
  | _ => true

/-- Whether a limit allows a lexeme to be written so. Only whole numbers are limited. -/
def fits (limit : DigitLimit) (word : List Char) : Lexeme → Bool
  | .literal (.whole _) => limit.allows word.length
  | _ => true

@[simp] theorem fits_off (word : List Char) (l : Lexeme) : l.fits .off word = true := by
  cases l with
  | literal l => cases l <;> rfl
  | _ => rfl

/-- Lexemes with single spaces between them. -/
def spaced (ls : List Lexeme) : String := " ".intercalate (ls.map spelling)

end Lexeme

namespace Edition

variable {limit : DigitLimit} {rest : List Char}

/-- A word that begins with a letter and is made of characters of names spells the lexeme that it stands
for. -/
theorem spells_ofWord {x : Char} {word : List Char} {l : Lexeme}
    (begins : (Text.isLetter x && !Edition.calls.lexis.opensLayout x) = true)
    (all : word.all Text.isNameChar = true) (same : Edition.calls.lexis.wordLexeme (x :: word) = l)
    (ends : ∀ y ∈ rest.head?, Text.isNameChar y = false) :
    (Edition.calls.lexis limit).Spells (x :: word) l rest := by
  rw [Bool.and_eq_true, Bool.not_eq_true'] at begins
  rw [← same]
  exact @Lexis.spells_word (Edition.calls.lexis limit) x rfl word rest begins.2 begins.1
    (List.all_eq_true.mp all) ends

/-- A mark of one character spells its lexeme. -/
theorem spells_ofMark {x : Char} {l : Lexeme}
    (begins : (Text.isLetter x || Text.isDigit x || Edition.calls.lexis.opensLayout x) = false)
    (same : Edition.calls.mark x = some l) (ends : x = ':' → rest.head? ≠ some '=') :
    (Edition.calls.lexis limit).Spells [x] l rest := by
  rw [Bool.or_eq_false_iff, Bool.or_eq_false_iff] at begins
  exact Lexis.spells_mark begins.2 begins.1.1 begins.1.2 same ends

/-- The spelling of a lexeme spells it, if the lexeme has ended there. -/
theorem spells_spelling {l : Lexeme} (fixed : l.isFixed = true)
    (fits : l.fits limit l.spelling.toList = true) (ends : ∀ y ∈ rest.head?, l.endsBefore y = true) :
    (Edition.calls.lexis limit).Spells l.spelling.toList l rest := by
  cases l with
  | literal l =>
    cases l with
    | whole n =>
      rw [Lexeme.toList_spelling_whole] at fits ⊢
      exact Lexis.spells_whole rfl n fits fun y member => by
        simpa [Lexeme.endsBefore] using ends y member
    | real x => cases fixed
  | name s => cases fixed
  | operator o =>
    cases o with
    | div =>
      exact spells_ofWord (by decide) (by decide) (by decide) fun y member => by
        simpa [Lexeme.endsBefore] using ends y member
    | _ => exact spells_ofMark (by decide) (by decide) fun colon => absurd colon (by decide)
  | reserved r =>
    have word : ∀ y ∈ rest.head?, Text.isNameChar y = false := fun y member => by
      simpa [Lexeme.endsBefore] using ends y member
    cases r <;> exact spells_ofWord (by decide) (by decide) (by decide) word
  | punctuation p =>
    cases p with
    | assign => exact Lexis.spells_assign rfl
    | colon =>
      -- an equals sign behind it would make an assignment mark of it
      exact spells_ofMark (by decide) (by decide) fun _ equals => by
        have other := ends _ equals
        cases other
    | _ => exact spells_ofMark (by decide) (by decide) fun colon => absurd colon (by decide)

/-- A lexeme before a character that ends it. -/
theorem rendered_fixed (l : Lexeme) (y : Char) {ls : List Lexeme} (fixed : l.isFixed = true)
    (fits : l.fits limit l.spelling.toList = true) (ends : l.endsBefore y = true)
    (h : (Edition.calls.lexis limit).Rendered (y :: rest) ls) :
    (Edition.calls.lexis limit).Rendered (l.spelling.toList ++ y :: rest) (l :: ls) := by
  refine .lexeme (spells_spelling fixed fits ?_) h
  rintro z ⟨⟩
  exact ends

/-- A mark of one character that is not a colon, whatever follows. -/
theorem rendered_mark (x : Char) {l : Lexeme} {ls : List Lexeme}
    (begins : (Text.isLetter x || Text.isDigit x || Edition.calls.lexis.opensLayout x) = false)
    (same : Edition.calls.mark x = some l) (other : x ≠ ':')
    (h : (Edition.calls.lexis limit).Rendered rest ls) :
    (Edition.calls.lexis limit).Rendered (x :: rest) (l :: ls) :=
  .lexeme (spells_ofMark begins same fun colon => absurd colon other) h

/-- A name of one letter before a character that ends it. -/
theorem rendered_letter (x y : Char) {s : String} {ls : List Lexeme}
    (begins : (Text.isLetter x && !Edition.calls.lexis.opensLayout x) = true)
    (same : Edition.calls.lexis.wordLexeme [x] = .name s) (ends : Text.isNameChar y = false)
    (h : (Edition.calls.lexis limit).Rendered (y :: rest) ls) :
    (Edition.calls.lexis limit).Rendered (x :: y :: rest) (.name s :: ls) := by
  refine .lexeme (spells_ofWord begins rfl same ?_) h
  rintro z ⟨⟩
  exact ends

/-- A lexeme ends before a space. -/
theorem endsBefore_space (l : Lexeme) : l.endsBefore ' ' = true := by
  cases l with
  | literal _ => rfl
  | name _ => rfl
  | operator o => cases o <;> rfl
  | reserved _ => rfl
  | punctuation p => cases p <;> rfl

/-- Lexemes with single spaces between them, and another space behind them, are rendered. -/
theorem rendered_spaced {ls ls' : List Lexeme} (nonempty : ls ≠ [])
    (fixed : ∀ l ∈ ls, l.isFixed = true) (fits : ∀ l ∈ ls, l.fits limit l.spelling.toList = true)
    (h : (Edition.calls.lexis limit).Rendered rest ls') :
    (Edition.calls.lexis limit).Rendered ((Lexeme.spaced ls).toList ++ ' ' :: rest) (ls ++ ls') := by
  have apart : ∀ (l : Lexeme) (more : List Char), ∀ y ∈ (' ' :: more).head?, l.endsBefore y = true := by
    rintro l more y ⟨⟩
    exact endsBefore_space l
  rw [Lexeme.spaced, String.toList_intercalate]
  induction ls with
  | nil => exact absurd rfl nonempty
  | cons l later ih =>
    have spells (more : List Char) :=
      @spells_spelling limit (' ' :: more) l (fixed l List.mem_cons_self) (fits l List.mem_cons_self)
        (apart l more)
    cases later with
    | nil =>
      rw [List.map_singleton, List.map_singleton, List.intercalate_singleton]
      exact .lexeme (spells rest) (.blank rfl h)
    | cons l' later =>
      have further := ih (List.cons_ne_nil _ _) (fun l member => fixed l (List.mem_cons_of_mem _ member))
        fun l member => fits l (List.mem_cons_of_mem _ member)
      simp only [List.map_cons, List.intercalate_cons_cons, List.append_assoc] at further ⊢
      exact .lexeme (spells _) (.blank rfl further)

end Edition

end LittlePascal
