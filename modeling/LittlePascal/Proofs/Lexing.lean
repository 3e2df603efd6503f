import LittlePascal.Proofs.Passage

/-! # Lexemes and their spellings

What the reading of a token yields where a lexeme is spelled out: a word, the assignment mark, a mark
of one character. Blanks before a lexeme make no difference. A text is `Rendered` from lexemes if it
spells them one after the other with blanks between them; such a text can be read, and its marks have
these lexemes.

Main definitions: `Lexis.Spells`, `Lexis.Rendered`.

Main statements: `Lexis.spells_word`, `Lexis.spells_digits`, `Lexis.spells_mark`, `Lexis.spells_assign`,
and `Lexis.Rendered.reads`. -/

namespace LittlePascal

namespace Lexis

variable {lx : Lexis} {c : Cursor} {x : Char} {rest : List Char}

/-! ## Layout -/

/-- A character that begins layout. -/
def opensLayout (lx : Lexis) (x : Char) : Bool := Text.isBlank x || (lx.comments && x == '\x7b')

/-- Before a character that begins no layout there is none. -/
theorem layoutLength_of_not_opens (h : lx.opensLayout x = false) :
    layoutLength lx.comments false (x :: rest) = some 0 := by
  rw [opensLayout, Bool.or_eq_false_iff] at h
  rw [layoutLength, h.1, h.2]
  rfl

/-- Layout of length zero is passed by staying. -/
theorem skipLayout_zero (h : layoutLength lx.comments false c.rest = some 0) :
    lx.skipLayout c = .ok () c := by
  unfold skipLayout
  split
  · rw [Work.get_bind, h]
    rfl
  · rfl

/-- At the end of the text there is no token but the end. -/
theorem token_nil (h : c.rest = []) : lx.token c = .ok .endOfText c := by
  have skipped : lx.skipLayout c = .ok () c := skipLayout_zero (by rw [h]; rfl)
  rw [token, Work.bind_of_ok skipped, Work.get_bind, h]
  rfl

/-- Where no layout begins the token begins. -/
theorem token_cons (h : c.rest = x :: rest) (layout : lx.opensLayout x = false) :
    lx.token c =
      (if lx.words && Text.isLetter x then lx.word
      else if Text.isDigit x then lx.number
      else if lx.assign && x == ':' && rest.head? == some '=' then do
        set (c.advanceBy 2)
        return .lexeme (.punctuation .assign) c.place
      else
        match lx.mark x with
        | some l => do
          set c.advance
          return .lexeme l c.place
        | none => reject) c := by
  have skipped : lx.skipLayout c = .ok () c := by
    refine skipLayout_zero ?_
    rw [h]
    exact layoutLength_of_not_opens layout
  obtain ⟨_, _, _, _⟩ := c
  cases h
  rw [token, Work.bind_of_ok skipped]
  rfl

/-- Behind layout there is no more layout. -/
theorem layoutLength_drop {comments inside : Bool} {text : List Char} {n : Nat}
    (h : layoutLength comments inside text = some n) :
    layoutLength comments false (text.drop n) = some 0 := by
  -- inside a comment or not, the rest of the layout is layout of the rest
  induction text generalizing inside n with
  | nil =>
    cases inside with
    | false =>
      cases h
      rfl
    | true => cases h
  | cons x rest ih =>
    cases inside with
    | false =>
      by_cases blank : Text.isBlank x = true
      · rw [layoutLength, if_pos blank] at h
        obtain ⟨m, more, rfl⟩ := Option.map_eq_some_iff.mp h
        exact ih more
      · by_cases opened : (comments && x == '\x7b') = true
        · rw [layoutLength, if_neg blank, if_pos opened] at h
          obtain ⟨m, more, rfl⟩ := Option.map_eq_some_iff.mp h
          exact ih more
        · have zero : layoutLength comments false (x :: rest) = some 0 := by
            rw [layoutLength, if_neg blank, if_neg opened]
          rw [zero] at h
          cases h
          exact zero
    | true =>
      rw [layoutLength] at h
      obtain ⟨m, more, rfl⟩ := Option.map_eq_some_iff.mp h
      exact ih more

/-- Layout that ends is passed. -/
theorem skipLayout_some (blanks : lx.blanks = true) {n : Nat}
    (h : layoutLength lx.comments false c.rest = some n) :
    lx.skipLayout c = .ok () (c.advanceBy n) := by
  rw [skipLayout, if_pos blanks, Work.get_bind, h]
  rfl

/-- Layout before a token makes no difference to it. -/
theorem token_layout (blanks : lx.blanks = true) {n : Nat}
    (h : layoutLength lx.comments false c.rest = some n) :
    lx.token c = lx.token (c.advanceBy n) := by
  have none : lx.skipLayout (c.advanceBy n) = .ok () (c.advanceBy n) := by
    refine skipLayout_zero ?_
    rw [Cursor.advanceBy_rest]
    exact layoutLength_drop h
  rw [token, Work.bind_of_ok (skipLayout_some blanks h), Work.bind_of_ok none]

/-- Where layout does not end no token is read. -/
theorem token_unclosed (blanks : lx.blanks = true)
    (h : layoutLength lx.comments false c.rest = none) :
    lx.token c = .error .unclosedComment c := by
  have failed : lx.skipLayout c = .error .unclosedComment c := by
    rw [skipLayout, if_pos blanks, Work.get_bind, h]
    rfl
  rw [token, Work.bind_of_error failed]

/-- A token is read only where layout ends. -/
theorem layoutLength_of_token (blanks : lx.blanks = true) {t : Token} {d : Cursor}
    (h : lx.token c = .ok t d) : ∃ n, layoutLength lx.comments false c.rest = some n := by
  cases found : layoutLength lx.comments false c.rest with
  | some n => exact ⟨n, rfl⟩
  | none =>
    rw [token_unclosed blanks found] at h
    cases h

/-- A blank before a token makes no difference to it. -/
theorem token_blank (blanks : lx.blanks = true) (left : c.rest = x :: rest)
    (blank : Text.isBlank x = true) {t : Token} {d : Cursor} (h : lx.token c.advance = .ok t d) :
    lx.token c = .ok t d := by
  obtain ⟨n, length⟩ := layoutLength_of_token blanks h
  have longer : layoutLength lx.comments false c.rest = some (n + 1) := by
    rw [Cursor.advance_rest, left, List.tail_cons] at length
    rw [left, layoutLength, if_pos blank, length]
    rfl
  rw [token_layout blanks longer, Cursor.advanceBy_succ, ← token_layout blanks length]
  exact h

/-! ## Spellings -/

/-- Characters spell a lexeme before others if a cursor at them reads the lexeme and stops behind
them. -/
def Spells (lx : Lexis) (word : List Char) (l : Lexeme) (rest : List Char) : Prop :=
  word ≠ [] ∧ ∀ c : Cursor, c.rest = word ++ rest →
    lx.token c = .ok (.lexeme l c.place) (c.advanceBy word.length)

/-- The longest run of a class, if all of a word is of the class and what follows it is not. -/
theorem takeWhile_word {p : Char → Bool} {word rest : List Char} (all : ∀ x ∈ word, p x = true)
    (ends : ∀ x ∈ rest.head?, p x = false) : (word ++ rest).takeWhile p = word := by
  induction word with
  | nil =>
    cases rest with
    | nil => rfl
    | cons x rest =>
      rw [List.nil_append, List.takeWhile_cons, ends x rfl]
      rfl
  | cons x word ih =>
    rw [List.cons_append, List.takeWhile_cons, all x List.mem_cons_self]
    simp only [if_true]
    rw [ih fun y member => all y (List.mem_cons_of_mem x member)]

/-- A number begins with a digit that is no letter. -/
theorem token_number (left : c.rest = x :: rest) (layout : lx.opensLayout x = false)
    (letter : Text.isLetter x = false) (digit : Text.isDigit x = true) :
    lx.token c = (lx.literal >>= fun l => pure (.lexeme (.literal l) c.place)) c := by
  rw [token_cons left layout, letter, digit, Bool.and_false]
  simp only [Bool.false_eq_true, if_false, if_true]
  rw [number, Work.get_bind]

/-- A word: a letter and then characters of names, up to a character that is none. -/
theorem spells_word (words : lx.words = true) {word rest : List Char}
    (layout : lx.opensLayout x = false) (letter : Text.isLetter x = true)
    (all : ∀ y ∈ word, Text.isNameChar y = true)
    (ends : ∀ y ∈ rest.head?, Text.isNameChar y = false) :
    lx.Spells (x :: word) (lx.wordLexeme (x :: word)) rest := by
  refine ⟨List.cons_ne_nil _ _, fun c left => ?_⟩
  have whole : ∀ y ∈ x :: word, Text.isNameChar y = true := by
    intro y member
    rcases List.mem_cons.mp member with rfl | member
    · exact Text.isNameChar_of_isLetter letter
    · exact all y member
  rw [token_cons left layout, words, letter]
  simp only [Bool.and_self, if_true]
  rw [Lexis.word, Work.get_bind, Work.bind_of_ok (Scan.run_eq _ _), left, takeWhile_word whole ends]
  rfl

/-- A mark of one character. -/
theorem spells_mark {l : Lexeme} (layout : lx.opensLayout x = false)
    (letter : Text.isLetter x = false) (digit : Text.isDigit x = false) (mark : lx.mark x = some l)
    (noAssign : x = ':' → rest.head? ≠ some '=') : lx.Spells [x] l rest := by
  refine ⟨List.cons_ne_nil _ _, fun c left => ?_⟩
  have other : (lx.assign && x == ':' && rest.head? == some '=') = false := by
    by_cases colon : x = ':'
    · rw [beq_eq_false_iff_ne.mpr (noAssign colon), Bool.and_false]
    · rw [beq_eq_false_iff_ne.mpr colon, Bool.and_false, Bool.false_and]
  rw [List.singleton_append] at left
  rw [token_cons left layout, letter, digit, other]
  simp only [Bool.and_false, Bool.false_eq_true, if_false, mark]
  rfl

/-- A colon and an equals sign spell the assignment mark. -/
theorem spells_assign (assign : lx.assign = true) :
    lx.Spells [':', '='] (.punctuation .assign) rest := by
  refine ⟨List.cons_ne_nil _ _, fun c left => ?_⟩
  have layout : lx.opensLayout ':' = false := by
    rw [opensLayout, show (':' == '\x7b') = false from rfl, Bool.and_false]
    rfl
  have letter : Text.isLetter ':' = false := rfl
  have digit : Text.isDigit ':' = false := rfl
  rw [token_cons left layout, letter, digit, assign, Bool.and_false]
  rfl

end Lexis

namespace Scan

variable {limit : DigitLimit} {c : Cursor} {rest : List Char}

/-- A run of digits that neither a digit nor a point follows is a whole number, if it has a value. -/
theorem decimal_whole {digits : List Char} (left : c.rest = digits ++ rest)
    (all : ∀ y ∈ digits, Text.isDigit y = true)
    (ends : ∀ y ∈ rest.head?, Text.isDigit y = false ∧ y ≠ '.') :
    decimal limit c = (wholeOf limit digits >>= fun n => pure (.whole n)) (c.advanceBy digits.length) := by
  have run : c.rest.takeWhile Text.isDigit = digits := by
    rw [left]
    exact Lexis.takeWhile_word all fun y member => (ends y member).1
  have noPoint : (c.advanceBy digits.length).char? ≠ some '.' := by
    rw [Cursor.char?, Cursor.advanceBy_rest, left, List.drop_left]
    exact fun point => (ends '.' point).2 rfl
  rw [decimal, Work.bind_of_ok (run_eq _ _), run, Work.get_bind, if_neg noPoint]

/-- Digits around a point that no digit follows are a real number, if they have a value. -/
theorem decimal_real {before after : List Char} (left : c.rest = before ++ '.' :: (after ++ rest))
    (all : ∀ y ∈ before, Text.isDigit y = true) (all' : ∀ y ∈ after, Text.isDigit y = true)
    (ends : ∀ y ∈ rest.head?, Text.isDigit y = false) :
    decimal limit c = (realOf before after >>= fun x => pure (.real x))
      (c.advanceBy (before ++ '.' :: after).length) := by
  have run : c.rest.takeWhile Text.isDigit = before := by
    rw [left]
    refine Lexis.takeWhile_word all ?_
    rintro y ⟨⟩
    rfl
  have behind : (c.advanceBy before.length).rest = '.' :: (after ++ rest) := by
    rw [Cursor.advanceBy_rest, left, List.drop_left]
  have point : (c.advanceBy before.length).char? = some '.' := by
    rw [Cursor.char?, behind]
    rfl
  have run' : (c.advanceBy before.length).advance.rest.takeWhile Text.isDigit = after := by
    rw [Cursor.advance_rest, behind]
    exact Lexis.takeWhile_word all' ends
  have place : (c.advanceBy before.length).advance.advanceBy after.length =
      c.advanceBy (before ++ '.' :: after).length := by
    rw [← Cursor.advanceBy_succ, ← Cursor.advanceBy_add, List.length_append, List.length_cons]
  rw [decimal, Work.bind_of_ok (run_eq _ _), run, Work.get_bind, if_pos point, advance,
    Work.modify_bind, Work.bind_of_ok (run_eq _ _), run', place]

end Scan

namespace Lexis

variable {lx : Lexis}

/-- A whole number: digits that have a value and are not too many, up to a character that is no digit and,
where numbers may have a point, no point either. -/
theorem spells_digits {x : Char} {digits rest : List Char} {n : Nat}
    (form : lx.numbers = .whole ∨ lx.numbers = .decimal ∧ rest.head? ≠ some '.')
    (layout : lx.opensLayout x = false) (letter : Text.isLetter x = false)
    (all : ∀ y ∈ x :: digits, Text.isDigit y = true)
    (value : Text.decimalValue? (x :: digits) = some n)
    (short : lx.limit.allows (x :: digits).length = true)
    (ends : ∀ y ∈ rest.head?, Text.isDigit y = false) :
    lx.Spells (x :: digits) (.literal (.whole n)) rest := by
  refine ⟨List.cons_ne_nil _ _, fun c left => ?_⟩
  have read : lx.literal c = .ok (.whole n) (c.advanceBy (x :: digits).length) := by
    rcases form with form | ⟨form, noPoint⟩
    · have run : c.rest.takeWhile Text.isDigit = x :: digits := by
        rw [left, takeWhile_word all ends]
      simp only [literal, form]
      rw [Scan.whole, bind_assoc, Work.bind_of_ok (Scan.run_eq _ _), run,
        Work.bind_of_ok (Scan.wholeOf_of_value value short _)]
      rfl
    · have stops : ∀ y ∈ rest.head?, Text.isDigit y = false ∧ y ≠ '.' := by
        refine fun y member => ⟨ends y member, ?_⟩
        rintro rfl
        exact noPoint member
      simp only [literal, form]
      rw [Scan.decimal_whole left all stops, Work.bind_of_ok (Scan.wholeOf_of_value value short _)]
      rfl
  rw [token_number left layout letter (all x List.mem_cons_self), Work.bind_of_ok read]
  rfl

/-! ## Rendered texts -/

/-- A text that spells lexemes one after the other, with blanks before, between and behind them. -/
inductive Rendered (lx : Lexis) : List Char → List Lexeme → Prop where
  | nil : Rendered lx [] []
  | blank {x : Char} {text : List Char} {ls : List Lexeme} :
      Text.isBlank x = true → Rendered lx text ls → Rendered lx (x :: text) ls
  | lexeme {word text : List Char} {l : Lexeme} {ls : List Lexeme} :
      lx.Spells word l text → Rendered lx text ls → Rendered lx (word ++ text) (l :: ls)

/-- A token stands before a rendered text, and its marks have the lexemes of the text. -/
theorem Rendered.passage (blanks : lx.blanks = true) {text : List Char} {ls : List Lexeme}
    (h : lx.Rendered text ls) {c : Cursor} (left : c.rest = text) :
    ∃ t d ms s, lx.token c = .ok t d ∧ Passage lx ⟨t, d⟩ ms s ∧ s.token = .endOfText ∧
      ms.map Mark.lexeme = ls := by
  induction h generalizing c with
  | nil => exact ⟨.endOfText, c, [], _, token_nil left, .nil _, rfl, rfl⟩
  | blank blank _ ih =>
    obtain ⟨t, d, ms, s, read, rest⟩ := ih (c := c.advance) (by rw [Cursor.advance_rest, left]; rfl)
    exact ⟨t, d, ms, s, token_blank blanks left blank read, rest⟩
  | @lexeme word text l ls spells _ ih =>
    obtain ⟨t, d, ms, s, read, passage, last, lexemes⟩ := ih (c := c.advanceBy word.length)
      (by rw [Cursor.advanceBy_rest, left, List.drop_left])
    have step : Parse.next lx ⟨.lexeme l c.place, c.advanceBy word.length⟩ = .ok () ⟨t, d⟩ := by
      rw [Parse.next]
      simp only [read]
    exact ⟨_, _, ⟨l, c.place, _⟩ :: ms, s, spells.2 c left, .cons rfl rfl step passage, last,
      by rw [List.map_cons, lexemes]⟩

/-- A text from which nothing is left out is not empty. -/
theorem Rendered.text_ne_nil {text : List Char} {ls : List Lexeme} (h : lx.Rendered text ls)
    (nonempty : ls ≠ []) : text ≠ [] := by
  cases h with
  | nil => exact absurd rfl nonempty
  | blank _ _ => exact List.cons_ne_nil _ _
  | lexeme spells _ => exact List.append_ne_nil_of_left_ne_nil spells.1 _

/-- A rendered text can be read, and its marks have the lexemes it was rendered from. -/
theorem Rendered.reads (blanks : lx.blanks = true) {text : String} {ls : List Lexeme}
    (h : lx.Rendered text.toList ls) (nonempty : ls ≠ []) :
    ∃ ms, lx.Reads text ms ∧ ms.map Mark.lexeme = ls := by
  obtain ⟨t, d, ms, s, read, passage, last, lexemes⟩ := h.passage blanks
    (c := .start text.toList) rfl
  have something : text ≠ "" := by
    rintro rfl
    exact h.text_ne_nil nonempty rfl
  exact ⟨ms, ⟨⟨t, d⟩, s, openReading_of_token something read, passage, last⟩, lexemes⟩

end Lexis

end LittlePascal
