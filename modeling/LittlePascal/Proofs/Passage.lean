import LittlePascal.Attempt

/-! # Passages

A grammar rule sees a text only through its tokens and, in one place, through the character that
directly follows a name. A `Mark` is what it sees of one token. A `Passage` leads from one reading to
a later one over the marks of the tokens that are passed on the way; every successful rule makes one,
and every statement about rules is a statement about passages.

Main definitions:
* `Mark`, `Passage`: a token as a rule sees it, and the way from one reading to another;
* `Lexis.Reads`: a text can be read to its end, and these are its marks.

Main statements:
* `Lexis.token_shortens`: every lexeme uses up characters;
* `Passage.append_iff`: passages are cut and joined where their marks are;
* `Passage.length_lt_budget`: no passage is as long as the budget of the reading it starts from. -/

namespace LittlePascal

/-! ## Outcomes of work in sequence

Reading, running and analysing all keep a state and may fail. Work in sequence succeeds exactly if its
parts do, one after the other. -/

namespace Work

variable {ε σ α β : Type} {work : EStateM ε σ α} {further : α → EStateM ε σ β} {s t u : σ}

/-- Work in sequence succeeds exactly if both parts do. -/
theorem bind_eq_ok {b : β} :
    (work >>= further) s = .ok b u ↔ ∃ a t, work s = .ok a t ∧ further a t = .ok b u := by
  show EStateM.bind work further s = .ok b u ↔ _
  unfold EStateM.bind
  cases h : work s with
  | ok a t =>
    constructor
    · intro later
      exact ⟨a, t, rfl, later⟩
    · rintro ⟨a', t', same, later⟩
      cases same
      exact later
  | error e t => simp

/-- After success the work goes on. -/
theorem bind_of_ok {a : α} (h : work s = .ok a t) : (work >>= further) s = further a t := by
  show EStateM.bind work further s = _
  rw [EStateM.bind, h]

/-- After a failure it does not. -/
theorem bind_of_error {e : ε} (h : work s = .error e t) :
    (work >>= further) s = .error e t := by
  show EStateM.bind work further s = _
  rw [EStateM.bind, h]

/-- Work that is chosen by cases, apart from the state it is done in. -/
theorem exists_chosen {outcome : EStateM.Result ε σ α} (h : work s = outcome) :
    ∃ chosen, work = chosen ∧ chosen s = outcome :=
  ⟨work, rfl, h⟩

/-- Work with the same outcome is followed by the same. -/
theorem bind_congr {work' : EStateM ε σ α} (h : work s = work' t) :
    (work >>= further) s = (work' >>= further) t := by
  show EStateM.bind work further s = EStateM.bind work' further t
  rw [EStateM.bind, EStateM.bind, h]

/-- Work that is done for its result alone has one exactly if it succeeds. -/
theorem run'_eq_some {a : α} : work.run' s = some a ↔ ∃ t, work s = .ok a t := by
  delta EStateM.run' EStateM.run
  cases work s <;> simp

/-- Looking at the state leaves it as it is. -/
theorem get_bind {further : σ → EStateM ε σ β} : (get >>= further) s = further s s := rfl

/-- After setting the state the work goes on with it. -/
theorem set_bind {further : Unit → EStateM ε σ β} : (set t >>= further) s = further () t := rfl

/-- After changing the state the work goes on with what it became. -/
theorem modify_bind {change : σ → σ} {further : Unit → EStateM ε σ β} :
    (modify change >>= further) s = further () (change s) := rfl

end Work

/-! ## Tokens use up characters -/

namespace Cursor

/-- Steps can be taken in two parts. -/
theorem advanceBy_add (m n : Nat) (c : Cursor) :
    c.advanceBy (m + n) = (c.advanceBy m).advanceBy n := by
  induction m generalizing c with
  | zero => rw [Nat.zero_add, advanceBy_zero]
  | succ m ih => rw [Nat.succ_add, advanceBy_succ, advanceBy_succ, ih]

end Cursor

/-- Whether a limit allows the digits of a literal. -/
def Literal.fits (limit : DigitLimit) : Literal → Bool
  | .whole n => limit.allows (Nat.toDigits 10 n).length
  | .real _ => true

namespace Scan

/-- A run of characters is the longest one of its class. -/
theorem run_eq (p : Char → Bool) (c : Cursor) :
    run p c = .ok (c.rest.takeWhile p) (c.advanceBy (c.rest.takeWhile p).length) := rfl

/-- Digits with a value are read as that value if there are not too many of them. -/
theorem wholeOf_of_value {limit : DigitLimit} {digits : List Char} {n : Nat}
    (value : Text.decimalValue? digits = some n) (short : limit.allows digits.length = true) (c : Cursor) :
    wholeOf limit digits c = .ok n c := by
  rw [wholeOf, Text.leadingDecimals_of_decimalValue? value, if_pos short, value]
  rfl

/-- Too many decimal digits are not read. -/
theorem wholeOf_of_long {limit : DigitLimit} {digits : List Char}
    (long : limit.allows (Text.leadingDecimals digits) = false) (c : Cursor) :
    wholeOf limit digits c =
      .error (.malformedWhole (.tooLong limit.most (Text.leadingDecimals digits))) c := by
  rw [wholeOf, long]
  rfl

/-- The value of digits is found without moving on, and only if there are not too many of them. -/
theorem wholeOf_ok {limit : DigitLimit} {digits : List Char} {n : Nat} {c d : Cursor}
    (h : wholeOf limit digits c = .ok n d) :
    d = c ∧ Text.decimalValue? digits = some n ∧ limit.allows digits.length = true := by
  unfold wholeOf at h
  split at h
  · rename_i short
    cases value : Text.decimalValue? digits with
    | none =>
      rw [value] at h
      cases h
    | some m =>
      rw [value] at h
      cases h
      rw [Text.leadingDecimals_of_decimalValue? value] at short
      exact ⟨rfl, rfl, short⟩
  · cases h

/-- The number that digits are read as has no more of them than the limit allows. -/
theorem fits_of_wholeOf {limit : DigitLimit} {digits : List Char} {n : Nat} {c d : Cursor}
    (h : wholeOf limit digits c = .ok n d) : (Literal.whole n).fits limit = true := by
  obtain ⟨_, value, short⟩ := wholeOf_ok h
  exact DigitLimit.allows_of_le (Text.length_toDigits_le value) short

/-- The value of digits around a point is found without moving on. -/
theorem realOf_ok {before after : List Char} {x : Float} {c d : Cursor}
    (h : realOf before after c = .ok x d) : d = c := by
  cases value : Text.decimalValue? (before ++ after) with
  | none =>
    simp only [realOf, value] at h
    cases h
  | some n =>
    simp only [realOf, value] at h
    cases h
    rfl

/-- A number with or without a point moves past its first run of digits at least. -/
theorem decimal_ok {limit : DigitLimit} {l : Literal} {c d : Cursor} (h : decimal limit c = .ok l d) :
    l.fits limit = true ∧ ∃ n, d = c.advanceBy n ∧ (c.rest.takeWhile Text.isDigit).length ≤ n := by
  unfold decimal at h
  obtain ⟨before, c₁, ran, h⟩ := Work.bind_eq_ok.mp h
  rw [run_eq] at ran
  cases ran
  rw [Work.get_bind] at h
  split at h
  · -- a point: one character and a second run of digits
    rw [advance, Work.modify_bind] at h
    obtain ⟨after, c₂, ran, h⟩ := Work.bind_eq_ok.mp h
    rw [run_eq] at ran
    cases ran
    obtain ⟨x, c₃, value, h⟩ := Work.bind_eq_ok.mp h
    cases h
    rw [realOf_ok value, ← Cursor.advanceBy_succ, ← Cursor.advanceBy_add]
    exact ⟨rfl, _, rfl, Nat.le_add_right _ _⟩
  · obtain ⟨n, c₂, value, h⟩ := Work.bind_eq_ok.mp h
    cases h
    exact ⟨fits_of_wholeOf value, _, (wholeOf_ok value).1, Nat.le_refl _⟩

end Scan

namespace Lexis

variable {lx : Lexis} {c d : Cursor}

/-- Layout is passed by moving on. -/
theorem skipLayout_ok (h : lx.skipLayout c = .ok () d) : ∃ n, d = c.advanceBy n := by
  unfold skipLayout at h
  split at h
  · rw [Work.get_bind] at h
    cases found : layoutLength lx.comments false c.rest with
    | none =>
      rw [found] at h
      cases h
    | some n =>
      rw [found] at h
      cases h
      exact ⟨n, rfl⟩
  · cases h
    exact ⟨0, rfl⟩

/-- A literal that begins with a digit uses up at least that digit, and has no more digits than the limit
allows. -/
theorem literal_ok {l : Literal} {x : Char} {rest : List Char} (hd : c.rest = x :: rest)
    (digit : Text.isDigit x = true) (h : lx.literal c = .ok l d) :
    l.fits lx.limit = true ∧ ∃ n, 0 < n ∧ d = c.advanceBy n := by
  have nonempty : 0 < (c.rest.takeWhile Text.isDigit).length := by
    simp [hd, digit]
  cases form : lx.numbers with
  | digit =>
    simp only [literal, form] at h
    obtain ⟨n, c₁, h, h'⟩ := Work.bind_eq_ok.mp h
    cases h'
    rw [Scan.digit, Work.get_bind] at h
    obtain ⟨_, c₂, value, h⟩ := Work.bind_eq_ok.mp h
    rw [Scan.advance, Work.modify_bind] at h
    cases h
    rw [(Scan.wholeOf_ok value).1]
    exact ⟨Scan.fits_of_wholeOf value, 1, Nat.one_pos, rfl⟩
  | whole =>
    simp only [literal, form] at h
    obtain ⟨n, c₁, h, h'⟩ := Work.bind_eq_ok.mp h
    cases h'
    unfold Scan.whole at h
    obtain ⟨_, c₂, ran, value⟩ := Work.bind_eq_ok.mp h
    rw [Scan.run_eq] at ran
    cases ran
    exact ⟨Scan.fits_of_wholeOf value, _, nonempty, (Scan.wholeOf_ok value).1⟩
  | decimal =>
    simp only [literal, form] at h
    obtain ⟨fits, n, rfl, longer⟩ := Scan.decimal_ok h
    exact ⟨fits, n, Nat.lt_of_lt_of_le nonempty longer, rfl⟩

/-- The lexemes that can be read: those of words, the literals that the limit allows, the assignment mark and
the marks of one character. -/
def Makes (lx : Lexis) (l : Lexeme) : Prop :=
  (∃ word, l = lx.wordLexeme word) ∨ (∃ n, n.fits lx.limit = true ∧ l = .literal n) ∨ l = .punctuation .assign ∨
    ∃ x, lx.mark x = some l

/-- What the reading of a token comes to: the end of the text with nothing left, or a lexeme that
begins behind the layout and uses up characters. -/
theorem token_ok {t : Token} (h : lx.token c = .ok t d) :
    ∃ m, lx.skipLayout c = .ok () (c.advanceBy m) ∧
      ((t = .endOfText ∧ d = c.advanceBy m ∧ d.rest = []) ∨
        ∃ l n, t = .lexeme l (c.advanceBy m).place ∧ lx.Makes l ∧ 0 < n ∧
          d = c.advanceBy (m + n) ∧ (c.advanceBy m).rest ≠ []) := by
  unfold token at h
  obtain ⟨_, c₁, skipped, h⟩ := Work.bind_eq_ok.mp h
  obtain ⟨m, rfl⟩ := skipLayout_ok skipped
  refine ⟨m, skipped, ?_⟩
  rw [Work.get_bind] at h
  cases left : (c.advanceBy m).rest with
  | nil =>
    rw [left] at h
    cases h
    exact .inl ⟨rfl, rfl, left⟩
  | cons x rest =>
    rw [left] at h
    dsimp only at h
    refine .inr ?_
    split at h
    · -- a word: its first letter at least
      rename_i letter
      rw [word, Work.get_bind] at h
      obtain ⟨word, c₂, ran, h⟩ := Work.bind_eq_ok.mp h
      rw [Scan.run_eq] at ran
      cases ran
      cases h
      rw [Bool.and_eq_true] at letter
      refine ⟨_, _, rfl, .inl ⟨_, rfl⟩, ?_, (Cursor.advanceBy_add _ _ _).symm,
        List.cons_ne_nil _ _⟩
      rw [left]
      simp [Text.isNameChar_of_isLetter letter.2]
    · split at h
      · -- a number: its first digit at least
        rename_i digit
        rw [number, Work.get_bind] at h
        obtain ⟨l, c₂, value, h⟩ := Work.bind_eq_ok.mp h
        cases h
        obtain ⟨fits, n, positive, rfl⟩ := literal_ok left digit value
        exact ⟨_, n, rfl, .inr (.inl ⟨l, fits, rfl⟩), positive, (Cursor.advanceBy_add _ _ _).symm,
          List.cons_ne_nil _ _⟩
      · split at h
        · -- the assignment mark
          rw [Work.set_bind] at h
          cases h
          exact ⟨_, 2, rfl, .inr (.inr (.inl rfl)), Nat.two_pos, (Cursor.advanceBy_add _ _ _).symm,
            List.cons_ne_nil _ _⟩
        · -- a mark of one character
          cases marked : lx.mark x with
          | none =>
            simp only [marked] at h
            cases h
          | some l =>
            simp only [marked] at h
            cases h
            exact ⟨_, 1, rfl, .inr (.inr (.inr ⟨x, marked⟩)), Nat.one_pos,
              (Cursor.advanceBy_add m 1 c).symm, List.cons_ne_nil _ _⟩

/-- Every lexeme uses up characters. -/
theorem token_shortens {l : Lexeme} {p : Place} (h : lx.token c = .ok (.lexeme l p) d) :
    d.rest.length < c.rest.length := by
  obtain ⟨m, _, ⟨same, _⟩ | ⟨_, n, _, _, positive, rfl, here⟩⟩ := token_ok h
  · cases same
  · rw [Cursor.advanceBy_rest, ne_eq, List.drop_eq_nil_iff] at here
    rw [Cursor.advanceBy_rest, List.length_drop]
    omega

/-- Every lexeme that is read is one that can be read. -/
theorem makes_of_token {l : Lexeme} {p : Place} (h : lx.token c = .ok (.lexeme l p) d) :
    lx.Makes l := by
  obtain ⟨m, _, ⟨same, _⟩ | ⟨_, n, same, makes, _⟩⟩ := token_ok h
  · cases same
  · cases same
    exact makes

/-- At the end of the text nothing is left. -/
theorem token_end (h : lx.token c = .ok .endOfText d) : d.rest = [] := by
  obtain ⟨m, _, ⟨_, _, none⟩ | ⟨_, _, other, _⟩⟩ := token_ok h
  · exact none
  · cases other

end Lexis

/-! ## Marks and passages -/

/-- What a grammar rule sees of a token: the lexeme, its place, and the character directly behind
it. -/
structure Mark where
  lexeme : Lexeme
  place : Place
  behind : Option Char
  deriving DecidableEq, Repr

/-- The token of a mark. -/
def Mark.token (m : Mark) : Token := .lexeme m.lexeme m.place

/-- A mark is what a reading shows: its token and the character behind it. -/
theorem Mark.eq_of_shown {m n : Mark} {r : Reading} (token : r.token = m.token) (behind : r.cursor.char? = m.behind)
    (token' : r.token = n.token) (behind' : r.cursor.char? = n.behind) : m = n := by
  obtain ⟨l, p, b⟩ := m
  obtain ⟨l', p', b'⟩ := n
  rw [token] at token'
  rw [behind] at behind'
  cases token'
  cases behind'
  rfl

/-- The way from one reading to a later one over the marks of the tokens that are passed. -/
inductive Passage (lx : Lexis) : Reading → List Mark → Reading → Prop where
  | nil (r : Reading) : Passage lx r [] r
  | cons {m : Mark} {ms : List Mark} {r s t : Reading} : r.token = m.token →
      r.cursor.char? = m.behind → Parse.next lx r = .ok () s → Passage lx s ms t →
      Passage lx r (m :: ms) t

/-- A text can be read to its end, and these are the marks of its tokens. -/
def Lexis.Reads (lx : Lexis) (text : String) (ms : List Mark) : Prop :=
  ∃ r s, lx.openReading text = .ok r ∧ Passage lx r ms s ∧ s.token = .endOfText

/-- What a step to the next token comes to. -/
theorem Parse.next_ok {lx : Lexis} {r s : Reading} {u : Unit} (h : Parse.next lx r = .ok u s) :
    lx.token r.cursor = .ok s.token s.cursor := by
  unfold Parse.next at h
  split at h
  · rename_i found
    cases h
    exact found
  · cases h

/-- A step fails where the reader of tokens does. -/
theorem Parse.next_error {lx : Lexis} {r s : Reading} {fault : Fault} (h : Parse.next lx r = .error fault s) :
    ∃ d, lx.token r.cursor = .error fault d := by
  unfold Parse.next at h
  split at h
  · cases h
  · rename_i failed
    cases h
    exact ⟨_, failed⟩

/-- The first token of a text is read like any other. -/
theorem Lexis.token_of_openReading {lx : Lexis} {text : String} {r : Reading}
    (h : lx.openReading text = .ok r) : ∃ c, lx.token c = .ok r.token r.cursor := by
  cases opened : lx.openText text with
  | error fault =>
    simp only [openReading, opened, bind, Except.bind] at h
    cases h
  | ok c =>
    simp only [openReading, opened, bind, Except.bind] at h
    refine ⟨c, ?_⟩
    split at h
    · rename_i found
      cases h
      exact found
    · cases h

/-- A text that is not empty is begun at its first character. -/
theorem Lexis.openText_of_ne {lx : Lexis} {text : String} (nonempty : text ≠ "") :
    lx.openText text = .ok (.start text.toList) := by
  have filled : text.isEmpty = false := by
    rw [← Bool.not_eq_true, String.isEmpty_iff]
    exact nonempty
  rw [openText, filled]
  rfl

/-- A text that is not empty is begun with its first token. -/
theorem Lexis.openReading_of_token {lx : Lexis} {text : String} {t : Token} {c : Cursor} (nonempty : text ≠ "")
    (read : lx.token (.start text.toList) = .ok t c) : lx.openReading text = .ok ⟨t, c⟩ := by
  simp only [openReading, openText_of_ne nonempty, bind, Except.bind, read]

/-- A text is begun exactly if it may be empty or is not, and its first token can be read. -/
theorem Lexis.openReading_eq_ok {lx : Lexis} {text : String} {r : Reading} :
    lx.openReading text = .ok r ↔
      (text.isEmpty && !lx.emptyText) = false ∧
        lx.token (.start text.toList) = .ok r.token r.cursor := by
  cases empty : text.isEmpty && !lx.emptyText with
  | true => simp [openReading, openText, empty, bind, Except.bind]
  | false =>
    simp only [openReading, openText, empty, bind, Except.bind, Bool.false_eq_true, if_false, true_and]
    cases lx.token (.start text.toList) with
    | error fault d => simp
    | ok t d =>
      constructor
      · intro opened
        cases opened
        rfl
      · intro read
        cases read
        rfl

/-- A text cannot be opened if it is empty or if its first token cannot be read. -/
theorem Lexis.fault_of_openReading {lx : Lexis} {text : String} {fault : Fault}
    (h : lx.openReading text = .error fault) : fault = .emptyText ∨ ∃ c d, lx.token c = .error fault d := by
  cases opened : lx.openText text with
  | error fault =>
    simp only [openReading, opened, bind, Except.bind] at h
    unfold openText at opened
    split at opened
    · cases opened
      cases h
      exact .inl rfl
    · cases opened
  | ok c =>
    simp only [openReading, opened, bind, Except.bind] at h
    split at h
    · cases h
    · rename_i failed
      cases h
      exact .inr ⟨c, _, failed⟩

namespace Passage

variable {lx : Lexis} {r s t : Reading} {m : Mark} {ms ns : List Mark}

/-- A passage over nothing stays where it is. -/
@[simp] theorem nil_iff : Passage lx r [] s ↔ r = s := by
  constructor
  · rintro ⟨⟩
    rfl
  · rintro rfl
    exact .nil r

/-- The first step of a passage. -/
theorem cons_iff :
    Passage lx r (m :: ms) t ↔
      r.token = m.token ∧ r.cursor.char? = m.behind ∧
        ∃ s, Parse.next lx r = .ok () s ∧ Passage lx s ms t := by
  constructor
  · intro h
    cases h with
    | cons token behind next rest => exact ⟨token, behind, _, next, rest⟩
  · rintro ⟨token, behind, s, next, rest⟩
    exact .cons token behind next rest

/-- A passage over one mark is one step. -/
theorem single_iff :
    Passage lx r [m] s ↔
      r.token = m.token ∧ r.cursor.char? = m.behind ∧ Parse.next lx r = .ok () s := by
  rw [cons_iff]
  simp

/-- Passages are cut and joined where their marks are. -/
theorem append_iff :
    Passage lx r (ms ++ ns) t ↔ ∃ s, Passage lx r ms s ∧ Passage lx s ns t := by
  induction ms generalizing r with
  | nil => simp
  | cons m ms ih =>
    rw [List.cons_append, cons_iff]
    constructor
    · rintro ⟨token, behind, u, next, rest⟩
      obtain ⟨s, first, second⟩ := ih.mp rest
      exact ⟨s, .cons token behind next first, second⟩
    · rintro ⟨s, first, second⟩
      obtain ⟨token, behind, u, next, first⟩ := cons_iff.mp first
      exact ⟨token, behind, u, next, ih.mpr ⟨s, first, second⟩⟩

/-- Two passages one after the other. -/
theorem append (first : Passage lx r ms s) (second : Passage lx s ns t) :
    Passage lx r (ms ++ ns) t :=
  append_iff.mpr ⟨s, first, second⟩

/-- A passage is its first step and then the rest. -/
theorem step_iff :
    Passage lx r (m :: ms) t ↔ ∃ s, Passage lx r [m] s ∧ Passage lx s ms t := by
  rw [← append_iff, List.singleton_append]

/-- A step and then a passage. -/
theorem step (first : Passage lx r [m] s) (second : Passage lx s ms t) :
    Passage lx r (m :: ms) t :=
  append first second

/-- The current token of a reading with a passage before it. -/
theorem token_eq (h : Passage lx r (m :: ms) s) : r.token = m.token := (cons_iff.mp h).1

/-- The character behind the current token. -/
theorem behind_eq (h : Passage lx r (m :: ms) s) : r.cursor.char? = m.behind := (cons_iff.mp h).2.1

/-- A passage leads to one reading only. -/
theorem unique (first : Passage lx r ms s) (second : Passage lx r ms t) : s = t := by
  induction first with
  | nil r => exact nil_iff.mp second
  | cons token behind next rest ih =>
    obtain ⟨_, _, u, next', rest'⟩ := cons_iff.mp second
    rw [next] at next'
    cases next'
    exact ih rest'

/-- Only one passage leads from a reading to the end of the text. -/
theorem unique_of_end (first : Passage lx r ms s) (last : s.token = .endOfText)
    (second : Passage lx r ns t) (last' : t.token = .endOfText) : ms = ns := by
  induction first generalizing ns with
  | nil r =>
    cases second with
    | nil => rfl
    | cons token =>
      rw [last] at token
      cases token
  | @cons m ms r s t' token behind next rest ih =>
    cases second with
    | nil =>
      -- behind the end of the text there is nothing to pass
      rw [last'] at token
      cases token
    | @cons n ns _ u _ token' behind' next' rest' =>
      rw [next] at next'
      cases next'
      rw [ih last rest', Mark.eq_of_shown token behind token' behind']

/-- What holds of every lexeme that is read holds of the lexemes on a passage, if it holds of the first one. -/
theorem forall_lexemes {P : Lexeme → Prop}
    (made : ∀ {c d : Cursor} {l : Lexeme} {p : Place}, lx.token c = .ok (.lexeme l p) d → P l)
    (h : Passage lx r ms s) (first : ∀ l p, r.token = .lexeme l p → P l) : ∀ m ∈ ms, P m.lexeme := by
  induction h with
  | nil r => simp
  | @cons m ms r s t token _ next _ ih =>
    intro n member
    rcases List.mem_cons.mp member with rfl | member
    · exact first _ _ token
    · refine ih (fun l p same => ?_) n member
      have read := Parse.next_ok next
      rw [same] at read
      exact made read

end Passage

/-- What holds of every lexeme that is read holds of the first one of a text. -/
theorem Lexis.first_of_openReading {lx : Lexis} {P : Lexeme → Prop}
    (made : ∀ {c d : Cursor} {l : Lexeme} {p : Place}, lx.token c = .ok (.lexeme l p) d → P l) {text : String}
    {r : Reading} (opened : lx.openReading text = .ok r) : ∀ l p, r.token = .lexeme l p → P l := by
  intro l p same
  obtain ⟨c, read⟩ := token_of_openReading opened
  rw [same] at read
  exact made read

/-- What holds of every lexeme that is read holds of the lexemes of a text. -/
theorem Lexis.Reads.forall_lexemes {lx : Lexis} {P : Lexeme → Prop}
    (made : ∀ {c d : Cursor} {l : Lexeme} {p : Place}, lx.token c = .ok (.lexeme l p) d → P l) {text : String}
    {ms : List Mark} (h : lx.Reads text ms) : ∀ m ∈ ms, P m.lexeme := by
  obtain ⟨r, s, opened, passage, _⟩ := h
  exact passage.forall_lexemes made (first_of_openReading made opened)

/-- A text has only one list of marks. -/
theorem Lexis.Reads.unique {lx : Lexis} {text : String} {ms ns : List Mark} (h : lx.Reads text ms)
    (h' : lx.Reads text ns) : ms = ns := by
  obtain ⟨r, s, opened, passage, last⟩ := h
  obtain ⟨r', s', opened', passage', last'⟩ := h'
  rw [opened] at opened'
  cases opened'
  exact passage.unique_of_end last passage' last'

/-- Every lexeme of a text can be read. -/
theorem Lexis.Reads.makes {lx : Lexis} {text : String} {ms : List Mark} (h : lx.Reads text ms) :
    ∀ m ∈ ms, lx.Makes m.lexeme :=
  h.forall_lexemes makes_of_token

/-! ## Reading to the end can be decided -/

/-- Whether these are the marks from a reading to the end of the text. -/
def Lexis.follows (lx : Lexis) : Reading → List Mark → Bool
  | r, [] => r.token = .endOfText
  | r, m :: ms =>
    r.token = m.token && r.cursor.char? = m.behind &&
      match Parse.next lx r with
      | .ok _ s => lx.follows s ms
      | .error _ _ => false

/-- Marks follow a reading exactly if they lead to the end of the text. -/
theorem Lexis.follows_iff {lx : Lexis} {r : Reading} {ms : List Mark} :
    lx.follows r ms = true ↔ ∃ s, Passage lx r ms s ∧ s.token = .endOfText := by
  induction ms generalizing r with
  | nil => simp [follows]
  | cons m ms ih =>
    simp only [follows, Passage.cons_iff, Bool.and_eq_true, decide_eq_true_eq]
    cases step : Parse.next lx r with
    | error fault t => simp
    | ok _ t =>
      rw [ih]
      constructor
      · rintro ⟨⟨token, behind⟩, s, passage, last⟩
        exact ⟨s, ⟨token, behind, t, rfl, passage⟩, last⟩
      · rintro ⟨s, ⟨token, behind, u, same, passage⟩, last⟩
        cases same
        exact ⟨⟨token, behind⟩, s, passage, last⟩

/-- It can be decided whether a text reads as given marks. -/
instance (lx : Lexis) (text : String) (ms : List Mark) : Decidable (lx.Reads text ms) :=
  match opened : lx.openReading text with
  | .error _ => isFalse fun ⟨_, _, same, _⟩ => by
      rw [opened] at same
      cases same
  | .ok r =>
    decidable_of_iff (lx.follows r ms = true) <| by
      rw [Lexis.follows_iff]
      constructor
      · rintro ⟨s, passage, last⟩
        exact ⟨r, s, opened, passage, last⟩
      · rintro ⟨r', s, same, passage, last⟩
        rw [opened] at same
        cases same
        exact ⟨s, passage, last⟩

/-! ## The length of a passage -/

/-- The most tokens that can lie before the end: one for each character left, and the current one
unless it is the end already. -/
def Reading.room (r : Reading) : Nat :=
  r.cursor.rest.length + if r.token = .endOfText then 0 else 1

/-- Every token passed takes away some room. -/
theorem Parse.room_next {lx : Lexis} {r s : Reading} {u : Unit} (lexeme : r.token ≠ .endOfText)
    (h : Parse.next lx r = .ok u s) : s.room < r.room := by
  have read := Parse.next_ok h
  unfold Reading.room
  rw [if_neg lexeme]
  cases token : s.token with
  | endOfText =>
    rw [token] at read
    rw [Lexis.token_end read]
    simp
  | lexeme l p =>
    rw [token] at read
    have shorter := Lexis.token_shortens read
    simp
    omega

namespace Passage

variable {lx : Lexis} {r s : Reading} {ms : List Mark}

/-- A passage takes away as much room at least as it has marks. -/
theorem length_add_room_le (h : Passage lx r ms s) : ms.length + s.room ≤ r.room := by
  induction h with
  | nil r => simp
  | @cons m ms r s t token _ next _ ih =>
    have lexeme : r.token ≠ .endOfText := by
      rw [token]
      simp [Mark.token]
    have less := Parse.room_next lexeme next
    rw [List.length_cons]
    omega

/-- No passage over marks leads back to where it starts. -/
theorem eq_nil_of_loop (h : Passage lx r ms r) : ms = [] := by
  have bound := h.length_add_room_le
  exact List.length_eq_zero_iff.mp (by omega)

/-- All passages from one reading to another are over the same marks. -/
theorem marks_unique {ns : List Mark} (first : Passage lx r ms s) (second : Passage lx r ns s) : ms = ns := by
  induction first generalizing ns with
  | nil r => exact second.eq_nil_of_loop.symm
  | @cons m ms r u s token behind next rest ih =>
    cases second with
    | nil => cases (Passage.cons token behind next rest).eq_nil_of_loop
    | @cons n ns _ _ _ token' behind' next' rest' =>
      rw [next] at next'
      cases next'
      rw [ih rest', Mark.eq_of_shown token behind token' behind']

/-- No passage is as long as the budget of the reading it starts from. -/
theorem length_lt_budget (h : Passage lx r ms s) : ms.length < r.cursor.rest.length + 2 := by
  have bound := h.length_add_room_le
  have most : r.room ≤ r.cursor.rest.length + 1 := by
    unfold Reading.room
    split <;> omega
  omega

end Passage

end LittlePascal
