import LittlePascal.Proofs.Segmentation

/-! # Texts that are put together

A text is put together from segments, each of which is layout and a lexeme as it is written. Such a text is
read back if every segment ends where the next one begins. On a new line everything has ended, so lines can be
put together whatever they hold.

Main definitions: `Segment.joined`, `Segment.beginsLine`, `Segment.Written`.

Main statements: `Segment.joined_flatten`, `Lexis.segmented_of_joined`, `Lexis.Segmented.reads`. -/

namespace LittlePascal

/-- No lexeme goes on behind the end of a line. -/
theorem Lexeme.endsBefore_newline (l : Lexeme) : l.endsBefore '\n' = true := by
  cases l with
  | operator o => cases o <;> rfl
  | punctuation p => cases p <;> rfl
  | _ => rfl

/-- Whether nothing at all can prolong a lexeme. -/
def Lexeme.isClosed : Lexeme → Bool
  | .operator o => o ≠ .div
  | .punctuation p => p ≠ .colon
  | _ => false

/-- What nothing can prolong has ended before every character. -/
theorem Lexeme.endsBefore_of_isClosed {l : Lexeme} (h : l.isClosed = true) (y : Char) : l.endsBefore y = true := by
  cases l with
  | operator o => cases o <;> first | rfl | cases h
  | punctuation p => cases p <;> first | rfl | cases h
  | _ => cases h

namespace Segment

/-! ## Segments side by side -/

/-- Whether the lexeme of a segment has ended where another segment begins. -/
def endsAt (s next : Segment) : Bool := s.lexeme.isClosed || next.chars.head?.all s.lexeme.endsBefore

/-- Whether each of the segments has ended where the next one begins. -/
def joined : List Segment → Bool
  | s :: next :: rest => s.endsAt next && joined (next :: rest)
  | _ => true

/-- Whether segments begin on a new line. -/
def beginsLine : List Segment → Bool
  | s :: _ => s.layout.head? == some '\n'
  | [] => true

theorem joined_cons_cons {s next : Segment} {rest : List Segment} :
    joined (s :: next :: rest) = true ↔ s.endsAt next = true ∧ joined (next :: rest) = true := by
  rw [joined, Bool.and_eq_true]

/-- A segment has ended where a new line begins. -/
theorem endsAt_of_beginsLine {s next : Segment} {rest : List Segment} (line : beginsLine (next :: rest) = true) :
    s.endsAt next = true := by
  rw [beginsLine, beq_iff_eq] at line
  have first : next.chars.head? = some '\n' := by
    rw [chars, List.head?_append, line]
    rfl
  rw [endsAt, first, Option.all_some, s.lexeme.endsBefore_newline, Bool.or_true]

/-- Segments and a line behind them are joined. -/
theorem joined_append {first second : List Segment} (h : joined first = true) (h' : joined second = true)
    (line : beginsLine second = true) : joined (first ++ second) = true := by
  induction first with
  | nil => exact h'
  | cons s rest ih =>
    cases rest with
    | cons next rest =>
      rw [joined_cons_cons] at h
      exact joined_cons_cons.mpr ⟨h.1, ih h.2⟩
    | nil =>
      cases second with
      | nil => rfl
      | cons next rest => exact joined_cons_cons.mpr ⟨endsAt_of_beginsLine line, h'⟩

/-- Lines that are joined themselves are joined with each other. -/
theorem joined_flatten {first : List Segment} {lines : List (List Segment)} (h : joined first = true)
    (each : ∀ line ∈ lines, joined line = true ∧ beginsLine line = true) :
    joined (first ++ lines.flatten) = true := by
  induction lines generalizing first with
  | nil => rwa [List.flatten_nil, List.append_nil]
  | cons line lines ih =>
    obtain ⟨⟨inner, begins⟩, each⟩ := List.forall_mem_cons.mp each
    rw [List.flatten_cons, ← List.append_assoc]
    exact ih (joined_append h inner begins) each

/-- The characters of lines are those of one line after the other. -/
theorem text_flatten (lines : List (List Segment)) : text lines.flatten = (lines.map text).flatten := by
  induction lines with
  | nil => rfl
  | cons line lines ih => rw [List.flatten_cons, text_append, ih, List.map_cons, List.flatten_cons]

/-! ## Segments as they are written -/

/-- A segment is layout and a lexeme as it is written, and nothing prolongs the lexeme where it has ended. -/
structure Written (lx : Lexis) (s : Segment) : Prop where
  layout : IsLayout s.layout
  writes : ∃ more, lx.Writes s.word s.lexeme more ∧ ∀ y, s.lexeme.endsBefore y = true → more y = false

namespace Written

variable {lx : Lexis} {layout : List Char} {l : Lexeme} (isLayout : IsLayout layout)
include isLayout

/-- A word: the lexeme that it stands for goes on with the characters of names. -/
theorem word {chars : List Char} (begins : chars.head?.any Text.isLetter = true)
    (all : chars.all Text.isNameChar = true) (same : lx.wordLexeme chars = l)
    (ends : ∀ y, l.endsBefore y = !Text.isNameChar y) : Written lx ⟨layout, chars, l⟩ := by
  cases chars with
  | nil => cases begins
  | cons x rest =>
    subst same
    rw [List.all_cons, Bool.and_eq_true, List.all_eq_true] at all
    refine ⟨isLayout, _, .word begins all.2, fun y ended => ?_⟩
    rwa [ends, Bool.not_eq_true'] at ended

/-- A mark of one character. -/
theorem mark {x : Char} (marked : lx.mark x = some l) (ends : x = ':' → l.endsBefore '=' = false) :
    Written lx ⟨layout, [x], l⟩ := by
  refine ⟨isLayout, _, .mark marked, fun y ended => ?_⟩
  rw [← Bool.not_eq_true, Bool.and_eq_true, beq_iff_eq, beq_iff_eq]
  rintro ⟨colon, rfl⟩
  have stops := ended.symm.trans (ends colon)
  cases stops

/-- The mark of an assignment. -/
theorem assign : Written lx ⟨layout, [':', '='], .punctuation .assign⟩ :=
  ⟨isLayout, _, .assign, fun _ _ => rfl⟩

/-- The decimal digits of a number, where there is no limit. -/
theorem whole (free : lx.limit = .off) (n : Nat) : Written lx ⟨layout, Nat.toDigits 10 n, .literal (.whole n)⟩ := by
  have ten : ∀ x ∈ Nat.toDigits 10 n, x.isDigit = true :=
    fun x => Nat.isDigit_of_mem_toDigits (by decide) (by decide)
  have value := Text.decimalValue?_toDigits n
  obtain ⟨x, rest, digits⟩ := List.exists_cons_of_ne_nil (Nat.toDigits_ne_nil (b := 10) (n := n))
  rw [digits] at ten value ⊢
  have all : ∀ y ∈ x :: rest, Text.isDigit y = true := by
    intro y member
    rw [Text.isDigit, (Text.isDigit_facts (ten y member)).1]
    rfl
  refine ⟨isLayout, _, .whole (Text.isDigit_facts (ten x List.mem_cons_self)).2.1 all value ?_, fun y ended => ?_⟩
  · rw [free]
    rfl
  simpa [Lexeme.endsBefore] using ended

/-- Digits around a point. -/
theorem real {x : Char} {before after : List Char} {n : Nat} (letter : Text.isLetter x = false)
    (all : (x :: before ++ after).all Text.isDigit = true)
    (value : Text.decimalValue? (x :: before ++ after) = some n) :
    Written lx ⟨layout, x :: before ++ '.' :: after,
      .literal (.real (Number.nearest n (Number.tenTo after.length)))⟩ := by
  rw [List.all_append, Bool.and_eq_true, List.all_eq_true, List.all_eq_true] at all
  refine ⟨isLayout, _, .real letter all.1 all.2 value, fun y ended => ?_⟩
  rw [Lexeme.endsBefore, Bool.and_eq_true, Bool.not_eq_true'] at ended
  exact ended.1

end Written

end Segment

namespace Lexis

variable {lx : Lexis} {segments : List Segment} {last : List Char}

/-- Written segments follow each other if each has ended where the next one begins. -/
theorem segmented_of_joined (full : lx.Full) (written : ∀ s ∈ segments, s.Written lx)
    (joined : Segment.joined segments = true) (end_of_line : ∀ y ∈ last.head?, y = '\n') :
    lx.Segmented last segments := by
  induction segments with
  | nil => exact .nil
  | cons s segments ih =>
    obtain ⟨⟨layout, more, writes, ends⟩, written⟩ := List.forall_mem_cons.mp written
    cases segments with
    | nil =>
      refine .cons ⟨layout, more, writes, fun y member => ends y ?_⟩ .nil
      rw [end_of_line y member]
      exact s.lexeme.endsBefore_newline
    | cons next segments =>
      rw [Segment.joined_cons_cons] at joined
      -- the next segment is not empty, so the first of its characters is the one that follows
      obtain ⟨_, _, writes', _⟩ := written next List.mem_cons_self
      obtain ⟨x, rest, word, _⟩ := writes'.exists_cons full
      have first : (Segment.text (next :: segments) ++ last).head? = next.chars.head? := by
        simp [Segment.chars, word]
      refine .cons ⟨layout, more, writes, fun y member => ends y ?_⟩ (ih written joined.2)
      rw [first] at member
      have here := joined.1
      rw [Segment.endsAt, Option.mem_def.mp member, Option.all_some, Bool.or_eq_true] at here
      exact here.elim (fun closed => Lexeme.endsBefore_of_isClosed closed y) id

/-- A token stands before segments, and the marks have their lexemes. -/
theorem Segmented.passage (full : lx.Full) (h : lx.Segmented last segments) (layout : IsLayout last)
    {c : Cursor} (left : c.rest = Segment.text segments ++ last) :
    ∃ t d ms s, lx.token c = .ok t d ∧ Passage lx ⟨t, d⟩ ms s ∧ s.token = .endOfText ∧
      ms.map Mark.lexeme = segments.map Segment.lexeme := by
  induction h generalizing c with
  | nil =>
    rw [Segment.text_nil, List.nil_append] at left
    exact ⟨.endOfText, _, [], _, full.nth_layout (left ▸ layout) 0, .nil _, rfl, rfl⟩
  | @cons s segments before _ ih =>
    rw [Segment.text_cons, List.append_assoc] at left
    have behind : (c.advanceBy s.chars.length).rest = Segment.text segments ++ last := by
      rw [Cursor.advanceBy_rest, left, List.drop_left]
    obtain ⟨t, d, ms, r, read, passage, ended, lexemes⟩ := ih behind
    have step : Parse.next lx ⟨.lexeme s.lexeme (c.advanceBy s.layout.length).place,
        c.advanceBy s.chars.length⟩ = .ok () ⟨t, d⟩ := by
      rw [Parse.next]
      simp only [read]
    exact ⟨_, _, ⟨s.lexeme, _, _⟩ :: ms, r, before.token full left, .cons rfl rfl step passage, ended,
      by rw [List.map_cons, List.map_cons, lexemes]⟩

/-- A text of segments can be read to its end, and its marks have their lexemes. -/
theorem Segmented.reads (full : lx.Full) (h : lx.Segmented last segments) (layout : IsLayout last)
    (nonempty : last ≠ []) {text : String} (same : text.toList = Segment.text segments ++ last) :
    ∃ ms, lx.Reads text ms ∧ ms.map Mark.lexeme = segments.map Segment.lexeme := by
  obtain ⟨t, d, ms, s, read, passage, ended, lexemes⟩ :=
    h.passage full layout (c := .start text.toList) same
  have something : text ≠ "" := by
    rintro rfl
    exact nonempty (List.append_eq_nil_iff.mp same.symm).2
  exact ⟨ms, ⟨⟨t, d⟩, s, openReading_of_token something read, passage, ended⟩, lexemes⟩

end Lexis

end LittlePascal
