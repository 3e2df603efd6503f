import LittlePascal.Proofs.Writing

/-! # Segments of a text

A text that can be read to its end is cut by the calls of the reader: each call passes layout, returns the
lexeme behind it and stops where the lexeme cannot be prolonged. Nothing is lost. Any other text whose
comments are closed is cut in the same way up to the character at which a call fails.

Main definitions: `Segment`, `Lexis.nth`, `Lexis.Segmented`, `Lexis.Cuts`.

Main statements: `Lexis.Segmented.nth_eq`, `Lexis.Full.exists_segmented`, `calls_cut_text`. -/

namespace LittlePascal

/-! ## Segments -/

/-- A lexeme as it is written, with the layout before it. -/
structure Segment where
  layout : List Char
  word : List Char
  lexeme : Lexeme

namespace Segment

/-- The characters of a segment. -/
def chars (s : Segment) : List Char := s.layout ++ s.word

/-- The characters of segments, one after the other. -/
def text (segments : List Segment) : List Char := segments.flatMap chars

@[simp] theorem text_nil : text [] = [] := rfl

@[simp] theorem text_cons (s : Segment) (segments : List Segment) :
    text (s :: segments) = s.chars ++ text segments := rfl

@[simp] theorem text_append (first second : List Segment) :
    text (first ++ second) = text first ++ text second := List.flatMap_append

/-- A segment of a text before the rest of it: the lexeme is written and does not go on there. -/
structure Before (lx : Lexis) (s : Segment) (rest : List Char) : Prop where
  layout : IsLayout s.layout
  written : ∃ more, lx.Writes s.word s.lexeme more ∧ ∀ y ∈ rest.head?, more y = false

variable {lx : Lexis} {s : Segment} {segments : List Segment} {rest : List Char} {c : Cursor}

/-- The lexeme of a segment is read, and the cursor moves to the end of the segment. -/
theorem Before.token (full : lx.Full) (h : s.Before lx rest) (left : c.rest = s.chars ++ rest) :
    lx.token c = .ok (.lexeme s.lexeme (c.advanceBy s.layout.length).place)
      (c.advanceBy s.chars.length) := by
  obtain ⟨layout, more, written, ends⟩ := h
  obtain ⟨x, chars, word, opens⟩ := written.exists_cons full
  have left : c.rest = s.layout ++ (s.word ++ rest) := by
    rw [left, Segment.chars, List.append_assoc]
  have behind : (c.advanceBy s.layout.length).rest = s.word ++ rest := by
    rw [Cursor.advanceBy_rest, left, List.drop_left]
  rw [word, List.cons_append] at left
  rw [full.token_past_layout layout left opens, (written.spells full ends).2 _ behind,
    ← Cursor.advanceBy_add, Segment.chars, List.length_append]

end Segment

namespace Lexis

variable {lx : Lexis} {segments : List Segment} {rest : List Char} {c : Cursor}

/-- The token of one of several calls of the reader, which are counted from zero. -/
def nth (lx : Lexis) : Nat → Scan Token
  | 0 => lx.token
  | n + 1 => do
    let _ ← lx.token
    lx.nth n

/-- Segments that follow each other up to the rest of a text. -/
inductive Segmented (lx : Lexis) (rest : List Char) : List Segment → Prop where
  | nil : Segmented lx rest []
  | cons {s : Segment} {segments : List Segment} :
      s.Before lx (Segment.text segments ++ rest) → Segmented lx rest segments →
      Segmented lx rest (s :: segments)

/-- The calls pass the segments of a text, one after the other. -/
theorem Segmented.nth_add (full : lx.Full) (h : lx.Segmented rest segments)
    (left : c.rest = Segment.text segments ++ rest) (n : Nat) :
    lx.nth (segments.length + n) c = lx.nth n (c.advanceBy (Segment.text segments).length) := by
  induction h generalizing c with
  | nil => rw [List.length_nil, Nat.zero_add, Segment.text_nil, List.length_nil, Cursor.advanceBy_zero]
  | @cons s segments before _ ih =>
    rw [Segment.text_cons, List.append_assoc] at left
    have behind : (c.advanceBy s.chars.length).rest = Segment.text segments ++ rest := by
      rw [Cursor.advanceBy_rest, left, List.drop_left]
    rw [List.length_cons, Nat.succ_add, nth, Work.bind_of_ok (before.token full left), ih behind,
      ← Cursor.advanceBy_add, Segment.text_cons, List.length_append]

/-- What stands before a segment is segmented as well. -/
theorem Segmented.of_append {first second : List Segment}
    (h : lx.Segmented rest (first ++ second)) :
    lx.Segmented (Segment.text second ++ rest) first ∧ lx.Segmented rest second := by
  induction first with
  | nil => exact ⟨.nil, h⟩
  | cons s first ih =>
    rw [List.cons_append] at h
    cases h with
    | cons before more =>
      rw [Segment.text_append, List.append_assoc] at before
      exact ⟨.cons before (ih more).1, (ih more).2⟩

/-- The call that reads a segment. -/
theorem Segmented.nth_eq (full : lx.Full) {before after : List Segment} {s : Segment}
    (h : lx.Segmented rest (before ++ s :: after))
    (left : c.rest = Segment.text (before ++ s :: after) ++ rest) :
    lx.nth before.length c =
      .ok (.lexeme s.lexeme (c.advanceBy ((Segment.text before).length + s.layout.length)).place)
        (c.advanceBy (Segment.text (before ++ [s])).length) := by
  obtain ⟨first, second⟩ := h.of_append
  rw [Segment.text_append, List.append_assoc] at left
  have behind : (c.advanceBy (Segment.text before).length).rest =
      s.chars ++ (Segment.text after ++ rest) := by
    rw [Cursor.advanceBy_rest, left, List.drop_left, Segment.text_cons, List.append_assoc]
  cases second with
  | cons here _ =>
    have call := first.nth_add full left 0
    rw [Nat.add_zero] at call
    rw [call, nth, here.token full behind, ← Cursor.advanceBy_add, ← Cursor.advanceBy_add,
      Segment.text_append, List.length_append, Segment.text_cons, Segment.text_nil, List.append_nil]

/-- A call that fails is the last one. -/
theorem nth_of_error {fault : Fault} {d : Cursor} (h : lx.token c = .error fault d) (n : Nat) :
    lx.nth n c = .error fault d := by
  cases n with
  | zero => exact h
  | succ n => exact Work.bind_of_error h

/-- At the end of a text every call finds it. -/
theorem nth_nil (h : c.rest = []) (n : Nat) : lx.nth n c = .ok .endOfText c := by
  induction n with
  | zero => exact token_nil h
  | succ n ih => rw [nth, Work.bind_of_ok (token_nil h), ih]

/-- Behind the last lexeme every call finds the end of the text. -/
theorem Full.nth_layout (full : lx.Full) (h : IsLayout c.rest) (n : Nat) :
    lx.nth n c = .ok .endOfText (c.advanceBy c.rest.length) := by
  have length : layoutLength lx.comments false c.rest = some c.rest.length := by
    have passed := h.layoutLength_append []
    rw [List.append_nil] at passed
    rw [full.comments, passed, layoutLength, Option.map_some, Nat.zero_add]
  have behind : (c.advanceBy c.rest.length).rest = [] := by
    rw [Cursor.advanceBy_rest, List.drop_length]
  have first : lx.token c = .ok .endOfText (c.advanceBy c.rest.length) := by
    rw [token_layout full.blanks length, token_nil behind]
  cases n with
  | zero => exact first
  | succ n => rw [nth, Work.bind_of_ok first, nth_nil behind]

/-- A text is segmented up to its end, up to a character to blame, or up to an open comment. -/
theorem Full.exists_segmented (full : lx.Full) (text : List Char) :
    ∃ segments rest, text = Segment.text segments ++ rest ∧ lx.Segmented rest segments ∧
      (IsLayout rest ∨ layoutLength true false rest = none ∨
        ∃ layout x behind, rest = layout ++ x :: behind ∧ IsLayout layout ∧
          lx.opensLayout x = false ∧ ∀ c : Cursor, c.rest = rest → ∃ fault d,
            lx.token c = .error fault d ∧ lx.Blames x (c.advanceBy layout.length).place fault) := by
  -- every segment takes characters away, so what is left of the text is shorter
  induction length : text.length using Nat.strongRecOn generalizing text with
  | ind n ih =>
    cases found : layoutLength true false text with
    | none => exact ⟨[], text, rfl, .nil, .inr (.inl found)⟩
    | some m =>
      have layout : IsLayout (text.take m) := isLayout_take found
      cases left : text.drop m with
      | nil =>
        refine ⟨[], text, rfl, .nil, .inl ?_⟩
        rw [← List.take_append_drop m text, left, List.append_nil]
        exact layout
      | cons x behind =>
        have split : text = text.take m ++ x :: behind := by rw [← left, List.take_append_drop]
        have opens : lx.opensLayout x = false := by
          have none := layoutLength_drop found
          rw [left, ← full.comments] at none
          exact opensLayout_of_layoutLength none
        rcases full.writesOrBlames opens with ⟨word, rest, l, more, same, written, ends⟩ | blamed
        · obtain ⟨y, chars, rfl, _⟩ := written.exists_cons full
          have shorter : rest.length < n := by
            rw [← length, split, same, List.length_append, List.length_append, List.length_cons]
            omega
          obtain ⟨segments, last, rfl, segmented, outcome⟩ := ih rest.length shorter rest rfl
          refine ⟨⟨text.take m, y :: chars, l⟩ :: segments, last, ?_,
            .cons ⟨layout, more, written, ends⟩ segmented, outcome⟩
          rw [Segment.text_cons, Segment.chars, List.append_assoc, List.append_assoc, ← same, ← split]
        · refine ⟨[], text, rfl, .nil, .inr (.inr ⟨_, x, behind, split, layout, opens, ?_⟩)⟩
          intro c here
          have length : (text.take m).length = m := by
            have some := congrArg List.length left
            rw [List.length_drop, List.length_cons] at some
            rw [List.length_take]
            omega
          rw [← here, ← full.comments] at found
          rw [length, token_layout full.blanks found]
          refine blamed _ ?_
          rw [Cursor.advanceBy_rest, here, left]

/-- The comments of segments are closed, so those of a text are closed if those behind them are. -/
theorem Segmented.commentsClosed_eq (full : lx.Full) (h : lx.Segmented rest segments) :
    commentsClosed false (Segment.text segments ++ rest) = commentsClosed false rest := by
  induction h with
  | nil => rfl
  | cons before _ ih =>
    obtain ⟨layout, more, written, _⟩ := before
    rw [Segment.text_cons, Segment.chars, List.append_assoc, List.append_assoc,
      layout.commentsClosed_append, commentsClosed_append_of_not_mem (written.not_mem_brace full), ih]

/-- The calls of the reader cut a text into segments, up to a rest of it. -/
structure Cuts (lx : Lexis) (text : List Char) (segments : List Segment) (rest : List Char) :
    Prop where
  /-- Nothing is lost. -/
  text_eq : text = Segment.text segments ++ rest
  /-- A segment is layout and a lexeme as it is written; nothing that would prolong the lexeme follows
  it; and the call for it returns the lexeme and stops right behind it. -/
  segment {before after : List Segment} {s : Segment} : segments = before ++ s :: after →
    IsLayout s.layout ∧ s.word ≠ [] ∧
    (∃ more, lx.Writes s.word s.lexeme more ∧
      ∀ y ∈ (Segment.text after ++ rest).head?, more y = false) ∧
    ∃ place d, lx.nth before.length (.start text) = .ok (.lexeme s.lexeme place) d ∧
      d.pos = (Segment.text (before ++ [s])).length ∧ d.rest = Segment.text after ++ rest

/-- Segments are what the calls cut a text into. -/
theorem Segmented.cuts (full : lx.Full) (h : lx.Segmented rest segments) :
    lx.Cuts (Segment.text segments ++ rest) segments rest := by
  refine ⟨rfl, ?_⟩
  rintro before after s rfl
  have call := h.nth_eq full (Cursor.start_rest _)
  cases h.of_append.2 with
  | cons here _ =>
    obtain ⟨layout, more, written, ends⟩ := here
    obtain ⟨x, chars, word, _⟩ := written.exists_cons full
    refine ⟨layout, ?_, ⟨more, written, ends⟩, _, _, call, ?_, ?_⟩
    · rw [word]
      exact List.cons_ne_nil _ _
    · rw [Cursor.advanceBy_pos, Cursor.start_pos, Nat.zero_add]
    · have regroup : Segment.text (before ++ s :: after) ++ rest =
          Segment.text (before ++ [s]) ++ (Segment.text after ++ rest) := by simp
      rw [Cursor.advanceBy_rest, Cursor.start_rest, regroup, List.drop_left]

/-- Where the call behind the segments fails none finds the end of the text. -/
theorem Segmented.not_end (full : lx.Full) (h : lx.Segmented rest segments)
    (left : c.rest = Segment.text segments ++ rest) {fault : Fault} {e : Cursor}
    (failed : lx.token (c.advanceBy (Segment.text segments).length) = .error fault e) :
    ¬∃ n d, lx.nth n c = .ok .endOfText d := by
  rintro ⟨n, d, ended⟩
  by_cases within : n < segments.length
  · -- a call for one of the segments returns its lexeme
    obtain ⟨before, s, after, rfl, rfl⟩ : ∃ before s after, segments = before ++ s :: after ∧
        before.length = n := by
      refine ⟨segments.take n, segments[n], segments.drop (n + 1), ?_, ?_⟩
      · rw [← List.drop_eq_getElem_cons within, List.take_append_drop]
      · rw [List.length_take]
        omega
    rw [h.nth_eq full left] at ended
    cases ended
  · obtain ⟨k, rfl⟩ := Nat.exists_eq_add_of_le (Nat.le_of_not_lt within)
    rw [h.nth_add full left, nth_of_error failed] at ended
    cases ended

/-- Reading fails with a character exactly where no lexeme begins with it. -/
theorem Blames.character_iff {x : Char} {place : Place} {fault : Fault}
    (h : lx.Blames x place fault) :
    (∃ found place, fault = .character found place) ↔
      ¬(Text.isLetter x = true ∨ Text.isDigit x = true ∨ (lx.mark x).isSome = true) := by
  cases h with
  | whole _ _ digit | long _ _ digit _ | real _ _ digit => simp [digit]
  | character letter digit marked => simp [letter, digit, marked]

end Lexis

/-! ## Texts -/

/-- Reading begins before the first character. -/
theorem Lexis.openText_eq_ok {lx : Lexis} {text : String} {c : Cursor} (h : lx.openText text = .ok c) :
    c = .start text.toList := by
  unfold openText at h
  split at h
  · cases h
  · cases h
    rfl

/-- In the last edition the calls of the reader cut a text that can be read to its end into segments,
with layout behind the last of them. Any other text whose comments are closed is cut into segments up
to layout and a character at which the next call fails. -/
theorem calls_cut_text {text : String} {c : Cursor}
    (opened : Edition.calls.lexis.openText text = .ok c) :
    (∀ {word l l' more more'}, Edition.calls.lexis.Writes word l more →
      Edition.calls.lexis.Writes word l' more' → l = l') ∧
    ((∃ n d, Edition.calls.lexis.nth n c = .ok .endOfText d) →
      ∃ segments last, Edition.calls.lexis.Cuts text.toList segments last ∧ IsLayout last ∧
        ∀ n, ∃ d, Edition.calls.lexis.nth (segments.length + n) c = .ok .endOfText d) ∧
    (commentsClosed false text.toList = true →
      (¬∃ n d, Edition.calls.lexis.nth n c = .ok .endOfText d) →
      ∃ segments layout x behind fault d,
        Edition.calls.lexis.Cuts text.toList segments (layout ++ x :: behind) ∧ IsLayout layout ∧
        Edition.calls.lexis.opensLayout x = false ∧
        Edition.calls.lexis.nth segments.length c = .error fault d ∧
        ((∃ found place, fault = .character found place) ↔
          ¬(Text.isLetter x = true ∨ Text.isDigit x = true ∨ x ∈ Edition.markChars))) := by
  have full : Edition.calls.lexis.Full := Edition.full_lexis rfl
  obtain rfl := Lexis.openText_eq_ok opened
  obtain ⟨segments, rest, whole, segmented, outcome⟩ := full.exists_segmented text.toList
  have cuts := segmented.cuts full
  rw [← whole] at cuts
  have calls := segmented.nth_add full (c := .start text.toList) whole
  have behind : ((Cursor.start text.toList).advanceBy (Segment.text segments).length).rest = rest := by
    rw [Cursor.advanceBy_rest, Cursor.start_rest, whole, List.drop_left]
  refine ⟨fun first second => first.unique full second, fun ended => ?_, fun closed unended => ?_⟩
  · rcases outcome with layout | unclosed | ⟨layout, x, more, _, _, _, blamed⟩
    · exact ⟨segments, rest, cuts, layout,
        fun n => ⟨_, (calls n).trans (full.nth_layout (by rwa [behind]) n)⟩⟩
    · rw [← behind] at unclosed
      exact absurd ended (segmented.not_end full whole (Lexis.token_unclosed full.blanks unclosed))
    · obtain ⟨fault, d, failed, _⟩ := blamed _ behind
      exact absurd ended (segmented.not_end full whole failed)
  · rcases outcome with layout | unclosed | ⟨layout, x, more, rfl, isLayout, opens, blamed⟩
    · have last := (calls 0).trans (full.nth_layout (by rwa [behind]) 0)
      exact absurd ⟨_, _, last⟩ unended
    · rw [whole, segmented.commentsClosed_eq full] at closed
      obtain ⟨n, some⟩ := layoutLength_of_closed closed
      rw [unclosed] at some
      cases some
    · obtain ⟨fault, d, failed, blames⟩ := blamed _ behind
      refine ⟨segments, layout, x, more, fault, d, cuts, isLayout, opens, ?_, ?_⟩
      · exact (calls 0).trans failed
      · rw [blames.character_iff, ← Edition.mark_calls_isSome_iff]
        rfl

/-- A point behind a real number is a lexeme of its own, and a raised digit has no value. -/
theorem calls_cut_text_real_and_raised_digit :
    (∃ segments last,
      Edition.calls.lexis.Cuts "x:=1.5.\x7bc\x7d".toList segments last ∧ IsLayout last) ∧
    ∃ segments layout x behind fault d,
      Edition.calls.lexis.Cuts "b \x7bc\x7d 3²".toList segments (layout ++ x :: behind) ∧
      Edition.calls.lexis.nth segments.length (.start "b \x7bc\x7d 3²".toList) = .error fault d ∧
      ((∃ found place, fault = .character found place) ↔
        ¬(Text.isLetter x = true ∨ Text.isDigit x = true ∨ x ∈ Edition.markChars)) := by
  constructor
  · have last : Edition.calls.lexis.nth 4 (.start "x:=1.5.\x7bc\x7d".toList) = .ok .endOfText _ :=
      rfl
    obtain ⟨segments, rest, cuts, layout, _⟩ :=
      (@calls_cut_text "x:=1.5.\x7bc\x7d" _ rfl).2.1 ⟨4, _, last⟩
    exact ⟨segments, rest, cuts, layout⟩
  · have first : Edition.calls.lexis.token (.start "b \x7bc\x7d 3²".toList) =
        .ok (.lexeme (Edition.calls.lexis.wordLexeme ['b']) ⟨1, 1⟩)
          ((Cursor.start "b \x7bc\x7d 3²".toList).advanceBy 1) := rfl
    have second : Edition.calls.lexis.token ((Cursor.start "b \x7bc\x7d 3²".toList).advanceBy 1) =
        .error (.malformedWhole (.undecimal "3²")) _ := rfl
    have unended :
        ¬∃ n d, Edition.calls.lexis.nth n (.start "b \x7bc\x7d 3²".toList) = .ok .endOfText d := by
      rintro ⟨n, d, last⟩
      cases n with
      | zero =>
        rw [Lexis.nth, first] at last
        cases last
      | succ n =>
        rw [Lexis.nth, Work.bind_of_ok first, Lexis.nth_of_error second] at last
        cases last
    obtain ⟨segments, layout, x, behind, fault, d, cuts, _, _, failed, blamed⟩ :=
      (@calls_cut_text "b \x7bc\x7d 3²" _ rfl).2.2 rfl unended
    exact ⟨segments, layout, x, behind, fault, d, cuts, failed, blamed⟩

end LittlePascal
