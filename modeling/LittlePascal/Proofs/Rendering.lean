import LittlePascal.Proofs.Segmentation

/-! # Rendered lexemes are read back

A reserved word may be rendered in small and capital letters, a number by any of its runs of digits.
Rendered lexemes with layout between them, of any kind but not empty, are read back one by one, and
behind the last of them every further call finds the end of the text.

Main definition: `Lexeme.Renders`.

Main statements: `Lexeme.Renders.writes`, `Lexis.segmented_of_apart`, `calls_read_rendered`. -/

namespace LittlePascal

/-! ## Words in small and capital letters -/

namespace Text

/-- A letter whose capital is one of the reserved words' has no other capital form. -/
theorem capitalOf_of_isUpper {c : Char} (h : c.toUpper.isUpper = true) :
    isLetter c = true ∧ capitalOf c = [c.toUpper] := by
  have all : ∀ n < 128, (Char.ofNat n).toUpper.isUpper = true →
      isLetter (Char.ofNat n) = true ∧ capitalOf (Char.ofNat n) = [(Char.ofNat n).toUpper] := by
    decide
  have ascii : c.toNat < 128 := by
    unfold Char.toUpper at h
    split at h
    · rename_i small
      have upper : c.toNat ≤ 122 := small.2
      omega
    · have upper : c.toNat ≤ 90 := (of_decide_eq_true h).2
      omega
  have facts := all c.toNat ascii
  rw [Char.ofNat_toNat] at facts
  exact facts h

/-- The capital form of such letters is taken letter by letter. -/
theorem capitals_eq_map {word : List Char} (h : ∀ c ∈ word, c.toUpper.isUpper = true) :
    capitals word = word.map Char.toUpper := by
  induction word with
  | nil => rfl
  | cons c word ih =>
    rw [List.forall_mem_cons] at h
    rw [capitals_cons, (capitalOf_of_isUpper h.1).2, ih h.2, List.map_cons, List.singleton_append]

end Text

/-! ## Rendered lexemes -/

namespace Lexeme

/-- Whether a lexeme is written as a reserved word. -/
def isReserved : Lexeme → Bool
  | .reserved _ | .operator .div => true
  | _ => false

/-- Whether a lexeme is written as a mark. -/
def isMark : Lexeme → Bool
  | .operator .div => false
  | .operator _ | .punctuation _ => true
  | _ => false

/-- The ways to render a lexeme: reserved words in small or capital letters, names that are no
reserved words, runs of the ten digits with or without a point, and marks. -/
inductive Renders : List Char → Lexeme → Prop where
  | reserved {word : List Char} {l : Lexeme} :
      l.isReserved = true → word.map Char.toUpper = l.spelling.toList → Renders word l
  | name {x : Char} {word : List Char} :
      Text.isLetter x = true → (∀ y ∈ word, Text.isNameChar y = true) →
      (∀ l : Lexeme, l.isReserved = true → Text.capitals (x :: word) ≠ l.spelling.toList) →
      Renders (x :: word) (.name (String.ofList (x :: word)))
  | whole {digits : List Char} :
      digits ≠ [] → (∀ y ∈ digits, y.isDigit = true) →
      Renders digits (.literal (.whole (Nat.ofDigitChars 10 digits 0)))
  | real {before after : List Char} :
      before ≠ [] → (∀ y ∈ before ++ after, y.isDigit = true) →
      Renders (before ++ '.' :: after) (.literal (.real
        (Number.nearest (Nat.ofDigitChars 10 (before ++ after) 0) (Number.tenTo after.length))))
  | mark {l : Lexeme} : l.isMark = true → Renders l.spelling.toList l

/-- Reserved words are spelled in capitals. -/
theorem isUpper_spelling {l : Lexeme} (h : l.isReserved = true) :
    l.spelling.toList ≠ [] ∧ ∀ c ∈ l.spelling.toList, c.isUpper = true := by
  rw [← List.all_eq_true]
  cases l with
  | reserved r => cases r <;> decide
  | operator o =>
    cases o with
    | div => decide
    | _ => cases h
  | _ => cases h

end Lexeme

namespace Edition

/-- A reserved word is found under its spelling. -/
theorem lookup_spelling {l : Lexeme} (h : l.isReserved = true) :
    Edition.calls.reserved.lookup l.spelling = some l := by
  cases l with
  | reserved r => cases r <;> decide
  | operator o =>
    cases o with
    | div => decide
    | _ => cases h
  | _ => cases h

/-- What is found stands under its spelling. -/
theorem isReserved_of_mem {entry : String × Lexeme} (h : entry ∈ Edition.calls.reserved) :
    entry.2.isReserved = true ∧ entry.1 = entry.2.spelling := by
  have all : ∀ entry ∈ Edition.calls.reserved,
      entry.2.isReserved = true ∧ entry.1 = entry.2.spelling := by
    decide
  exact all entry h

/-- A word whose capital form spells a reserved word stands for it. -/
theorem wordLexeme_reserved {word : List Char} {l : Lexeme} (h : l.isReserved = true)
    (same : Text.capitals word = l.spelling.toList) : Edition.calls.lexis.wordLexeme word = l := by
  have key : String.ofList (Text.capitals word) = l.spelling := by rw [same, String.ofList_toList]
  have found : (Edition.calls.reserved.lookup (String.ofList (Text.capitals word))).getD
      (.name (String.ofList word)) = l := by
    rw [key, lookup_spelling h, Option.getD_some]
  exact found

/-- Any other word is a name. -/
theorem wordLexeme_name {word : List Char}
    (other : ∀ l : Lexeme, l.isReserved = true → Text.capitals word ≠ l.spelling.toList) :
    Edition.calls.lexis.wordLexeme word = .name (String.ofList word) := by
  have none : Edition.calls.reserved.lookup (String.ofList (Text.capitals word)) = none := by
    rw [List.lookup_eq_none_iff]
    intro entry member
    obtain ⟨reserved, spelled⟩ := isReserved_of_mem member
    rw [bne_iff_ne, spelled]
    intro same
    refine other entry.2 reserved ?_
    rw [← same, String.toList_ofList]
  have found : (Edition.calls.reserved.lookup (String.ofList (Text.capitals word))).getD
      (.name (String.ofList word)) = .name (String.ofList word) := by
    rw [none, Option.getD_none]
  exact found

/-- A mark is the assignment mark or has one character. -/
theorem mark_spelling {l : Lexeme} (h : l.isMark = true) :
    l = .punctuation .assign ∨ ∃ x, l.spelling.toList = [x] ∧ Edition.calls.mark x = some l := by
  cases l with
  | operator o =>
    cases o with
    | div => cases h
    | _ => exact .inr ⟨_, rfl, by decide⟩
  | punctuation p =>
    cases p with
    | assign => exact .inl rfl
    | _ => exact .inr ⟨_, rfl, by decide⟩
  | _ => cases h

/-- Layout goes on with no lexeme: it begins with no character of a name, no point and no equals
sign. -/
theorem not_prolongs {y : Char} (h : Edition.calls.lexis.opensLayout y = true) :
    Text.isNameChar y = false ∧ y ≠ '.' ∧ y ≠ '=' := by
  have point : Edition.calls.lexis.opensLayout '.' = false := by decide
  have equals : Edition.calls.lexis.opensLayout '=' = false := by decide
  refine ⟨?_, ?_, ?_⟩
  · rw [← Bool.not_eq_true]
    intro name
    rw [Lexis.opensLayout_of_isNameChar name] at h
    cases h
  · rintro rfl
    rw [point] at h
    cases h
  · rintro rfl
    rw [equals] at h
    cases h

end Edition

/-- One of the ten digits is a digit of a number and no letter. -/
theorem Text.isDigit_of_ten {y : Char} (h : y.isDigit = true) :
    isDigit y = true ∧ isLetter y = false := by
  obtain ⟨value, letter, _⟩ := isDigit_facts h
  rw [isDigit, value]
  exact ⟨rfl, letter⟩

/-- Layout goes on with no digit. -/
theorem Edition.not_isDigit_of_opensLayout {y : Char} (h : Edition.calls.lexis.opensLayout y = true) :
    Text.isDigit y = false := by
  rw [← Bool.not_eq_true]
  intro digit
  have name := (Edition.not_prolongs h).1
  rw [Text.isNameChar_of_isDigit digit] at name
  cases name

/-- A rendered lexeme is written, if it fits, and layout would not prolong it. -/
theorem Lexeme.Renders.writes {limit : DigitLimit} {word : List Char} {l : Lexeme} (h : l.Renders word)
    (fits : l.fits limit word = true) :
    ∃ more, (Edition.calls.lexis limit).Writes word l more ∧
      ∀ y, (Edition.calls.lexis limit).opensLayout y = true → more y = false := by
  cases h with
  | @reserved word l reserved same =>
    obtain ⟨nonempty, upper⟩ := isUpper_spelling reserved
    have letters : ∀ c ∈ word, c.toUpper.isUpper = true := by
      intro c member
      refine upper c.toUpper ?_
      rw [← same]
      exact List.mem_map_of_mem member
    obtain ⟨x, chars, rfl⟩ := List.exists_cons_of_ne_nil (l := word) (by
      rintro rfl
      exact nonempty same.symm)
    have letter : ∀ c ∈ x :: chars, Text.isLetter c = true :=
      fun c member => (Text.capitalOf_of_isUpper (letters c member)).1
    refine ⟨Text.isNameChar, ?_, fun y opens => (Edition.not_prolongs opens).1⟩
    rw [← Edition.wordLexeme_reserved reserved ((Text.capitals_eq_map letters).trans same)]
    exact .word (letter x List.mem_cons_self)
      fun y member => Text.isNameChar_of_isLetter (letter y (List.mem_cons_of_mem _ member))
  | @name x word letter all other =>
    refine ⟨Text.isNameChar, ?_, fun y opens => (Edition.not_prolongs opens).1⟩
    rw [← Edition.wordLexeme_name other]
    exact .word letter all
  | @whole digits nonempty all =>
    obtain ⟨x, digits, rfl⟩ := List.exists_cons_of_ne_nil nonempty
    refine ⟨_, .whole (Text.isDigit_of_ten (all x List.mem_cons_self)).2
      (fun y member => (Text.isDigit_of_ten (all y member)).1)
      (Text.decimalValue?_eq nonempty all) fits, fun y opens => ?_⟩
    rw [Bool.or_eq_false_iff, beq_eq_false_iff_ne]
    exact ⟨Edition.not_isDigit_of_opensLayout opens, (Edition.not_prolongs opens).2.1⟩
  | @real before after nonempty all =>
    obtain ⟨x, before, rfl⟩ := List.exists_cons_of_ne_nil nonempty
    have digit : ∀ y ∈ x :: before ++ after, Text.isDigit y = true :=
      fun y member => (Text.isDigit_of_ten (all y member)).1
    exact ⟨Text.isDigit, .real (Text.isDigit_of_ten (all x List.mem_cons_self)).2
      (fun y member => digit y (List.mem_append_left _ member))
      (fun y member => digit y (List.mem_append_right _ member))
      (Text.decimalValue?_eq (List.cons_ne_nil _ _) all),
      fun y opens => Edition.not_isDigit_of_opensLayout opens⟩
  | @mark l mark =>
    rcases Edition.mark_spelling mark with rfl | ⟨x, spelled, marked⟩
    · exact ⟨_, .assign, fun _ _ => rfl⟩
    · rw [spelled]
      refine ⟨_, .mark marked, fun y opens => ?_⟩
      rw [Bool.and_eq_false_iff, beq_eq_false_iff_ne, beq_eq_false_iff_ne]
      exact .inr (Edition.not_prolongs opens).2.2

/-- A rendered lexeme that does not fit is a run of too many digits, and the call for it fails. -/
theorem Lexeme.Renders.token_long {limit : DigitLimit} {word rest : List Char} {l : Lexeme} {c : Cursor}
    (h : l.Renders word) (long : l.fits limit word = false) (left : c.rest = word ++ rest)
    (ends : ∀ y ∈ rest.head?, Edition.calls.lexis.opensLayout y = true) :
    (∃ x chars, word = x :: chars ∧ Edition.calls.lexis.opensLayout x = false) ∧
      (Edition.calls.lexis limit).token c =
        .error (.malformedWhole (.tooLong limit.most word.length)) (c.advanceBy word.length) := by
  have full : (Edition.calls.lexis limit).Full := Edition.full_lexis rfl
  cases h with
  | @whole digits nonempty all =>
    have counted := Text.leadingDecimals_of_decimalValue? (Text.decimalValue?_eq nonempty all)
    obtain ⟨x, digits, rfl⟩ := List.exists_cons_of_ne_nil nonempty
    have digit : ∀ y ∈ x :: digits, Text.isDigit y = true := fun y member => (Text.isDigit_of_ten (all y member)).1
    refine ⟨⟨x, digits, rfl, ?_⟩, ?_⟩
    · exact Lexis.opensLayout_of_isNameChar (Text.isNameChar_of_isDigit (digit x List.mem_cons_self))
    · refine full.token_of_wholeOf_error left (Text.isDigit_of_ten (all x List.mem_cons_self)).2 digit
        (fun y member => ⟨Edition.not_isDigit_of_opensLayout (ends y member), ?_⟩) fun d => ?_
      · exact (Edition.not_prolongs (ends y member)).2.1
      · rw [← counted]
        exact Scan.wholeOf_of_long (by rw [counted]; exact long) d
  | @mark l mark =>
    cases l with
    | literal _ => cases mark
    | _ => cases long
  | @reserved word l reserved _ =>
    cases l with
    | literal _ => cases reserved
    | _ => cases long
  | _ => cases long

/-! ## Texts of rendered lexemes -/

/-- Layout begins with a character that opens it. -/
theorem IsLayout.opensLayout {lx : Lexis} (comments : lx.comments = true) {s : List Char}
    (h : IsLayout s) : ∀ y ∈ s.head?, lx.opensLayout y = true := by
  cases h with
  | nil => exact fun y none => absurd none (Option.not_mem_none y)
  | blank blank _ =>
    rintro y ⟨⟩
    rw [Lexis.opensLayout, blank, Bool.true_or]
  | comment _ _ =>
    rintro y ⟨⟩
    rw [Lexis.opensLayout, comments, beq_self_eq_true, Bool.and_self, Bool.or_true]

/-- What follows behind a segment begins with layout: that of the next segment, or what ends the text. -/
theorem Segment.opensLayout_behind {lx : Lexis} (comments : lx.comments = true) {segments : List Segment}
    {last : List Char} (apart : ∀ s ∈ segments, s.layout ≠ []) (layout : ∀ s ∈ segments, IsLayout s.layout)
    (ends : IsLayout last) : ∀ y ∈ (Segment.text segments ++ last).head?, lx.opensLayout y = true := by
  intro y member
  cases segments with
  | nil => exact ends.opensLayout comments y member
  | cons next segments =>
    obtain ⟨x, chars, begins⟩ := List.exists_cons_of_ne_nil (apart next List.mem_cons_self)
    refine (layout next List.mem_cons_self).opensLayout comments y ?_
    rw [Segment.text_cons, Segment.chars, begins] at member
    rw [begins]
    exact member

/-- Lexemes that layout would not prolong, with layout between any two of them, are segments up to what
begins with layout. -/
theorem Lexis.segmented_of_apart {lx : Lexis} (comments : lx.comments = true)
    {segments after : List Segment} {last : List Char} (ends : IsLayout last)
    (apart : ∀ s ∈ (segments ++ after).tail, s.layout ≠ [])
    (layout : ∀ s ∈ segments ++ after, IsLayout s.layout)
    (written : ∀ s ∈ segments, ∃ more, lx.Writes s.word s.lexeme more ∧
      ∀ y, lx.opensLayout y = true → more y = false) :
    lx.Segmented (Segment.text after ++ last) segments := by
  induction segments with
  | nil => exact .nil
  | cons s segments ih =>
    rw [List.cons_append, List.tail_cons] at apart
    rw [List.cons_append, List.forall_mem_cons] at layout
    rw [List.forall_mem_cons] at written
    obtain ⟨⟨more, writes, stops⟩, written⟩ := written
    have further := ih (fun s member => apart s (List.mem_of_mem_tail member)) layout.2 written
    refine .cons ⟨layout.1, more, writes, fun y member => stops y ?_⟩ further
    rw [← List.append_assoc, ← Segment.text_append] at member
    exact Segment.opensLayout_behind comments apart layout.2 ends y member

/-- The call for a rendered lexeme that does not fit fails behind its digits. -/
theorem Edition.nth_long {limit : DigitLimit} {before after : List Segment} {s : Segment}
    {last : List Char} {c : Cursor}
    (read : (Edition.calls.lexis limit).Segmented (Segment.text (s :: after) ++ last) before)
    (layout : IsLayout s.layout) (renders : s.lexeme.Renders s.word)
    (long : s.lexeme.fits limit s.word = false)
    (ends : ∀ y ∈ (Segment.text after ++ last).head?, Edition.calls.lexis.opensLayout y = true)
    (left : c.rest = Segment.text (before ++ s :: after) ++ last) :
    (Edition.calls.lexis limit).nth before.length c =
      .error (.malformedWhole (.tooLong limit.most s.word.length))
        (c.advanceBy (Segment.text (before ++ [s])).length) := by
  have full : (Edition.calls.lexis limit).Full := Edition.full_lexis rfl
  rw [Segment.text_append, List.append_assoc] at left
  have behind : (c.advanceBy (Segment.text before).length).rest =
      s.layout ++ (s.word ++ (Segment.text after ++ last)) := by
    rw [Cursor.advanceBy_rest, left, List.drop_left, Segment.text_cons, Segment.chars, List.append_assoc,
      List.append_assoc]
  have here : ((c.advanceBy (Segment.text before).length).advanceBy s.layout.length).rest =
      s.word ++ (Segment.text after ++ last) := by
    rw [Cursor.advanceBy_rest, behind, List.drop_left]
  obtain ⟨⟨x, chars, word, opens⟩, failed⟩ := renders.token_long long here ends
  have call := read.nth_add full left 0
  rw [word, List.cons_append] at behind
  rw [Nat.add_zero, Lexis.nth, full.token_past_layout layout behind opens, failed, ← Cursor.advanceBy_add,
    ← Cursor.advanceBy_add] at call
  rw [call, Segment.text_append, Segment.text_cons, Segment.text_nil, List.append_nil, List.length_append,
    Segment.chars, List.length_append]

/-- Rendered lexemes with layout between any two of them are read back in order by the calls of the last
edition's reader, each where it stands, and every further call finds the end of the text. Where a limit is
set and a run of digits is longer, that is so up to the first such run, and the call for this run fails. -/
theorem calls_read_rendered {limit : DigitLimit} {segments : List Segment} {last : List Char}
    (rendered : ∀ s ∈ segments, IsLayout s.layout ∧ s.lexeme.Renders s.word)
    (apart : ∀ s ∈ segments.tail, s.layout ≠ []) (layout : IsLayout last)
    (nonempty : Segment.text segments ++ last ≠ []) :
    ∃ c, (Edition.calls.lexis limit).openText (String.ofList (Segment.text segments ++ last)) = .ok c ∧
      (∀ before s after, segments = before ++ s :: after →
        (∀ t ∈ before, t.lexeme.fits limit t.word = true) →
        (Edition.calls.lexis limit).nth before.length c =
          if s.lexeme.fits limit s.word then
            .ok (.lexeme s.lexeme (c.advanceBy ((Segment.text before).length + s.layout.length)).place)
              (c.advanceBy (Segment.text (before ++ [s])).length)
          else
            .error (.malformedWhole (.tooLong limit.most s.word.length))
              (c.advanceBy (Segment.text (before ++ [s])).length)) ∧
      ((∀ s ∈ segments, s.lexeme.fits limit s.word = true) → ∀ n, segments.length ≤ n →
        ∃ d, (Edition.calls.lexis limit).nth n c = .ok .endOfText d) := by
  have full : (Edition.calls.lexis limit).Full := Edition.full_lexis rfl
  have segmented {before after : List Segment} (cut : segments = before ++ after)
      (fits : ∀ t ∈ before, t.lexeme.fits limit t.word = true) :
      (Edition.calls.lexis limit).Segmented (Segment.text after ++ last) before := by
    subst cut
    refine Lexis.segmented_of_apart rfl layout apart (fun s member => (rendered s member).1) fun s member => ?_
    exact (rendered s (List.mem_append_left _ member)).2.writes (fits s member)
  have something : String.ofList (Segment.text segments ++ last) ≠ "" := by
    intro none
    refine nonempty ?_
    rw [← String.toList_ofList (l := Segment.text segments ++ last), none]
    rfl
  refine ⟨.start (Segment.text segments ++ last), ?_, ?_, ?_⟩
  · rw [Lexis.openText_of_ne something, String.toList_ofList]
  · rintro before s after rfl fits
    split
    · rename_i here
      -- the segment belongs to those that are read
      have regroup : before ++ s :: after = (before ++ [s]) ++ after := by
        rw [List.append_assoc, List.singleton_append]
      have read := segmented regroup (List.forall_mem_append.mpr ⟨fits, List.forall_mem_singleton.mpr here⟩)
      refine read.nth_eq full ?_
      rw [Cursor.start_rest, ← List.append_assoc, ← Segment.text_append, ← regroup]
    · rename_i long
      rw [Bool.not_eq_true] at long
      obtain ⟨isLayout, renders⟩ := rendered s (List.mem_append_right _ List.mem_cons_self)
      have later : ∀ t ∈ after, t ∈ (before ++ s :: after).tail := by
        intro t member
        cases before with
        | nil => exact member
        | cons _ _ => exact List.mem_append_right _ (List.mem_cons_of_mem _ member)
      refine Edition.nth_long (segmented rfl fits) isLayout renders long ?_ (Cursor.start_rest _)
      exact Segment.opensLayout_behind rfl (fun t member => apart t (later t member))
        (fun t member => (rendered t (List.mem_of_mem_tail (later t member))).1) layout
  · intro fits n behind
    obtain ⟨k, rfl⟩ := Nat.exists_eq_add_of_le behind
    have read := segmented (List.append_nil segments).symm fits
    rw [Segment.text_nil, List.nil_append] at read
    refine ⟨_, (read.nth_add full (Cursor.start_rest _) k).trans (full.nth_layout ?_ k)⟩
    rw [Cursor.advanceBy_rest, Cursor.start_rest, List.drop_left]
    exact layout

/-- A reserved word in mixed letters, a number that ends with its point, a point of its own, and a colon
before the assignment mark; and three digits where two are allowed, leading zeros included. -/
theorem calls_read_rendered_points_and_colons :
    (∃ c, Edition.calls.lexis.openText "bEgIn\x7b:\x7d2. .\n: := " = .ok c ∧
      (∃ d, Edition.calls.lexis.nth 0 c = .ok (.lexeme (.reserved .beginBlock) ⟨1, 1⟩) d) ∧
      (∃ d, Edition.calls.lexis.nth 1 c =
        .ok (.lexeme (.literal (.real (Number.nearest 2 1))) ⟨1, 9⟩) d) ∧
      (∃ d, Edition.calls.lexis.nth 2 c = .ok (.lexeme (.punctuation .dot) ⟨1, 12⟩) d) ∧
      (∃ d, Edition.calls.lexis.nth 3 c = .ok (.lexeme (.punctuation .colon) ⟨2, 1⟩) d) ∧
      (∃ d, Edition.calls.lexis.nth 4 c = .ok (.lexeme (.punctuation .assign) ⟨2, 3⟩) d) ∧
      ∀ n, 5 ≤ n → ∃ d, Edition.calls.lexis.nth n c = .ok .endOfText d) ∧
    ∃ c, (Edition.calls.lexis ⟨2⟩).openText "12 012" = .ok c ∧
      (∃ d, (Edition.calls.lexis ⟨2⟩).nth 0 c = .ok (.lexeme (.literal (.whole 12)) ⟨1, 1⟩) d) ∧
      ∃ d, (Edition.calls.lexis ⟨2⟩).nth 1 c = .error (.malformedWhole (.tooLong 2 3)) d := by
  constructor
  · have comment : IsLayout ['\x7b', ':', '\x7d'] := @IsLayout.comment [':'] [] (by decide) .nil
    have blank : IsLayout [' '] := .blank rfl .nil
    have newline : IsLayout ['\n'] := .blank rfl .nil
    obtain ⟨c, opened, read, ended⟩ := @calls_read_rendered .off
      [⟨[], ['b', 'E', 'g', 'I', 'n'], .reserved .beginBlock⟩,
        ⟨['\x7b', ':', '\x7d'], ['2', '.'], .literal (.real (Number.nearest 2 1))⟩,
        ⟨[' '], ['.'], .punctuation .dot⟩,
        ⟨['\n'], [':'], .punctuation .colon⟩,
        ⟨[' '], [':', '='], .punctuation .assign⟩] [' ']
      (by
        simp only [List.forall_mem_cons]
        exact ⟨⟨.nil, .reserved rfl (by decide)⟩,
          ⟨comment, @Lexeme.Renders.real ['2'] [] (by decide) (by simp)⟩,
          ⟨blank, @Lexeme.Renders.mark (.punctuation .dot) rfl⟩,
          ⟨newline, @Lexeme.Renders.mark (.punctuation .colon) rfl⟩,
          ⟨blank, @Lexeme.Renders.mark (.punctuation .assign) rfl⟩, by simp⟩)
      (by simp) blank (by simp)
    obtain rfl := Lexis.openText_eq_ok opened
    have fits : ∀ segments : List Segment, ∀ s ∈ segments, s.lexeme.fits .off s.word = true :=
      fun _ s _ => Lexeme.fits_off s.word s.lexeme
    exact ⟨_, opened, ⟨_, read [] _ _ rfl (fits _)⟩, ⟨_, read [_] _ _ rfl (fits _)⟩,
      ⟨_, read [_, _] _ _ rfl (fits _)⟩, ⟨_, read [_, _, _] _ _ rfl (fits _)⟩,
      ⟨_, read [_, _, _, _] _ _ rfl (fits _)⟩, ended (fits _)⟩
  · obtain ⟨c, opened, read, _⟩ := @calls_read_rendered ⟨2⟩
      [⟨[], ['1', '2'], .literal (.whole 12)⟩, ⟨[' '], ['0', '1', '2'], .literal (.whole 12)⟩] []
      (by
        simp only [List.forall_mem_cons]
        exact ⟨⟨.nil, @Lexeme.Renders.whole ['1', '2'] (by decide) (by simp)⟩,
          ⟨.blank rfl .nil, @Lexeme.Renders.whole ['0', '1', '2'] (by decide) (by simp)⟩, by simp⟩)
      (by simp) .nil (by simp [Segment.chars])
    obtain rfl := Lexis.openText_eq_ok opened
    exact ⟨_, opened, ⟨_, read [] _ _ rfl (by simp)⟩,
      ⟨_, read [_] _ _ rfl (List.forall_mem_singleton.mpr rfl)⟩⟩

end LittlePascal
