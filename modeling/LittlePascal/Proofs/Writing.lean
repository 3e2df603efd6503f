import LittlePascal.Proofs.Spelling

/-! # Layout and lexemes, character by character

Layout is a sequence of blanks and closed comments, and reading passes exactly that. Behind layout a text
goes on with a lexeme, which takes as many characters as it can, or with a character to blame: one that
begins no lexeme, or a digit of a number without a value.

Main definitions: `IsLayout`, `commentsClosed`, `Lexis.Writes`, `Lexis.Blames`.

Main statements: `isLayout_take`, `Lexis.Writes.spells`, `Lexis.Full.writesOrBlames`,
`Edition.full_lexis`. -/

namespace LittlePascal

/-! ## Layout -/

/-- No character of a name is blank. -/
theorem Text.isNameChar_of_isBlank {c : Char} (h : isBlank c = true) : isNameChar c = false := by
  -- the blanks are few, so each of them is looked up
  have all : ∀ range ∈ blankRanges, ∀ i < range.2 + 1 - range.1,
      isNameChar (Char.ofNat (range.1 + i)) = false := by
    decide +kernel
  obtain ⟨range, member, lower, upper⟩ := inRanges_iff.mp h
  have fact := all range member (c.toNat - range.1) (by omega)
  rwa [Nat.add_sub_cancel' lower, Char.ofNat_toNat] at fact

/-- Blanks and closed comments, one after the other. -/
inductive IsLayout : List Char → Prop where
  | nil : IsLayout []
  | blank {x : Char} {s : List Char} : Text.isBlank x = true → IsLayout s → IsLayout (x :: s)
  | comment {body s : List Char} :
      '\x7d' ∉ body → IsLayout s → IsLayout ('\x7b' :: (body ++ '\x7d' :: s))

/-- Whether every comment of a text is closed. The flag `inside` says that one is open. -/
def commentsClosed : (inside : Bool) → List Char → Bool
  | inside, [] => !inside
  | false, c :: rest => commentsClosed (c == '\x7b') rest
  | true, c :: rest => commentsClosed (c != '\x7d') rest

/-- An open comment is passed up to the brace that closes it. -/
theorem layoutLength_inside {body : List Char} (unclosed : '\x7d' ∉ body) (rest : List Char) :
    layoutLength true true (body ++ '\x7d' :: rest) =
      (layoutLength true false rest).map (· + (body.length + 1)) := by
  induction body with
  | nil => rfl
  | cons x body ih =>
    rw [List.mem_cons, not_or] at unclosed
    have other : (x != '\x7d') = true := bne_iff_ne.mpr (Ne.symm unclosed.1)
    rw [List.cons_append, layoutLength, other, ih unclosed.2, Option.map_map]
    rfl

/-- Layout is passed over, whatever follows it. -/
theorem IsLayout.layoutLength_append {s : List Char} (h : IsLayout s) (rest : List Char) :
    layoutLength true false (s ++ rest) = (layoutLength true false rest).map (· + s.length) := by
  induction h with
  | nil => exact Option.map_id'.symm
  | blank blank _ ih =>
    rw [List.cons_append, layoutLength, if_pos blank, ih, Option.map_map]
    rfl
  | @comment body s unclosed _ ih =>
    have brace : Text.isBlank '\x7b' = false := rfl
    rw [List.cons_append, List.append_assoc, List.cons_append, layoutLength, brace,
      layoutLength_inside unclosed, ih, Option.map_map]
    simp only [Bool.false_eq_true, if_false, Bool.true_and, beq_self_eq_true, if_true,
      Option.map_map]
    congr 1
    funext n
    simp only [Function.comp_apply, List.length_cons, List.length_append]
    omega

/-- What is passed over is layout; inside a comment, with the brace that opens it. -/
theorem isLayout_take {inside : Bool} {text : List Char} {n : Nat}
    (h : layoutLength true inside text = some n) :
    IsLayout ((if inside then ['\x7b'] else []) ++ text.take n) := by
  induction text generalizing inside n with
  | nil =>
    cases inside with
    | false =>
      cases h
      exact .nil
    | true => cases h
  | cons x rest ih =>
    cases inside with
    | false =>
      by_cases blank : Text.isBlank x = true
      · rw [layoutLength, if_pos blank] at h
        obtain ⟨m, more, rfl⟩ := Option.map_eq_some_iff.mp h
        exact .blank blank (ih more)
      · by_cases opened : (true && x == '\x7b') = true
        · rw [layoutLength, if_neg blank, if_pos opened] at h
          obtain ⟨m, more, rfl⟩ := Option.map_eq_some_iff.mp h
          rw [Bool.true_and, beq_iff_eq] at opened
          subst opened
          exact ih more
        · rw [layoutLength, if_neg blank, if_neg opened] at h
          cases h
          exact .nil
    | true =>
      rw [layoutLength] at h
      obtain ⟨m, more, rfl⟩ := Option.map_eq_some_iff.mp h
      by_cases closes : x = '\x7d'
      · subst closes
        show IsLayout ('\x7b' :: ([] ++ '\x7d' :: rest.take m))
        exact .comment List.not_mem_nil (ih more)
      · -- one more character of the comment
        rw [bne_iff_ne.mpr closes] at more
        have opened : IsLayout ('\x7b' :: rest.take m) := ih more
        show IsLayout ('\x7b' :: x :: rest.take m)
        generalize rest.take m = taken at opened
        cases opened with
        | blank blank _ => cases blank
        | @comment body s unclosed behind =>
          rw [← List.cons_append]
          refine .comment ?_ behind
          rw [List.mem_cons, not_or]
          exact ⟨Ne.symm closes, unclosed⟩

/-- Where all comments are closed layout ends. -/
theorem layoutLength_of_closed {inside : Bool} {text : List Char}
    (closed : commentsClosed inside text = true) : ∃ n, layoutLength true inside text = some n := by
  induction text generalizing inside with
  | nil =>
    cases inside with
    | false => exact ⟨0, rfl⟩
    | true => cases closed
  | cons x rest ih =>
    cases inside with
    | false =>
      rw [commentsClosed] at closed
      obtain ⟨n, length⟩ := ih closed
      by_cases blank : Text.isBlank x = true
      · -- a blank opens no comment
        have other : (x == '\x7b') = false := by
          rw [beq_eq_false_iff_ne]
          rintro rfl
          cases blank
        rw [other] at length
        exact ⟨n + 1, by rw [layoutLength, if_pos blank, length]; rfl⟩
      · by_cases opened : (x == '\x7b') = true
        · rw [opened] at length
          exact ⟨n + 1, by rw [layoutLength, if_neg blank, opened, length]; rfl⟩
        · exact ⟨0, by rw [layoutLength, if_neg blank, Bool.true_and, if_neg opened]⟩
    | true =>
      rw [commentsClosed] at closed
      obtain ⟨n, length⟩ := ih closed
      exact ⟨n + 1, by rw [layoutLength, length]; rfl⟩

/-- Layout closes its comments. -/
theorem IsLayout.commentsClosed_append {s : List Char} (h : IsLayout s) (rest : List Char) :
    commentsClosed false (s ++ rest) = commentsClosed false rest := by
  have inside : ∀ {body : List Char}, '\x7d' ∉ body → ∀ behind,
      commentsClosed true (body ++ '\x7d' :: behind) = commentsClosed false behind := by
    intro body unclosed behind
    induction body with
    | nil => rfl
    | cons x body ih =>
      rw [List.mem_cons, not_or] at unclosed
      rw [List.cons_append, commentsClosed, bne_iff_ne.mpr (Ne.symm unclosed.1), ih unclosed.2]
  induction h with
  | nil => rfl
  | @blank x s blank _ ih =>
    have other : (x == '\x7b') = false := by
      rw [beq_eq_false_iff_ne]
      rintro rfl
      cases blank
    rw [List.cons_append, commentsClosed, other, ih]
  | @comment body s unclosed _ ih =>
    rw [List.cons_append, List.append_assoc, List.cons_append, commentsClosed, beq_self_eq_true,
      inside unclosed, ih]

/-- Characters that open no comment make no difference to the comments behind them. -/
theorem commentsClosed_append_of_not_mem {word : List Char} (h : '\x7b' ∉ word) (rest : List Char) :
    commentsClosed false (word ++ rest) = commentsClosed false rest := by
  induction word with
  | nil => rfl
  | cons x word ih =>
    rw [List.mem_cons, not_or] at h
    rw [List.cons_append, commentsClosed, beq_eq_false_iff_ne.mpr (Ne.symm h.1), ih h.2]

/-! ## Lexemes and what would prolong them -/

namespace Lexis

/-- The decisions about lexemes that the editions with declarations share. -/
structure Full (lx : Lexis) : Prop where
  blanks : lx.blanks = true
  comments : lx.comments = true
  numbers : lx.numbers = .decimal
  words : lx.words = true
  assign : lx.assign = true
  /-- No other lexeme and no layout begins with a mark. -/
  marks : ∀ {x : Char} {l : Lexeme}, lx.mark x = some l →
    Text.isLetter x = false ∧ Text.isDigit x = false ∧ lx.opensLayout x = false

/-- The ways to write a lexeme, each with the class of the characters that would prolong it. -/
inductive Writes (lx : Lexis) : List Char → Lexeme → (Char → Bool) → Prop where
  | word {x : Char} {word : List Char} :
      Text.isLetter x = true → (∀ y ∈ word, Text.isNameChar y = true) →
      Writes lx (x :: word) (lx.wordLexeme (x :: word)) Text.isNameChar
  | whole {x : Char} {digits : List Char} {n : Nat} :
      Text.isLetter x = false → (∀ y ∈ x :: digits, Text.isDigit y = true) →
      Text.decimalValue? (x :: digits) = some n → lx.limit.allows (x :: digits).length = true →
      Writes lx (x :: digits) (.literal (.whole n)) (fun y => Text.isDigit y || y == '.')
  | real {x : Char} {before after : List Char} {n : Nat} :
      Text.isLetter x = false → (∀ y ∈ x :: before, Text.isDigit y = true) →
      (∀ y ∈ after, Text.isDigit y = true) → Text.decimalValue? (x :: before ++ after) = some n →
      Writes lx (x :: before ++ '.' :: after)
        (.literal (.real (Number.nearest n (Number.tenTo after.length)))) Text.isDigit
  | assign : Writes lx [':', '='] (.punctuation .assign) (fun _ => false)
  | mark {x : Char} {l : Lexeme} :
      lx.mark x = some l → Writes lx [x] l (fun y => x == ':' && y == '=')

variable {lx : Lexis} {word rest : List Char} {l : Lexeme} {more : Char → Bool}

/-- Where layout is over none begins. -/
theorem opensLayout_of_layoutLength {x : Char}
    (h : layoutLength lx.comments false (x :: rest) = some 0) : lx.opensLayout x = false := by
  rw [layoutLength] at h
  rw [opensLayout, Bool.or_eq_false_iff]
  by_cases blank : Text.isBlank x = true
  · rw [if_pos blank] at h
    obtain ⟨_, _, same⟩ := Option.map_eq_some_iff.mp h
    exact absurd same (Nat.succ_ne_zero _)
  · by_cases opened : (lx.comments && x == '\x7b') = true
    · rw [if_neg blank, if_pos opened] at h
      obtain ⟨_, _, same⟩ := Option.map_eq_some_iff.mp h
      exact absurd same (Nat.succ_ne_zero _)
    · exact ⟨Bool.not_eq_true _ ▸ blank, Bool.not_eq_true _ ▸ opened⟩

/-- No name begins with layout. -/
theorem opensLayout_of_isNameChar {x : Char} (h : Text.isNameChar x = true) :
    lx.opensLayout x = false := by
  rw [opensLayout, Bool.or_eq_false_iff, Bool.and_eq_false_iff, beq_eq_false_iff_ne]
  constructor
  · rw [← Bool.not_eq_true]
    intro blank
    rw [Text.isNameChar_of_isBlank blank] at h
    cases h
  · right
    rintro rfl
    have none : Text.isNameChar '\x7b' = false := by decide
    rw [none] at h
    cases h

/-- Reading goes on behind layout. -/
theorem Full.token_past_layout (full : lx.Full) {c : Cursor} {gap : List Char} {x : Char}
    (layout : IsLayout gap) (left : c.rest = gap ++ x :: rest) (opens : lx.opensLayout x = false) :
    lx.token c = lx.token (c.advanceBy gap.length) := by
  have none : layoutLength true false (x :: rest) = some 0 := by
    rw [← full.comments]
    exact layoutLength_of_not_opens opens
  have length : layoutLength lx.comments false c.rest = some gap.length := by
    rw [full.comments, left, layout.layoutLength_append, none, Option.map_some, Nat.zero_add]
  exact token_layout full.blanks length

/-- A number is read with or without a point. -/
theorem Full.token_digit (full : lx.Full) {c : Cursor} {x : Char} (left : c.rest = x :: rest)
    (letter : Text.isLetter x = false) (digit : Text.isDigit x = true) :
    lx.token c = (Scan.decimal lx.limit >>= fun l => pure (.lexeme (.literal l) c.place)) c := by
  have layout : lx.opensLayout x = false :=
    opensLayout_of_isNameChar (Text.isNameChar_of_isDigit digit)
  rw [token_number left layout letter digit, literal, full.numbers]

/-- Digits that are not read as a number are passed nevertheless. -/
theorem Full.token_of_wholeOf_error (full : lx.Full) {c : Cursor} {x : Char} {digits : List Char}
    {fault : Fault} (left : c.rest = x :: digits ++ rest) (letter : Text.isLetter x = false)
    (all : ∀ y ∈ x :: digits, Text.isDigit y = true)
    (ends : ∀ y ∈ rest.head?, Text.isDigit y = false ∧ y ≠ '.')
    (failed : ∀ d, Scan.wholeOf lx.limit (x :: digits) d = .error fault d) :
    lx.token c = .error fault (c.advanceBy (x :: digits).length) := by
  rw [full.token_digit left letter (all x List.mem_cons_self)]
  refine Work.bind_of_error ?_
  rw [Scan.decimal_whole left all ends]
  exact Work.bind_of_error (failed _)

/-- A lexeme that ends before a character of no class that would prolong it is read up to there. -/
theorem Writes.spells (full : lx.Full) (h : lx.Writes word l more)
    (ends : ∀ y ∈ rest.head?, more y = false) : lx.Spells word l rest := by
  cases h with
  | word letter all =>
    exact spells_word full.words (opensLayout_of_isNameChar (Text.isNameChar_of_isLetter letter))
      letter all ends
  | @whole x digits n letter all value short =>
    have layout := @opensLayout_of_isNameChar lx x (Text.isNameChar_of_isDigit (all x List.mem_cons_self))
    refine spells_digits (.inr ⟨full.numbers, fun point => ?_⟩) layout letter all value short
      fun y member => ?_
    · have stops := ends '.' point
      cases stops
    · exact (Bool.or_eq_false_iff.mp (ends y member)).1
  | @real x before after n letter all all' value =>
    refine ⟨List.cons_ne_nil _ _, fun c left => ?_⟩
    have split : c.rest = x :: before ++ '.' :: (after ++ rest) := by
      rw [left, List.append_assoc]
      rfl
    have read : Scan.decimal lx.limit c = .ok (.real (Number.nearest n (Number.tenTo after.length)))
        (c.advanceBy (x :: before ++ '.' :: after).length) := by
      rw [Scan.decimal_real split all all' ends]
      simp only [Scan.realOf, value]
      rfl
    rw [full.token_digit split letter (all x List.mem_cons_self), Work.bind_of_ok read]
    rfl
  | assign => exact spells_assign full.assign
  | @mark x l marked =>
    obtain ⟨letter, digit, layout⟩ := full.marks marked
    refine spells_mark layout letter digit marked ?_
    rintro rfl equals
    have stops := ends '=' equals
    cases stops

/-- What is written stands for one lexeme only. -/
theorem Writes.unique (full : lx.Full) {l' : Lexeme} {more' : Char → Bool}
    (first : lx.Writes word l more) (second : lx.Writes word l' more') : l = l' := by
  -- read alone, the characters stand for the one as well as for the other
  have alone : ∀ {l more}, lx.Writes word l more →
      lx.token (.start word) = .ok (.lexeme l ⟨1, 1⟩) ((Cursor.start word).advanceBy word.length) :=
    by
    intro l more written
    have spelled : lx.Spells word l [] := written.spells full (by simp)
    exact spelled.2 (.start word) (by simp)
  have same := (alone first).symm.trans (alone second)
  injection same with same
  injection same

/-- A text begins with the longest run of a class. -/
theorem exists_run (p : Char → Bool) (text : List Char) :
    ∃ run rest, text = run ++ rest ∧ (∀ y ∈ run, p y = true) ∧ ∀ y ∈ rest.head?, p y = false := by
  refine ⟨text.takeWhile p, text.dropWhile p, List.takeWhile_append_dropWhile.symm,
    List.all_eq_true.mp List.all_takeWhile, fun y member => ?_⟩
  have stop := List.head?_dropWhile_not p text
  rw [Option.mem_def.mp member] at stop
  exact stop

/-- The faults of a text that goes on with a character and has no lexeme there. -/
inductive Blames (lx : Lexis) (x : Char) (place : Place) : Fault → Prop where
  | whole (digits : String) :
      Text.isLetter x = false → Text.isDigit x = true →
      Blames lx x place (.malformedWhole (.undecimal digits))
  | long (count : Nat) :
      Text.isLetter x = false → Text.isDigit x = true → lx.limit.allows count = false →
      Blames lx x place (.malformedWhole (.tooLong lx.limit.most count))
  | real (digits : String) :
      Text.isLetter x = false → Text.isDigit x = true → Blames lx x place (.malformedReal digits)
  | character :
      Text.isLetter x = false → Text.isDigit x = false → lx.mark x = none →
      Blames lx x place (.character (some x) place)

/-- What a text goes on with: a lexeme that is written and ends, or a character to blame. -/
def WritesOrBlames (lx : Lexis) (x : Char) (rest : List Char) : Prop :=
  (∃ word behind l more, x :: rest = word ++ behind ∧ lx.Writes word l more ∧
    ∀ y ∈ behind.head?, more y = false) ∨
  ∀ c : Cursor, c.rest = x :: rest → ∃ fault d, lx.token c = .error fault d ∧
    lx.Blames x c.place fault

/-- A digit begins a number, or the digits have no value or are too many. -/
theorem Full.writesOrBlames_digit (full : lx.Full) {x : Char} (letter : Text.isLetter x = false)
    (digit : Text.isDigit x = true) : lx.WritesOrBlames x rest := by
  obtain ⟨digits, behind, rfl, all, ends⟩ := exists_run Text.isDigit rest
  have all : ∀ y ∈ x :: digits, Text.isDigit y = true := List.forall_mem_cons.mpr ⟨digit, all⟩
  by_cases point : behind.head? = some '.'
  · -- a point, and a second run of digits
    obtain ⟨behind, rfl⟩ := List.head?_eq_some_iff.mp point
    obtain ⟨after, behind, rfl, all', ends⟩ := exists_run Text.isDigit behind
    cases value : Text.decimalValue? (x :: digits ++ after) with
    | some n =>
      refine .inl ⟨x :: digits ++ '.' :: after, behind, _, _, ?_, .real letter all all' value, ends⟩
      rw [List.append_assoc, List.cons_append, List.cons_append]
    | none =>
      refine .inr fun c left => ⟨_, c.advanceBy (x :: digits ++ '.' :: after).length, ?_,
        .real (String.ofList (x :: digits ++ '.' :: after)) letter digit⟩
      rw [full.token_digit left letter digit]
      refine Work.bind_of_error ?_
      rw [Scan.decimal_real left all all' ends]
      simp only [Scan.realOf, value]
      rfl
  · have stops : ∀ y ∈ behind.head?, Text.isDigit y = false ∧ y ≠ '.' := by
      refine fun y member => ⟨ends y member, ?_⟩
      rintro rfl
      exact point member
    cases short : lx.limit.allows (Text.leadingDecimals (x :: digits)) with
    | false =>
      exact .inr fun c left => ⟨_, _, full.token_of_wholeOf_error left letter all stops
        (Scan.wholeOf_of_long short), .long _ letter digit short⟩
    | true =>
      cases value : Text.decimalValue? (x :: digits) with
      | some n =>
        rw [Text.leadingDecimals_of_decimalValue? value] at short
        refine .inl ⟨x :: digits, behind, _, _, rfl, .whole letter all value short, fun y member => ?_⟩
        rw [Bool.or_eq_false_iff, beq_eq_false_iff_ne]
        exact stops y member
      | none =>
        refine .inr fun c left => ⟨_, _, full.token_of_wholeOf_error left letter all stops fun d => ?_,
          .whole (String.ofList (x :: digits)) letter digit⟩
        rw [Scan.wholeOf, if_pos short, value]
        rfl

/-- Where no layout begins a lexeme is written and ends, or its first character is to blame. -/
theorem Full.writesOrBlames (full : lx.Full) {x : Char} (layout : lx.opensLayout x = false) :
    lx.WritesOrBlames x rest := by
  by_cases letter : Text.isLetter x = true
  · -- a word goes on as long as it can
    obtain ⟨word, behind, rfl, all, ends⟩ := exists_run Text.isNameChar rest
    exact .inl ⟨x :: word, behind, _, _, rfl, .word letter all, ends⟩
  rw [Bool.not_eq_true] at letter
  by_cases digit : Text.isDigit x = true
  · exact full.writesOrBlames_digit letter digit
  rw [Bool.not_eq_true] at digit
  by_cases assign : x = ':' ∧ rest.head? = some '='
  · obtain ⟨rfl, equals⟩ := assign
    obtain ⟨behind, rfl⟩ := List.head?_eq_some_iff.mp equals
    exact .inl ⟨[':', '='], behind, _, _, rfl, .assign, fun _ _ => rfl⟩
  cases marked : lx.mark x with
  | some l =>
    refine .inl ⟨[x], rest, l, _, rfl, .mark marked, fun y member => ?_⟩
    rw [Bool.and_eq_false_iff, beq_eq_false_iff_ne, beq_eq_false_iff_ne]
    by_cases colon : x = ':'
    · right
      rintro rfl
      exact assign ⟨colon, member⟩
    · exact .inl colon
  | none =>
    refine .inr fun c left => ⟨_, c, ?_, .character letter digit marked⟩
    have other : (lx.assign && x == ':' && rest.head? == some '=') = false := by
      rw [Bool.and_assoc, Bool.and_eq_false_iff]
      right
      rw [← Bool.not_eq_true, Bool.and_eq_true, beq_iff_eq, beq_iff_eq]
      exact assign
    rw [token_cons left layout, letter, digit, other]
    simp only [Bool.and_false, Bool.false_eq_true, if_false, marked]
    rw [reject, Work.get_bind, Cursor.char?, left]
    rfl

/-- What is written does not begin with layout. -/
theorem Writes.exists_cons (full : lx.Full) (h : lx.Writes word l more) :
    ∃ x chars, word = x :: chars ∧ lx.opensLayout x = false := by
  cases h with
  | word letter _ =>
    exact ⟨_, _, rfl, opensLayout_of_isNameChar (Text.isNameChar_of_isLetter letter)⟩
  | @whole x _ _ _ all _ _ | @real x _ _ _ _ all _ _ =>
    exact ⟨_, _, rfl, opensLayout_of_isNameChar
      (Text.isNameChar_of_isDigit (all x List.mem_cons_self))⟩
  | assign =>
    have colon : Text.isBlank ':' = false := by decide
    refine ⟨':', ['='], rfl, ?_⟩
    rw [opensLayout, colon, show (':' == '\x7b') = false from rfl, Bool.and_false, Bool.or_self]
  | mark marked => exact ⟨_, [], rfl, (full.marks marked).2.2⟩

/-- What is written opens no comment. -/
theorem Writes.not_mem_brace (full : lx.Full) (h : lx.Writes word l more) : '\x7b' ∉ word := by
  have name : Text.isNameChar '\x7b' = false := by decide
  have names : ∀ {chars : List Char}, (∀ y ∈ chars, Text.isNameChar y = true) → '\x7b' ∉ chars := by
    intro chars all member
    have inside := all _ member
    rw [name] at inside
    cases inside
  have digits : ∀ {chars : List Char}, (∀ y ∈ chars, Text.isDigit y = true) → '\x7b' ∉ chars :=
    fun all => names fun y member => Text.isNameChar_of_isDigit (all y member)
  cases h with
  | word letter all =>
    exact names (List.forall_mem_cons.mpr ⟨Text.isNameChar_of_isLetter letter, all⟩)
  | whole _ all _ _ => exact digits all
  | real _ all all' _ =>
    rw [List.mem_append, not_or]
    refine ⟨digits all, ?_⟩
    rw [List.mem_cons, not_or]
    exact ⟨by decide, digits all'⟩
  | assign => decide
  | @mark x _ marked =>
    have layout := (full.marks marked).2.2
    rw [List.mem_singleton]
    rintro rfl
    rw [opensLayout, full.comments, beq_self_eq_true, Bool.and_self, Bool.or_true] at layout
    cases layout

end Lexis

/-! ## The editions with declarations -/

namespace Edition

/-- The characters that are lexemes by themselves in the editions with declarations. -/
def markChars : List Char := ['+', '-', '*', '/', '(', ')', ';', '.', ':', ',']

/-- Only these characters are marks. -/
theorem mem_markChars {e : Edition} {x : Char} {l : Lexeme} (h : e.mark x = some l) :
    x ∈ markChars := by
  have sign : ∀ {l}, signMark x = some l → x ∈ markChars := by
    intro l
    unfold signMark
    split <;> simp [markChars]
  have product : ∀ {l}, productMark x = some l → x ∈ markChars := by
    intro l
    unfold productMark
    split <;> simp [markChars]
  have paren : ∀ {l}, parenMark x = some l → x ∈ markChars := by
    intro l
    unfold parenMark
    split <;> simp [markChars]
  have statement : ∀ {l}, statementMark x = some l → x ∈ markChars := by
    intro l
    unfold statementMark
    split <;> simp [markChars]
  have declaration : ∀ {l}, declarationMark x = some l → x ∈ markChars := by
    intro l
    unfold declarationMark
    split <;> simp [markChars]
  have spelled : ∀ {l}, spelledMark x = some l → x ∈ markChars := by
    intro l found
    obtain ⟨k, found, _⟩ := Option.bind_eq_some_iff.mp found
    have all : ∀ k ∈ Kind.all, k.spelling.toList.length = 1 →
        k.spelling.toList.all (· ∈ markChars) = true := by decide
    have same : k.spelling = String.singleton x := by simpa using List.find?_some found
    have chars : k.spelling.toList = [x] := by rw [same, String.toList_singleton]
    have known := all k (List.mem_of_find?_eq_some found)
    rw [chars] at known
    simpa using known rfl
  cases e with
  | digits =>
    rw [mark] at h
    split at h
    · simp_all [markChars]
    · cases h
  | _ =>
    simp only [mark, Option.or_eq_some_iff] at h
    grind

/-- A test that all characters pass which are marks at all is passed by every mark. -/
theorem test_of_mark {e : Edition} {test : Char → Option Lexeme → Bool}
    (all : markChars.all (fun x => test x (e.mark x)) = true) {x : Char} {l : Lexeme}
    (h : e.mark x = some l) : test x (some l) = true := by
  have passed := List.all_eq_true.mp all x (mem_markChars h)
  rwa [h] at passed

/-- A test that all reserved words pass is passed by each that is found. -/
theorem test_of_reserved {e : Edition} {test : Lexeme → Bool}
    (all : e.reserved.all (fun entry => test entry.2) = true) {key : String} {l : Lexeme}
    (h : e.reserved.lookup key = some l) : test l = true := by
  obtain ⟨before, after, same, _⟩ := List.lookup_eq_some_iff.mp h
  rw [same, List.all_append, List.all_cons, Bool.and_eq_true, Bool.and_eq_true] at all
  exact all.2.1

/-- In the last edition they all are. -/
theorem mark_calls_isSome_iff {x : Char} : (Edition.calls.mark x).isSome = true ↔ x ∈ markChars := by
  constructor
  · intro h
    obtain ⟨l, marked⟩ := Option.isSome_iff_exists.mp h
    exact mem_markChars marked
  · have all : markChars.all (fun x => (Edition.calls.mark x).isSome) = true := by decide
    exact List.all_eq_true.mp all x

/-- No mark begins another lexeme or layout. -/
theorem mark_apart {e : Edition} {limit : DigitLimit} {x : Char} {l : Lexeme} (h : e.mark x = some l) :
    Text.isLetter x = false ∧ Text.isDigit x = false ∧ (e.lexis limit).opensLayout x = false := by
  have all : markChars.all (fun x =>
      !(Text.isLetter x || Text.isDigit x || Text.isBlank x || x == '\x7b')) = true := by decide
  have none := List.all_eq_true.mp all x (mem_markChars h)
  simp only [Bool.not_eq_true', Bool.or_eq_false_iff] at none
  obtain ⟨⟨⟨letter, digit⟩, blank⟩, brace⟩ := none
  refine ⟨letter, digit, ?_⟩
  rw [Lexis.opensLayout, blank, brace, Bool.and_false, Bool.or_self]

/-- The editions with declarations share their decisions about lexemes. -/
theorem full_lexis {e : Edition} {limit : DigitLimit} (h : e.hasDeclarations = true) :
    (e.lexis limit).Full where
  blanks := by cases e <;> first | rfl | cases h
  comments := h
  numbers := by cases e <;> first | rfl | cases h
  words := by cases e <;> first | rfl | cases h
  assign := by cases e <;> first | rfl | cases h
  marks := mark_apart

end Edition

end LittlePascal
