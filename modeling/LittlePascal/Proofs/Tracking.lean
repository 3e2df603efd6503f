import LittlePascal.Proofs.Resumption

/-! # Lines and columns

A cursor counts lines and columns while it moves. Whatever calls are made of a reader, one after the other
and also behind calls that fail, the cursor stands before the character at its position, its line is one more
than the number of newlines before it, and its column is the distance from the last of these. At the end of
the text the column stays where it is.

So a token carries the place of the first character of its lexeme, and a fault about a character tells the
place of that character.

Main definitions:
* `Text.lastNewline`, `Place.IsAt`: the place of a position, by the newlines before it;
* `Cursor.Tracks`: a cursor that keeps track of a text;
* `ReaderCall`, `Lexis.after`: the calls of a reader, and where they lead.

Main statements:
* `Cursor.Tracks.advance`, `Lexis.tracks_after`: one step, and any number of calls;
* `Scan.Passes`: work that moves on over characters of the text, with one lemma for each reader;
* `places_tracked`: what the last two editions know of lines and columns. -/

namespace LittlePascal

/-! ## Places of a text -/

/-- The index of the last newline before a position of a text; -1 if there is none. -/
def Text.lastNewline (text : List Char) : Nat → Int
  | 0 => -1
  | pos + 1 => if text[pos]? = some '\n' then pos else lastNewline text pos

/-- The place of a position in a text: lines are counted from one by the newlines before it, columns from the
last of these. -/
structure Place.IsAt (place : Place) (text : List Char) (pos : Nat) : Prop where
  line : place.line = 1 + (text.take pos).count '\n'
  column : (place.column : Int) = pos - Text.lastNewline text pos

/-- A cursor stands before the rest of a text and knows the place, the column as long as there is a character
left. -/
structure Cursor.Tracks (c : Cursor) (text : List Char) : Prop where
  rest : c.rest = text.drop c.pos
  line : c.line = 1 + (text.take c.pos).count '\n'
  column : c.pos < text.length → (c.column : Int) = c.pos - Text.lastNewline text c.pos

namespace Cursor.Tracks

variable {c : Cursor} {text : List Char}

/-- Before the first character nothing has been passed. -/
theorem start (text : List Char) : (Cursor.start text).Tracks text where
  rest := rfl
  line := by simp [Cursor.start]
  column _ := rfl

/-- The cursor stands before the character at its position. -/
theorem char?_eq (h : c.Tracks text) : c.char? = text[c.pos]? := by
  rw [Cursor.char?, h.rest, List.head?_drop]

/-- Where a character is left the place is that of the position. -/
theorem place_isAt (h : c.Tracks text) (inside : c.pos < text.length) : c.place.IsAt text c.pos :=
  ⟨h.line, h.column inside⟩

/-- A cursor that has something left stands inside the text. -/
theorem pos_lt (h : c.Tracks text) {x : Char} {rest : List Char} (left : c.rest = x :: rest) :
    c.pos < text.length := by
  have longer := congrArg List.length (h.rest.symm.trans left)
  rw [List.length_drop, List.length_cons] at longer
  omega

/-- One step on: a newline that is left behind begins a line, any other character lengthens it, and nothing
changes at the end of the text. -/
theorem advance (h : c.Tracks text) : c.advance.Tracks text := by
  obtain ⟨rest, pos, line, column⟩ := c
  obtain ⟨left, lines, columns⟩ := h
  dsimp only at left lines columns
  cases rest with
  | nil =>
    have beyond : text.length ≤ pos := List.drop_eq_nil_iff.mp left.symm
    refine ⟨?_, ?_, fun inside => ?_⟩
    · show [] = text.drop (pos + 1)
      rw [List.drop_eq_nil_of_le (by omega)]
    · show line = 1 + (text.take (pos + 1)).count '\n'
      rw [lines, List.take_of_length_le beyond, List.take_of_length_le (by omega)]
    · have inside : pos + 1 < text.length := inside
      omega
  | cons x rest =>
    have inside : pos < text.length := by
      have longer := congrArg List.length left
      rw [List.length_drop, List.length_cons] at longer
      omega
    obtain ⟨here, behind⟩ : x = text[pos] ∧ rest = text.drop (pos + 1) := by
      rw [List.drop_eq_getElem_cons inside] at left
      exact List.cons.inj left
    have current : text[pos]? = some x := by rw [List.getElem?_eq_getElem inside, here]
    refine ⟨behind, ?_, fun further => ?_⟩
    · -- the character that is left behind is one more before the position
      show (if x = '\n' then line + 1 else line) = 1 + (text.take (pos + 1)).count '\n'
      rw [List.take_add_one, current, Option.toList_some, List.count_append, List.count_singleton, lines]
      by_cases newline : x = '\n'
      · rw [if_pos newline, if_pos (beq_iff_eq.mpr newline)]
        omega
      · rw [if_neg newline, if_neg (mt beq_iff_eq.mp newline)]
        rfl
    · have further : pos + 1 < text.length := further
      have nonempty : rest.isEmpty = false := by
        rw [behind, List.isEmpty_eq_false_iff, Ne, List.drop_eq_nil_iff]
        omega
      have step : (Cursor.advance ⟨x :: rest, pos, line, column⟩).column =
          (if x = '\n' then 0 else column) + 1 := by
        show (if rest.isEmpty then _ else _ : Nat) = _
        rw [nonempty]
        rfl
      show ((Cursor.advance ⟨x :: rest, pos, line, column⟩).column : Int) =
        (pos + 1 : Nat) - Text.lastNewline text (pos + 1)
      rw [step, Text.lastNewline, current]
      -- the column that is left is known, since the position it belongs to is inside the text
      have before := columns inside
      by_cases newline : x = '\n'
      · rw [if_pos newline, if_pos (congrArg some newline)]
        omega
      · rw [if_neg newline, if_neg (mt Option.some.inj newline)]
        omega

/-- Any number of steps keep track of the text. -/
theorem advanceBy (h : c.Tracks text) (n : Nat) : (c.advanceBy n).Tracks text := by
  induction n generalizing c with
  | zero => exact h
  | succ n ih => exact ih h.advance

end Cursor.Tracks

/-! ## Work that moves on -/

namespace Scan

variable {α β : Type} {work : Scan α}

/-- Work that moves on over characters of the text, whether it fails or not. -/
def Passes (work : Scan α) : Prop := ∀ c, ∃ n ≤ c.rest.length, behind (work c) = c.advanceBy n

/-- Work that stays where it is passes nothing. -/
theorem Passes.of_stays (h : ∀ c, behind (work c) = c) : Passes work :=
  fun c => ⟨0, Nat.zero_le _, h c⟩

/-- Work in sequence moves on if its parts do. -/
theorem Passes.bind {further : α → Scan β} (first : Passes work) (second : ∀ a, Passes (further a)) :
    Passes (work >>= further) := by
  intro c
  obtain ⟨n, within, moved⟩ := first c
  cases outcome : work c with
  | error fault d =>
    rw [outcome] at moved
    exact ⟨n, within, by rw [Work.bind_of_error outcome]; exact moved⟩
  | ok a d =>
    rw [outcome, behind_ok] at moved
    subst moved
    obtain ⟨m, within', moved'⟩ := second a (c.advanceBy n)
    rw [Cursor.advanceBy_rest, List.length_drop] at within'
    exact ⟨n + m, by omega, by rw [Work.bind_of_ok outcome, moved', Cursor.advanceBy_add]⟩

/-- A look at the cursor passes nothing. -/
theorem passes_get {further : Cursor → Scan α}
    (h : ∀ c, ∃ n ≤ c.rest.length, behind (further c c) = c.advanceBy n) : Passes (get >>= further) :=
  h

/-- A result without reading passes nothing. -/
theorem passes_pure (a : α) : Passes (pure a : Scan α) := .of_stays fun _ => rfl

/-- Work moves on alike if its result is changed. -/
theorem Passes.map (h : Passes work) (f : α → β) : Passes (do return f (← work)) :=
  h.bind fun a => passes_pure (f a)

/-- What is made of a result does not fail. -/
theorem error_of_map {f : α → β} {c d : Cursor} {fault : Fault}
    (h : (work >>= fun a => pure (f a)) c = .error fault d) : work c = .error fault d := by
  cases outcome : work c with
  | ok a e =>
    rw [Work.bind_of_ok outcome] at h
    cases h
  | error fault' e =>
    rw [Work.bind_of_error outcome] at h
    cases h
    rfl

/-- A run of characters is passed character by character. -/
theorem passes_run (p : Char → Bool) : Passes (run p) :=
  fun _ => ⟨_, (List.takeWhile_sublist p).length_le, rfl⟩

/-- A number with or without a point is passed character by character. -/
theorem passes_decimal (limit : DigitLimit) : Passes (decimal limit) := by
  refine (passes_run _).bind fun before => passes_get fun c => ?_
  split
  · rename_i point
    -- the point is a character of the text
    obtain ⟨rest, left⟩ := List.head?_eq_some_iff.mp point
    have real : Passes (do let after ← run Text.isDigit; return Literal.real (← realOf before after)) :=
      (passes_run _).bind fun after => (Passes.of_stays (behind_realOf before after)).map _
    obtain ⟨n, within, moved⟩ := real c.advance
    rw [Cursor.advance_rest, left, List.tail_cons] at within
    refine ⟨n + 1, by rw [left, List.length_cons]; omega, ?_⟩
    rw [advance, Work.modify_bind, Cursor.advanceBy_succ]
    exact moved
  · exact (Passes.of_stays (behind_wholeOf limit before)).map _ c

/-- A number fails at digits only, which have no value or are too many. -/
theorem isMalformed_of_decimal {limit : DigitLimit} {c d : Cursor} {fault : Fault}
    (h : decimal limit c = .error fault d) :
    fault.isMalformed = true := by
  obtain ⟨digits, rest, left, all, ends⟩ := Lexis.exists_run Text.isDigit c.rest
  by_cases point : rest.head? = some '.'
  · obtain ⟨rest, rfl⟩ := List.head?_eq_some_iff.mp point
    obtain ⟨after, rest, rfl, all', ends⟩ := Lexis.exists_run Text.isDigit rest
    rw [decimal_real left all all' ends, realOf] at h
    cases value : Text.decimalValue? (digits ++ after) <;> rw [value] at h <;> cases h
    rfl
  · have stops : ∀ y ∈ rest.head?, Text.isDigit y = false ∧ y ≠ '.' := by
      refine fun y member => ⟨ends y member, ?_⟩
      rintro rfl
      exact point member
    rw [decimal_whole left all stops, wholeOf] at h
    split at h
    · cases value : Text.decimalValue? digits <;> rw [value] at h <;> cases h
      rfl
    · cases h
      rfl

end Scan

/-- Layout is not longer than the text. -/
theorem layoutLength_le {comments inside : Bool} {text : List Char} {n : Nat}
    (h : layoutLength comments inside text = some n) : n ≤ text.length := by
  induction text generalizing inside n with
  | nil => cases inside <;> simp_all [layoutLength]
  | cons x rest ih =>
    cases inside with
    | false =>
      rw [layoutLength] at h
      by_cases blank : Text.isBlank x = true
      · rw [if_pos blank] at h
        obtain ⟨m, more, rfl⟩ := Option.map_eq_some_iff.mp h
        exact Nat.succ_le_succ (ih more)
      · by_cases opened : (comments && x == '\x7b') = true
        · rw [if_neg blank, if_pos opened] at h
          obtain ⟨m, more, rfl⟩ := Option.map_eq_some_iff.mp h
          exact Nat.succ_le_succ (ih more)
        · rw [if_neg blank, if_neg opened] at h
          cases h
          exact Nat.zero_le _
    | true =>
      rw [layoutLength] at h
      obtain ⟨m, more, rfl⟩ := Option.map_eq_some_iff.mp h
      exact Nat.succ_le_succ (ih more)

namespace Lexis

variable {lx : Lexis} {c d : Cursor}

/-- A word is passed character by character. -/
theorem passes_word : Scan.Passes lx.word :=
  Scan.passes_get fun c => (Scan.passes_run _).map _ c

/-- A number is passed character by character. -/
theorem Full.passes_number (full : lx.Full) : Scan.Passes lx.number := by
  have literal : Scan.Passes lx.literal := by
    rw [Lexis.literal, full.numbers]
    exact Scan.passes_decimal lx.limit
  exact Scan.passes_get fun c => literal.map _ c

/-- Behind layout that ends a token is read, or the text ends, or a character is to blame. -/
theorem Full.token_behind_layout (full : lx.Full) {n : Nat}
    (length : layoutLength lx.comments false c.rest = some n) :
    IsLayout (c.rest.take n) ∧ lx.token c = lx.token (c.advanceBy n) ∧
      ∀ x rest, (c.advanceBy n).rest = x :: rest → lx.opensLayout x = false ∧ lx.WritesOrBlames x rest := by
  refine ⟨?_, token_layout full.blanks length, fun x rest left => ?_⟩
  · rw [full.comments] at length
    exact isLayout_take length
  · have none := layoutLength_drop length
    rw [← Cursor.advanceBy_rest, left] at none
    have opens := opensLayout_of_layoutLength none
    exact ⟨opens, full.writesOrBlames opens⟩

/-- Where no layout begins a call passes the characters of a lexeme, or some of them. -/
theorem Full.token_advanceBy (full : lx.Full) {x : Char} {rest : List Char} (left : c.rest = x :: rest)
    (layout : lx.opensLayout x = false) : ∃ n ≤ c.rest.length, Scan.behind (lx.token c) = c.advanceBy n := by
  rw [token_cons left layout]
  split
  · exact passes_word c
  split
  · exact full.passes_number c
  split
  · rename_i assign
    simp only [Bool.and_eq_true, beq_iff_eq] at assign
    obtain ⟨behind, equals⟩ := List.head?_eq_some_iff.mp assign.2
    exact ⟨2, by rw [left, equals]; simp, rfl⟩
  cases lx.mark x with
  | some l => exact ⟨1, by rw [left]; simp, rfl⟩
  | none => exact ⟨0, Nat.zero_le _, rfl⟩

/-- A token is passed character by character, with the layout before it. -/
theorem Full.passes_token (full : lx.Full) : Scan.Passes lx.token := by
  intro c
  cases length : layoutLength lx.comments false c.rest with
  | none => exact ⟨0, Nat.zero_le _, by rw [token_unclosed full.blanks length]; rfl⟩
  | some n =>
    obtain ⟨_, same, begins⟩ := full.token_behind_layout length
    have within := layoutLength_le length
    rw [same]
    cases left : (c.advanceBy n).rest with
    | nil => exact ⟨n, within, by rw [token_nil left]; rfl⟩
    | cons x rest =>
      obtain ⟨m, more, moved⟩ := full.token_advanceBy left (begins x rest left).1
      rw [Cursor.advanceBy_rest, List.length_drop] at more
      exact ⟨n + m, by omega, by rw [moved, Cursor.advanceBy_add]⟩

/-- A lexeme that is read stands behind layout, as it is written, and its token has the place where it
begins. -/
theorem Full.exists_written (full : lx.Full) {l : Lexeme} {place : Place}
    (read : lx.token c = .ok (.lexeme l place) d) :
    ∃ layout word more, c.rest = layout ++ (word ++ d.rest) ∧ IsLayout layout ∧ lx.Writes word l more ∧
      word ≠ [] ∧ place = (c.advanceBy layout.length).place := by
  obtain ⟨n, length⟩ := layoutLength_of_token full.blanks read
  obtain ⟨layout, same, begins⟩ := full.token_behind_layout length
  have long : (c.rest.take n).length = n := List.length_take_of_le (layoutLength_le length)
  rw [same] at read
  cases left : (c.advanceBy n).rest with
  | nil =>
    rw [token_nil left] at read
    cases read
  | cons x rest =>
    rcases (begins x rest left).2 with ⟨word, behind, l', more, whole, written, ends⟩ | blamed
    · have spelled := written.spells full ends
      have here := left.trans whole
      rw [spelled.2 _ here] at read
      cases read
      refine ⟨_, word, more, ?_, layout, written, spelled.1, by rw [long]⟩
      rw [Cursor.advanceBy_rest, here, List.drop_left, ← here, Cursor.advanceBy_rest,
        List.take_append_drop]
    · obtain ⟨fault, e, failed, _⟩ := blamed _ left
      rw [failed] at read
      cases read

/-- A call fails before an open comment, or behind layout at a character that is to blame. -/
theorem Full.token_error_cases (full : lx.Full) {fault : Fault} (failed : lx.token c = .error fault d) :
    (layoutLength lx.comments false c.rest = none ∧ fault = .unclosedComment) ∨
      ∃ n x rest, (c.advanceBy n).rest = x :: rest ∧ lx.opensLayout x = false ∧
        lx.token (c.advanceBy n) = .error fault d ∧ lx.Blames x (c.advanceBy n).place fault := by
  cases length : layoutLength lx.comments false c.rest with
  | none =>
    rw [token_unclosed full.blanks length] at failed
    cases failed
    exact .inl ⟨rfl, rfl⟩
  | some n =>
    obtain ⟨_, same, begins⟩ := full.token_behind_layout length
    rw [same] at failed
    cases left : (c.advanceBy n).rest with
    | nil =>
      rw [token_nil left] at failed
      cases failed
    | cons x rest =>
      obtain ⟨opens, ⟨word, behind, l, more, whole, written, ends⟩ | blamed⟩ := begins x rest left
      · rw [(written.spells full ends).2 _ (left.trans whole)] at failed
        cases failed
      · obtain ⟨fault', e, failed', blames⟩ := blamed _ left
        cases failed'.symm.trans failed
        exact .inr ⟨n, x, rest, left, opens, failed, blames⟩

/-- A call that fails at a character stands before it, and the fault tells its place. -/
theorem Full.character_error (full : lx.Full) {x? : Option Char} {place : Place}
    (failed : lx.token c = .error (.character x? place) d) :
    ∃ n x rest, d = c.advanceBy n ∧ d.rest = x :: rest ∧ x? = some x ∧ place = d.place := by
  obtain ⟨_, other⟩ | ⟨n, x, rest, left, opens, failed, blames⟩ := full.token_error_cases failed
  · cases other
  · cases blames with
    | character letter digit unmarked =>
      -- nothing is passed at a character that begins no lexeme
      have stays : d = c.advanceBy n := by
        rw [token_cons left opens, letter, digit, Bool.and_false] at failed
        simp only [Bool.false_eq_true, if_false, unmarked] at failed
        split at failed
        · cases failed
        · exact (EStateM.Result.error.inj failed).2.symm
      subst stays
      exact ⟨n, x, rest, rfl, left, rfl, rfl⟩

end Lexis

/-! ## Calls of a reader -/

/-- The calls that can be made of a reader. -/
inductive ReaderCall where
  | advance
  | peek
  | skipBlanks
  | number
  | word
  | token
  deriving DecidableEq, Repr

/-- What a call of a reader returns. -/
inductive ReaderAnswer where
  | nothing
  | char (x? : Option Char)
  | token (t : Token)
  deriving DecidableEq, Repr

/-- What is done at a call. -/
def ReaderCall.perform (lx : Lexis) : ReaderCall → Scan ReaderAnswer
  | .advance => do
    Scan.advance
    return .nothing
  | .peek => return .char (← get).peek?
  | .skipBlanks => do
    Scan.skipBlanks
    return .nothing
  | .number => return .token (← lx.number)
  | .word => return .token (← lx.word)
  | .token => return .token (← lx.token)

/-- Where calls lead that are made one after the other, whether they fail or not. A call that never ends
because a comment is open leaves the cursor where it is. -/
def Lexis.after (lx : Lexis) (calls : List ReaderCall) (c : Cursor) : Cursor :=
  calls.foldl (fun c call => Scan.behind (call.perform lx c)) c

/-- A call moves the cursor step by step. -/
theorem ReaderCall.exists_advanceBy {lx : Lexis} (full : lx.Full) (call : ReaderCall) (c : Cursor) :
    ∃ n, Scan.behind (call.perform lx c) = c.advanceBy n := by
  have moves : ∀ {α} {work : Scan α}, Scan.Passes work → ∃ n, Scan.behind (work c) = c.advanceBy n :=
    fun passes => let ⟨n, _, moved⟩ := passes c; ⟨n, moved⟩
  cases call with
  | advance => exact ⟨1, rfl⟩
  | peek => exact ⟨0, rfl⟩
  | skipBlanks => exact moves ((Scan.passes_run Text.isBlank).bind fun _ => Scan.passes_pure _)
  | number => exact moves (full.passes_number.map _)
  | word => exact moves (Lexis.passes_word.map _)
  | token => exact moves (full.passes_token.map _)

/-- Only a call for a token fails at a character. -/
theorem ReaderCall.token_of_character {lx : Lexis} (full : lx.Full) {call : ReaderCall} {c d : Cursor}
    {x? : Option Char} {place : Place} (failed : call.perform lx c = .error (.character x? place) d) :
    lx.token c = .error (.character x? place) d := by
  cases call with
  | advance | peek | skipBlanks | word => cases failed
  | number =>
    -- a number fails at digits, which is something else
    have number := Scan.error_of_map failed
    rw [Lexis.number, Work.get_bind, Lexis.literal, full.numbers] at number
    have malformed := Scan.isMalformed_of_decimal (Scan.error_of_map number)
    cases malformed
  | token => exact Scan.error_of_map failed

/-- Calls keep track of the text. -/
theorem Lexis.tracks_after {lx : Lexis} (full : lx.Full) {c : Cursor} {text : List Char} (h : c.Tracks text)
    (calls : List ReaderCall) : (lx.after calls c).Tracks text := by
  induction calls generalizing c with
  | nil => exact h
  | cons call calls ih =>
    obtain ⟨n, moved⟩ := call.exists_advanceBy full c
    refine ih ?_
    show (Scan.behind (call.perform lx c)).Tracks text
    rw [moved]
    exact h.advanceBy n

/-- In the last two editions, wherever calls of the reader of a text have led that is not empty, failed calls
included, the current character is the one at the position, if there is one; the line is one more than the
number of newlines before the position; and at a character the column is its distance from the last of these
newlines. The next token has the place of the first character of its lexeme, which stands behind layout. A call
that fails at a character stands before it, and tells it with its line and column. -/
theorem places_tracked {e : Edition} (located : e = .places ∨ e = .calls) {text : String} (nonempty : text ≠ "")
    (calls : List ReaderCall) {c : Cursor} (led : c = e.lexis.after calls (.start text.toList)) :
    e.lexis.openText text = .ok (.start text.toList) ∧
    c.char? = text.toList[c.pos]? ∧
    c.line = 1 + (text.toList.take c.pos).count '\n' ∧
    (c.pos < text.toList.length → (c.column : Int) = c.pos - Text.lastNewline text.toList c.pos) ∧
    (∀ l place d, ReaderCall.token.perform e.lexis c = .ok (.token (.lexeme l place)) d →
      ∃ layout word more, text.toList.drop c.pos = layout ++ (word ++ text.toList.drop d.pos) ∧
        IsLayout layout ∧ e.lexis.Writes word l more ∧ word ≠ [] ∧
        place.IsAt text.toList (c.pos + layout.length)) ∧
    ∀ call x? place d, ReaderCall.perform e.lexis call c = .error (.character x? place) d →
      ∃ x, x? = some x ∧ text.toList[d.pos]? = some x ∧ place.IsAt text.toList d.pos ∧
        (Fault.character x? place).message e.wording = "LexerError: Lexer error on '" ++ String.singleton x ++
          "' line: " ++ place.line.repr ++ " column: " ++ place.column.repr := by
  have full : e.lexis.Full := Edition.full_lexis (by rcases located with rfl | rfl <;> rfl)
  have wording : e.wording = .located := by rcases located with rfl | rfl <;> rfl
  have tracks : c.Tracks text.toList := by
    rw [led]
    exact Lexis.tracks_after full (.start _) calls
  refine ⟨Lexis.openText_of_ne nonempty, tracks.char?_eq, tracks.line, tracks.column, ?_, ?_⟩
  · intro l place d answered
    obtain ⟨t, e', read, same⟩ := Work.bind_eq_ok.mp answered
    cases same
    have behind : d.Tracks text.toList := by
      obtain ⟨n, _, moved⟩ := full.passes_token c
      rw [read] at moved
      rw [show d = _ from moved]
      exact tracks.advanceBy n
    obtain ⟨layout, word, more, split, isLayout, written, some, rfl⟩ := full.exists_written read
    rw [tracks.rest, behind.rest] at split
    refine ⟨layout, word, more, split, isLayout, written, some, ?_⟩
    have there := tracks.advanceBy layout.length
    rw [← Cursor.advanceBy_pos]
    refine there.place_isAt ?_
    have long := congrArg List.length split
    have filled := List.length_pos_iff.mpr some
    simp only [List.length_drop, List.length_append] at long
    rw [Cursor.advanceBy_pos]
    omega
  · intro call x? place d failed
    obtain ⟨n, x, rest, rfl, left, rfl, rfl⟩ := full.character_error (call.token_of_character full failed)
    have there := tracks.advanceBy n
    refine ⟨x, rfl, ?_, there.place_isAt (there.pos_lt left), by rw [wording]; rfl⟩
    rw [← there.char?_eq, Cursor.char?, left]
    rfl

/-- A raised digit and a sign that begins nothing, behind a comment that goes over two lines. -/
theorem places_tracked_behind_comment :
    let text := "; a \x7b\n\x7d 3²\n  ?"
    let calls := [ReaderCall.advance, .token, .peek, .token, .skipBlanks]
    text ≠ "" ∧
    ∃ c, c = Edition.calls.lexis.after calls (.start text.toList) ∧
      c.char? = text.toList[c.pos]? ∧
      c.line = 1 + (text.toList.take c.pos).count '\n' ∧
      ∃ d, ReaderCall.token.perform Edition.calls.lexis c = .error (.character (some '?') ⟨3, 3⟩) d ∧
        (Place.mk 3 3).IsAt text.toList d.pos := by
  intro text calls
  have nonempty : text ≠ "" := by decide
  have there : Edition.calls.lexis.after calls (.start text.toList) = ⟨['?'], 13, 3, 3⟩ := by decide +kernel
  have failed : ReaderCall.token.perform Edition.calls.lexis ⟨['?'], 13, 3, 3⟩ =
      .error (.character (some '?') ⟨3, 3⟩) ⟨['?'], 13, 3, 3⟩ := rfl
  obtain ⟨_, char, line, _, _, located⟩ := places_tracked (.inr rfl) nonempty calls there.symm
  obtain ⟨_, _, _, place, _⟩ := located .token _ _ _ failed
  exact ⟨nonempty, _, there.symm, char, line, _, failed, place⟩

end LittlePascal
