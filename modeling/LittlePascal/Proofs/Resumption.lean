import LittlePascal.Proofs.Succession

/-! # Reading on behind failures

A call of the reader that fails leaves its cursor somewhere, and the next call goes on from there. Where
the comments of a text are closed a call passes layout and then characters that open no comment, whether
it fails or not, so the comments behind it are closed as well and the calls never come to an open one.

An edition may list its marks and reserved words, or look them up among the kinds of tokens. Both ways
give the same reader, so the calls correspond one by one, those behind a failure included.

Main definitions: `Scan.behind`, `Lexis.cursorAt`, `Lexis.call`, `Edition.CallsAlike`.

Main statements: `Lexis.Full.token_passes`, `Lexis.Full.commentsClosed_cursorAt`,
`Edition.token_scopes`, `listed_marks_read_alike`. -/

namespace LittlePascal

/-! ## Where a call leaves its cursor -/

namespace Scan

variable {α β : Type}

/-- The cursor that a reading leaves behind, whether it fails or not. -/
def behind : EStateM.Result Fault Cursor α → Cursor
  | .ok _ c => c
  | .error _ c => c

@[simp] theorem behind_ok (a : α) (c : Cursor) : behind (.ok a c) = c := rfl

@[simp] theorem behind_error (fault : Fault) (c : Cursor) :
    behind (.error fault c : EStateM.Result Fault Cursor α) = c := rfl

/-- What is made of a result does not move the cursor. -/
theorem behind_map (work : Scan α) (f : α → β) (c : Cursor) :
    behind ((work >>= fun a => pure (f a)) c) = behind (work c) := by
  cases outcome : work c with
  | ok a d =>
    rw [Work.bind_of_ok outcome]
    rfl
  | error fault d =>
    rw [Work.bind_of_error outcome]
    rfl

/-- Nor does the value of digits. -/
theorem behind_wholeOf (limit : DigitLimit) (digits : List Char) (c : Cursor) :
    behind (wholeOf limit digits c) = c := by
  unfold wholeOf
  split
  · cases Text.decimalValue? digits <;> rfl
  · rfl

/-- Nor that of digits with a point. -/
theorem behind_realOf (before after : List Char) (c : Cursor) : behind (realOf before after c) = c := by
  unfold realOf
  cases Text.decimalValue? (before ++ after) <;> rfl

/-- A number passes digits and a point, also if it has no value. -/
theorem decimal_passes (limit : DigitLimit) (c : Cursor) :
    ∃ passed, (∀ y ∈ passed, Text.isDigit y = true ∨ y = '.') ∧
      c.rest = passed ++ (behind (decimal limit c)).rest := by
  obtain ⟨digits, rest, left, all, ends⟩ := Lexis.exists_run Text.isDigit c.rest
  by_cases point : rest.head? = some '.'
  · obtain ⟨rest, rfl⟩ := List.head?_eq_some_iff.mp point
    obtain ⟨after, rest, rfl, all', ends⟩ := Lexis.exists_run Text.isDigit rest
    refine ⟨digits ++ '.' :: after, fun y member => ?_, ?_⟩
    · rcases List.mem_append.mp member with inside | inside
      · exact .inl (all y inside)
      · rcases List.mem_cons.mp inside with rfl | inside
        · exact .inr rfl
        · exact .inl (all' y inside)
    · have regroup : c.rest = (digits ++ '.' :: after) ++ rest := by
        rw [left, List.append_assoc, List.cons_append]
      rw [decimal_real left all all' ends, behind_map, behind_realOf, Cursor.advanceBy_rest, regroup,
        List.drop_left]
  · refine ⟨digits, fun y member => .inl (all y member), ?_⟩
    rw [decimal_whole left all fun y member => ⟨ends y member, ?_⟩, behind_map, behind_wholeOf,
      Cursor.advanceBy_rest, left, List.drop_left]
    rintro rfl
    exact point member

end Scan

namespace Lexis

variable {lx : Lexis} {c : Cursor}

/-- The longest run of a class that does not hold the opening brace does not hold it either. -/
theorem brace_not_mem_takeWhile {p : Char → Bool} (none : p '\x7b' = false) (text : List Char) :
    '\x7b' ∉ text.takeWhile p := by
  intro member
  rw [List.all_eq_true.mp List.all_takeWhile _ member] at none
  cases none

/-- Where no layout begins a call passes characters that open no comment, also if it fails. -/
theorem Full.token_passes_cons (full : lx.Full) {x : Char} {rest : List Char} (left : c.rest = x :: rest)
    (layout : lx.opensLayout x = false) :
    ∃ passed, '\x7b' ∉ passed ∧ c.rest = passed ++ (Scan.behind (lx.token c)).rest := by
  rw [token_cons left layout]
  by_cases letter : (lx.words && Text.isLetter x) = true
  · rw [if_pos letter, word, Work.get_bind, Scan.behind_map, Scan.run_eq, Scan.behind_ok]
    refine ⟨c.rest.takeWhile Text.isNameChar, brace_not_mem_takeWhile (by decide) _, ?_⟩
    exact (Cursor.span_append_rest Text.isNameChar c).symm
  rw [if_neg letter]
  by_cases digit : Text.isDigit x = true
  · rw [if_pos digit, number, Work.get_bind, literal, full.numbers, Scan.behind_map]
    obtain ⟨passed, all, split⟩ := Scan.decimal_passes lx.limit c
    refine ⟨passed, fun member => ?_, split⟩
    exact absurd (all _ member) (by decide)
  rw [if_neg digit]
  by_cases assign : (lx.assign && x == ':' && rest.head? == some '=') = true
  · rw [if_pos assign, Work.set_bind]
    simp only [Bool.and_eq_true, beq_iff_eq] at assign
    obtain ⟨⟨_, rfl⟩, equals⟩ := assign
    obtain ⟨rest, rfl⟩ := List.head?_eq_some_iff.mp equals
    refine ⟨[':', '='], by decide, ?_⟩
    show c.rest = [':', '='] ++ (c.advanceBy 2).rest
    rw [Cursor.advanceBy_rest, left]
    rfl
  rw [if_neg assign]
  cases marked : lx.mark x with
  | some l =>
    refine ⟨[x], (Writes.mark marked).not_mem_brace full, ?_⟩
    show c.rest = [x] ++ c.advance.rest
    rw [Cursor.advance_rest, left]
    rfl
  | none => exact ⟨[], List.not_mem_nil, rfl⟩

/-- Where comments are closed a call begins behind the layout. -/
theorem Full.token_closed (full : lx.Full) (closed : commentsClosed false c.rest = true) :
    ∃ n, IsLayout (c.rest.take n) ∧ lx.token c = lx.token (c.advanceBy n) ∧
      ∀ x rest, (c.advanceBy n).rest = x :: rest → lx.opensLayout x = false := by
  obtain ⟨n, length⟩ := layoutLength_of_closed closed
  have length' : layoutLength lx.comments false c.rest = some n := by
    rw [full.comments]
    exact length
  refine ⟨n, isLayout_take length, token_layout full.blanks length', fun x rest left => ?_⟩
  refine @opensLayout_of_layoutLength lx rest x ?_
  rw [← left, Cursor.advanceBy_rest]
  exact layoutLength_drop length'

/-- It passes the layout and then characters that open no comment, also if it fails. -/
theorem Full.token_passes (full : lx.Full) (closed : commentsClosed false c.rest = true) :
    ∃ layout passed, IsLayout layout ∧ '\x7b' ∉ passed ∧
      c.rest = layout ++ (passed ++ (Scan.behind (lx.token c)).rest) := by
  obtain ⟨n, layout, token, opens⟩ := full.token_closed closed
  have split : c.rest = c.rest.take n ++ (c.advanceBy n).rest := by
    rw [Cursor.advanceBy_rest, List.take_append_drop]
  rw [token]
  cases left : (c.advanceBy n).rest with
  | nil =>
    refine ⟨c.rest.take n, [], layout, List.not_mem_nil, ?_⟩
    rw [token_nil left, Scan.behind_ok, List.nil_append]
    exact split
  | cons x rest =>
    obtain ⟨passed, none, behind⟩ := full.token_passes_cons left (opens x rest left)
    refine ⟨c.rest.take n, passed, layout, none, ?_⟩
    rw [← behind]
    exact split

/-- So the comments behind a call are closed. -/
theorem Full.commentsClosed_behind (full : lx.Full) (closed : commentsClosed false c.rest = true) :
    commentsClosed false (Scan.behind (lx.token c)).rest = true := by
  obtain ⟨layout, passed, isLayout, none, split⟩ := full.token_passes closed
  rwa [split, isLayout.commentsClosed_append, commentsClosed_append_of_not_mem none] at closed

/-- Where comments are closed a call fails only behind layout, at a character that begins no lexeme or at
digits without a value. -/
theorem Full.token_error (full : lx.Full) (closed : commentsClosed false c.rest = true) {fault : Fault}
    {d : Cursor} (failed : lx.token c = .error fault d) :
    ∃ n x rest, (c.advanceBy n).rest = x :: rest ∧ lx.token (c.advanceBy n) = .error fault d ∧
      lx.Blames x (c.advanceBy n).place fault := by
  obtain ⟨n, _, token, opens⟩ := full.token_closed closed
  rw [token] at failed
  cases left : (c.advanceBy n).rest with
  | nil =>
    rw [token_nil left] at failed
    cases failed
  | cons x rest =>
    rcases full.writesOrBlames (opens x rest left) with
      ⟨word, behind, l, more, same, written, ends⟩ | blamed
    · rw [(written.spells full ends).2 _ (left.trans same)] at failed
      cases failed
    · obtain ⟨fault', d', failed', blames⟩ := blamed _ left
      have same := failed'.symm.trans failed
      cases same
      exact ⟨n, x, rest, left, failed, blames⟩

/-! ## Calls one after the other -/

/-- Where the reader stands after so many calls, the failed ones counted. -/
def cursorAt (lx : Lexis) : Nat → Cursor → Cursor
  | 0, c => c
  | n + 1, c => lx.cursorAt n (Scan.behind (lx.token c))

/-- What a call comes to that is made after so many others, whether those fail or not. -/
def call (lx : Lexis) (n : Nat) (c : Cursor) : EStateM.Result Fault Cursor Token :=
  lx.token (lx.cursorAt n c)

/-- Calls never come to an open comment. -/
theorem Full.commentsClosed_cursorAt (full : lx.Full) (closed : commentsClosed false c.rest = true)
    (n : Nat) : commentsClosed false (lx.cursorAt n c).rest = true := by
  induction n generalizing c with
  | zero => exact closed
  | succ n ih => exact ih (full.commentsClosed_behind closed)

/-- The same calls lead to the same places. -/
theorem cursorAt_congr {lx' : Lexis} (same : lx.token = lx'.token) (n : Nat) :
    lx.cursorAt n c = lx'.cursorAt n c := by
  induction n generalizing c with
  | zero => rfl
  | succ n ih => rw [cursorAt, cursorAt, same, ih]

/-- A reader is the same with other reserved words if each word has the same lexeme. -/
theorem token_withWords_eq {words : List (String × Lexeme)} {folds : Bool}
    (same : ∀ word, (lx.withWords words folds).wordLexeme word = lx.wordLexeme word) :
    (lx.withWords words folds).token = lx.token := by
  have word : (lx.withWords words folds).word = lx.word := by
    unfold Lexis.word
    simp only [same]
  unfold token
  rw [word]
  rfl

end Lexis

/-! ## Marks and reserved words, listed or looked up -/

/-- Whether a fault is about digits that are not read. -/
def Fault.isMalformed : Fault → Bool
  | .malformedWhole _ | .malformedReal _ => true
  | _ => false

/-- The lexeme of a token; none at the end of a text. -/
def Token.lexeme? : Token → Option Lexeme
  | .lexeme l _ => some l
  | .endOfText => none

namespace Edition

/-- Listed or looked up, marks and reserved words make the same reader. -/
theorem token_scopes : Edition.scopes.lexis.token = Edition.calls.lexis.token := by
  rw [lexis_scopes]
  refine Lexis.token_withWords_eq fun word => ?_
  unfold Lexis.wordLexeme
  exact congrArg (Option.getD · _) (lookup_reserved_scopes _)

/-- What two calls come to corresponds: both return a token with the same lexeme and the same name of its
kind; or both fail at the same character, about which the first edition says nothing; or both fail at the
same digits and say the same about them. -/
inductive AnswersAlike (e e' : Edition) :
    EStateM.Result Fault Cursor Token → EStateM.Result Fault Cursor Token → Prop where
  | token {t t' : Token} {c c' : Cursor} :
      t.lexeme? = t'.lexeme? → t.kind.nameIn e.naming = t'.kind.nameIn e'.naming →
      AnswersAlike e e' (.ok t c) (.ok t' c')
  | character {x : Char} {place place' : Place} {c c' : Cursor} :
      (Fault.character (some x) place).message e.wording = "Error parsing input" →
      AnswersAlike e e' (.error (.character (some x) place) c) (.error (.character (some x) place') c')
  | number {fault : Fault} {c c' : Cursor} :
      fault.isMalformed = true → fault.message e.wording = fault.message e'.wording →
      AnswersAlike e e' (.error fault c) (.error fault c')

/-- Two calls correspond in what they come to and in where they leave the reader. -/
structure CallsAlike (e e' : Edition) (call call' : EStateM.Result Fault Cursor Token) : Prop where
  answers : AnswersAlike e e' call call'
  pos : (Scan.behind call).pos = (Scan.behind call').pos
  char : (Scan.behind call).char? = (Scan.behind call').char?

/-- Where comments are closed a call of the one reader corresponds to a call of the other. -/
theorem callsAlike_token {c : Cursor} (closed : commentsClosed false c.rest = true) :
    CallsAlike .scopes .calls (Edition.scopes.lexis.token c) (Edition.calls.lexis.token c) := by
  have full : Edition.calls.lexis.Full := full_lexis rfl
  rw [token_scopes]
  refine ⟨?_, rfl, rfl⟩
  cases call : Edition.calls.lexis.token c with
  | ok t d => exact .token rfl rfl
  | error fault d =>
    obtain ⟨_, x, _, _, _, blames⟩ := full.token_error closed call
    cases blames with
    | whole digits | long count | real digits => exact .number rfl rfl
    | character => exact .character rfl

end Edition

/-- In the edition with scopes marks and reserved words are listed, in the last one they are looked up among
the kinds of tokens. On a text whose comments are closed the two readers start alike, and each call of the
one corresponds to the same call of the other, however many calls have failed before it. -/
theorem listed_marks_read_alike {text : String} (nonempty : text ≠ "")
    (closed : commentsClosed false text.toList = true) :
    ∃ start, Edition.scopes.lexis.openText text = .ok start ∧
      Edition.calls.lexis.openText text = .ok start ∧
      ∀ k, Edition.CallsAlike .scopes .calls (Edition.scopes.lexis.call k start)
        (Edition.calls.lexis.call k start) := by
  refine ⟨_, Lexis.openText_of_ne nonempty, Lexis.openText_of_ne nonempty, fun k => ?_⟩
  have full : Edition.calls.lexis.Full := Edition.full_lexis rfl
  rw [Lexis.call, Lexis.call, Lexis.cursorAt_congr Edition.token_scopes]
  exact Edition.callsAlike_token (full.commentsClosed_cursorAt closed k)

/-- A raised digit is passed although the call for it fails; at a character that begins no lexeme all further
calls fail. -/
theorem listed_marks_read_alike_behind_raised_digit :
    let text := "3² x \x7b?\x7d := ? y"
    text ≠ "" ∧ commentsClosed false text.toList = true ∧
    ∃ start, Edition.scopes.lexis.openText text = .ok start ∧
      Edition.calls.lexis.openText text = .ok start ∧
      ∀ k ∈ [0, 1, 3, 4], Edition.CallsAlike .scopes .calls (Edition.scopes.lexis.call k start)
        (Edition.calls.lexis.call k start) := by
  intro text
  have nonempty : text ≠ "" := by decide
  have closed : commentsClosed false text.toList = true := by decide
  obtain ⟨start, opened, opened', alike⟩ := listed_marks_read_alike nonempty closed
  exact ⟨nonempty, closed, start, opened, opened', fun k _ => alike k⟩

end LittlePascal
