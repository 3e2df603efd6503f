import Mathlib.Data.Nat.Find
import LittlePascal.Proofs.Tracking

/-! # The loops of the reader

A call of the reader goes through loops: one over blanks, one over a comment, those over the characters of a word
or a number, and one around them. Here a call is taken apart into single iterations of these loops, each of which
looks at the current character and moves the cursor by one character at most. The loop over a comment has no
test for the end of the text, so where no brace closes the comment it goes on for ever and the position grows
without bound.

A call ends exactly if no open comment stands behind the longest run of blanks and closed comments. If it ends, it
comes to what the reader makes of the text in one go.

Main definitions:
* `Iteration.EndsIn`: a step that is repeated until it reaches an end;
* `ReaderLoop`, `Lexis.iteration`: the loops of the reader, and one iteration;
* `IsLongestLayout`: the longest run of blanks and closed comments.

Main statements:
* `Iteration.EndsIn.unique`, `Iteration.not_endsIn_of_kept`: at most one end, and none at all;
* `Lexis.endsIn_layout`, `Lexis.Full.endsIn_token`: layout, and what stands behind it;
* `call_ends_iff`: when the calls of the editions with comments end, and where they stop. -/

namespace LittlePascal

/-! ## Repeated steps -/

namespace Iteration

variable {σ ρ : Type} {step : σ → σ ⊕ ρ} {s t : σ} {r : ρ}

/-- A step repeated so many times, unless it reaches an end before. -/
def repeated (step : σ → σ ⊕ ρ) : Nat → σ → σ ⊕ ρ
  | 0, s => .inl s
  | n + 1, s =>
    match step s with
    | .inl t => repeated step n t
    | .inr r => .inr r

/-- The repeated step reaches this end. -/
def EndsIn (step : σ → σ ⊕ ρ) (s : σ) (r : ρ) : Prop := ∃ n, repeated step n s = .inr r

/-- One repetition more. -/
theorem repeated_succ (h : step s = .inl t) (n : Nat) : repeated step (n + 1) s = repeated step n t := by
  rw [repeated, h]

/-- Behind an end nothing is repeated. -/
theorem repeated_of_end (h : step s = .inr r) (n : Nat) : repeated step (n + 1) s = .inr r := by
  rw [repeated, h]

/-- An end that is reached at once. -/
theorem EndsIn.of_end (h : step s = .inr r) : EndsIn step s r := ⟨1, repeated_of_end h 0⟩

/-- A step on the way to an end makes no difference to the end. -/
theorem endsIn_iff_of_step (h : step s = .inl t) : EndsIn step s r ↔ EndsIn step t r := by
  constructor
  · rintro ⟨n, reached⟩
    cases n with
    | zero => cases reached
    | succ n => exact ⟨n, by rw [← repeated_succ h, reached]⟩
  · rintro ⟨n, reached⟩
    exact ⟨n + 1, by rw [repeated_succ h, reached]⟩

/-- Where one step reaches an end no other end is reached. -/
theorem EndsIn.eq_of_end {r' : ρ} (h : step s = .inr r) (ends : EndsIn step s r') : r' = r := by
  obtain ⟨n, reached⟩ := ends
  cases n with
  | zero => cases reached
  | succ n =>
    rw [repeated_of_end h] at reached
    exact (Sum.inr.inj reached).symm

/-- At most one end is reached. -/
theorem EndsIn.unique {r' : ρ} (first : EndsIn step s r) (second : EndsIn step s r') : r = r' := by
  obtain ⟨n, reached⟩ := first
  induction n generalizing s with
  | zero => cases reached
  | succ n ih =>
    cases once : step s with
    | inl t =>
      rw [repeated_succ once] at reached
      exact ih ((endsIn_iff_of_step once).mp second) reached
    | inr r'' =>
      rw [repeated_of_end once] at reached
      cases reached
      exact (second.eq_of_end once).symm

/-- No end is reached where every step leads on and keeps what made it do so. -/
theorem not_endsIn_of_kept (Kept : σ → Prop) (on : ∀ s, Kept s → ∃ t, step s = .inl t ∧ Kept t)
    (h : Kept s) : ¬EndsIn step s r := by
  rintro ⟨n, reached⟩
  induction n generalizing s with
  | zero => cases reached
  | succ n ih =>
    obtain ⟨t, once, kept⟩ := on s h
    rw [repeated_succ once] at reached
    exact ih kept reached

end Iteration

open Iteration

/-! ## One iteration -/

/-- The loops of the reader. Those over the characters of a word or a number hold what they have gathered, with
the place where it began. -/
inductive ReaderLoop where
  /-- The loop around the others. -/
  | outer
  | blanks
  | comment
  | word (place : Place) (taken : List Char)
  /-- The digits before a point. -/
  | digits (place : Place) (taken : List Char)
  /-- The digits behind a point. -/
  | fraction (place : Place) (before taken : List Char)
  deriving DecidableEq, Repr

/-- A loop of the reader, and where the reader stands. -/
structure ReaderState where
  loop : ReaderLoop
  cursor : Cursor
  deriving DecidableEq, Repr

namespace Cursor

variable {p : Char → Bool} {c : Cursor} {x : Char} {rest : List Char}

/-- The next character, if it is of a class. -/
def next? (p : Char → Bool) (c : Cursor) : Option Char := c.char?.filter p

/-- A next character of the class. -/
theorem next?_of_rest (left : c.rest = x :: rest) (such : p x = true) : c.next? p = some x := by
  rw [next?, char?, left, List.head?_cons, Option.filter_some, if_pos such]

/-- The next character is the first of what is left. -/
theorem next?_eq_some (h : c.next? p = some x) : ∃ rest, c.rest = x :: rest ∧ p x = true := by
  rw [next?, Option.filter_eq_some_iff] at h
  obtain ⟨rest, left⟩ := List.head?_eq_some_iff.mp h.1
  exact ⟨rest, left, h.2⟩

/-- Behind the longest run no character of the class comes next. -/
theorem next?_span (p : Char → Bool) (c : Cursor) : (c.span p).2.next? p = none := by
  rw [next?, char?, span_rest, Option.filter_eq_none_iff]
  intro x first
  have stops := List.head?_dropWhile_not p c.rest
  rw [first] at stops
  simpa using stops

end Cursor

namespace Scan

variable {limit : DigitLimit} {c : Cursor}

/-- Digits with a point behind them. -/
theorem decimal_of_point (point : (c.span Text.isDigit).2.char? = some '.') :
    decimal limit c =
      (do return Literal.real (← realOf (c.span Text.isDigit).1
          ((c.span Text.isDigit).2.advance.span Text.isDigit).1))
        ((c.span Text.isDigit).2.advance.span Text.isDigit).2 := by
  show (if (c.span Text.isDigit).2.char? = some '.' then _ else _ : Scan Literal) (c.span Text.isDigit).2 = _
  rw [if_pos point]
  rfl

/-- Digits without a point behind them. -/
theorem decimal_of_no_point (point : (c.span Text.isDigit).2.char? ≠ some '.') :
    decimal limit c =
      (do return Literal.whole (← wholeOf limit (c.span Text.isDigit).1)) (c.span Text.isDigit).2 := by
  show (if (c.span Text.isDigit).2.char? = some '.' then _ else _ : Scan Literal) (c.span Text.isDigit).2 = _
  rw [if_neg point]
  rfl

end Scan

namespace Lexis

/-- One iteration of a loop: it goes on in the same or another loop, or the call ends. The loop over a comment
tests for the closing brace only. -/
def iteration (lx : Lexis) : ReaderState → ReaderState ⊕ EStateM.Result Fault Cursor Token
  | ⟨.outer, c⟩ =>
    match c.rest with
    | [] => .inr (.ok .endOfText c)
    | x :: _ =>
      if Text.isBlank x then .inl ⟨.blanks, c⟩
      else if x = '\x7b' then .inl ⟨.comment, c.advance⟩
      else if Text.isLetter x then .inl ⟨.word c.place [], c⟩
      else if Text.isDigit x then .inl ⟨.digits c.place [], c⟩
      else if x = ':' ∧ c.peek? = some '=' then
        .inr (.ok (.lexeme (.punctuation .assign) c.place) c.advance.advance)
      else
        match lx.mark x with
        | some l => .inr (.ok (.lexeme l c.place) c.advance)
        | none => .inr (.error (.character (some x) c.place) c)
  | ⟨.blanks, c⟩ =>
    match c.next? Text.isBlank with
    | some _ => .inl ⟨.blanks, c.advance⟩
    | none => .inl ⟨.outer, c⟩
  | ⟨.comment, c⟩ =>
    if c.char? = some '\x7d' then .inl ⟨.outer, c.advance⟩ else .inl ⟨.comment, c.advance⟩
  | ⟨.word place taken, c⟩ =>
    match c.next? Text.isNameChar with
    | some x => .inl ⟨.word place (taken ++ [x]), c.advance⟩
    | none => .inr (.ok (.lexeme (lx.wordLexeme taken) place) c)
  | ⟨.digits place taken, c⟩ =>
    match c.next? Text.isDigit with
    | some x => .inl ⟨.digits place (taken ++ [x]), c.advance⟩
    | none =>
      if c.char? = some '.' then .inl ⟨.fraction place taken [], c.advance⟩
      else .inr ((do return Token.lexeme (.literal (.whole (← Scan.wholeOf lx.limit taken))) place) c)
  | ⟨.fraction place before taken, c⟩ =>
    match c.next? Text.isDigit with
    | some x => .inl ⟨.fraction place before (taken ++ [x]), c.advance⟩
    | none => .inr ((do return Token.lexeme (.literal (.real (← Scan.realOf before taken))) place) c)

variable {lx : Lexis} {c : Cursor} {r : EStateM.Result Fault Cursor Token}

/-! ## Layout -/

/-- Before a character the outer loop tries the kinds of tokens one by one. -/
theorem iteration_outer {x : Char} {rest : List Char} (left : c.rest = x :: rest) :
    lx.iteration ⟨.outer, c⟩ =
      if Text.isBlank x then .inl ⟨.blanks, c⟩
      else if x = '\x7b' then .inl ⟨.comment, c.advance⟩
      else if Text.isLetter x then .inl ⟨.word c.place [], c⟩
      else if Text.isDigit x then .inl ⟨.digits c.place [], c⟩
      else if x = ':' ∧ rest.head? = some '=' then
        .inr (.ok (.lexeme (.punctuation .assign) c.place) c.advance.advance)
      else
        match lx.mark x with
        | some l => .inr (.ok (.lexeme l c.place) c.advance)
        | none => .inr (.error (.character (some x) c.place) c) := by
  simp only [iteration, left, Cursor.peek?, List.tail_cons]

/-- The loop over blanks leads to what the outer loop leads to: each of them begins where the other does not go
on. -/
theorem endsIn_blanks : EndsIn lx.iteration ⟨.blanks, c⟩ r ↔ EndsIn lx.iteration ⟨.outer, c⟩ r := by
  cases next : c.next? Text.isBlank with
  | none => exact endsIn_iff_of_step (by simp only [iteration, next])
  | some x =>
    obtain ⟨rest, left, blank⟩ := Cursor.next?_eq_some next
    exact (endsIn_iff_of_step (by rw [iteration_outer left, if_pos blank])).symm

/-- A blank is passed. -/
theorem endsIn_blank {x : Char} {rest : List Char} (left : c.rest = x :: rest) (blank : Text.isBlank x = true) :
    EndsIn lx.iteration ⟨.outer, c⟩ r ↔ EndsIn lx.iteration ⟨.outer, c.advance⟩ r := by
  have next : c.next? Text.isBlank = some x := Cursor.next?_of_rest left blank
  rw [← endsIn_blanks, ← endsIn_blanks]
  exact endsIn_iff_of_step (by simp only [iteration, next])

/-- A comment is passed up to the brace that closes it. -/
theorem endsIn_comment {body rest : List Char} (left : c.rest = body ++ '\x7d' :: rest) (inside : '\x7d' ∉ body) :
    EndsIn lx.iteration ⟨.comment, c⟩ r ↔ EndsIn lx.iteration ⟨.outer, c.advanceBy (body.length + 1)⟩ r := by
  induction body generalizing c with
  | nil =>
    have brace : c.char? = some '\x7d' := by rw [Cursor.char?, left, List.nil_append, List.head?_cons]
    exact endsIn_iff_of_step (by rw [iteration, if_pos brace]; rfl)
  | cons x body ih =>
    rw [List.mem_cons, not_or] at inside
    have other : c.char? ≠ some '\x7d' := by
      rw [Cursor.char?, left, List.cons_append, List.head?_cons, Ne, Option.some_inj]
      exact Ne.symm inside.1
    have behind : c.advance.rest = body ++ '\x7d' :: rest := by
      rw [Cursor.advance_rest, left, List.cons_append, List.tail_cons]
    rw [endsIn_iff_of_step (by rw [iteration, if_neg other]), ih behind inside.2]
    rfl

/-- The loop over a comment that no brace closes goes on for ever, past the end of the text. -/
theorem not_endsIn_comment (unclosed : '\x7d' ∉ c.rest) : ¬EndsIn lx.iteration ⟨.comment, c⟩ r := by
  -- a step leaves one character less, and none at the end, so the closing brace never comes into sight
  refine not_endsIn_of_kept (fun s => s.loop = .comment ∧ '\x7d' ∉ s.cursor.rest) ?_ ⟨rfl, unclosed⟩
  rintro ⟨loop, c⟩ ⟨rfl, unclosed⟩
  have other : c.char? ≠ some '\x7d' := fun brace => unclosed (List.mem_of_head? brace)
  refine ⟨⟨.comment, c.advance⟩, by rw [iteration, if_neg other], rfl, fun member => unclosed ?_⟩
  rw [Cursor.advance_rest] at member
  exact List.mem_of_mem_tail member

/-- Layout is passed. -/
theorem endsIn_layout {run rest : List Char} (layout : IsLayout run) (left : c.rest = run ++ rest) :
    EndsIn lx.iteration ⟨.outer, c⟩ r ↔ EndsIn lx.iteration ⟨.outer, c.advanceBy run.length⟩ r := by
  induction layout generalizing c with
  | nil => rfl
  | @blank x s blank _ ih =>
    have behind : c.advance.rest = s ++ rest := by rw [Cursor.advance_rest, left]; rfl
    rw [endsIn_blank left blank, ih behind]
    rfl
  | @comment body s inside _ ih =>
    have opened : c.advance.rest = body ++ '\x7d' :: (s ++ rest) := by
      rw [Cursor.advance_rest, left]
      simp
    have behind : (c.advance.advanceBy (body.length + 1)).rest = s ++ rest := by
      rw [Cursor.advanceBy_rest, opened]
      simp
    have brace : lx.iteration ⟨.outer, c⟩ = .inl ⟨.comment, c.advance⟩ := by
      rw [iteration_outer left, if_neg (by decide), if_pos rfl]
    have long : body.length + 1 + s.length + 1 = ('\x7b' :: (body ++ '\x7d' :: s)).length := by
      simp only [List.length_cons, List.length_append]
      omega
    rw [endsIn_iff_of_step brace, endsIn_comment opened inside, ih behind, ← Cursor.advanceBy_add,
      ← Cursor.advanceBy_succ, long]

/-! ## Tokens -/

/-- A loop that gathers characters of a class goes over the longest run of them. -/
theorem endsIn_run (p : Char → Bool) {gathering : List Char → ReaderLoop}
    (more : ∀ {taken c x}, c.next? p = some x →
      lx.iteration ⟨gathering taken, c⟩ = .inl ⟨gathering (taken ++ [x]), c.advance⟩)
    (taken : List Char) :
    EndsIn lx.iteration ⟨gathering taken, c⟩ r ↔
      EndsIn lx.iteration ⟨gathering (taken ++ (c.span p).1), (c.span p).2⟩ r := by
  -- the run gets shorter with every character that is gathered
  simp only [Cursor.span]
  induction left : c.rest generalizing c taken with
  | nil => simp
  | cons x rest ih =>
    by_cases such : p x = true
    · have behind : c.advance.rest = rest := by rw [Cursor.advance_rest, left, List.tail_cons]
      rw [endsIn_iff_of_step (more (Cursor.next?_of_rest left such)), ih _ behind]
      simp [such]
    · simp [such]

/-- A word is gathered. -/
theorem endsIn_word : EndsIn lx.iteration ⟨.word c.place [], c⟩ (lx.word c) := by
  rw [endsIn_run Text.isNameChar fun next => by simp only [iteration, next]]
  refine .of_end ?_
  simp only [iteration, Cursor.next?_span]
  rfl

/-- The digits behind a point are gathered. -/
theorem endsIn_fraction (place : Place) (before : List Char) :
    EndsIn lx.iteration ⟨.fraction place before [], c⟩
      ((do return Token.lexeme (.literal (.real (← Scan.realOf before (c.span Text.isDigit).1))) place)
        (c.span Text.isDigit).2) := by
  rw [endsIn_run Text.isDigit fun next => by simp only [iteration, next]]
  refine .of_end ?_
  simp only [iteration, Cursor.next?_span]
  rfl

/-- A number is gathered, with or without a point. -/
theorem endsIn_decimal (place : Place) :
    EndsIn lx.iteration ⟨.digits place [], c⟩
      ((do return Token.lexeme (.literal (← Scan.decimal lx.limit)) place) c) := by
  have stops := Cursor.next?_span Text.isDigit c
  rw [endsIn_run Text.isDigit fun next => by simp only [iteration, next]]
  by_cases point : (c.span Text.isDigit).2.char? = some '.'
  · have further : lx.iteration ⟨.digits place ([] ++ (c.span Text.isDigit).1), (c.span Text.isDigit).2⟩ =
        .inl ⟨.fraction place (c.span Text.isDigit).1 [], (c.span Text.isDigit).2.advance⟩ := by
      simp only [iteration, stops, if_pos point, List.nil_append]
    rw [endsIn_iff_of_step further, Work.bind_congr (Scan.decimal_of_point point), bind_assoc]
    exact endsIn_fraction place _
  · rw [Work.bind_congr (Scan.decimal_of_no_point point), bind_assoc]
    refine .of_end ?_
    simp only [iteration, stops, if_neg point]
    rfl

/-- Where no layout begins the call ends. -/
theorem Full.endsIn_token (full : lx.Full) {x : Char} {rest : List Char} (left : c.rest = x :: rest)
    (layout : lx.opensLayout x = false) : EndsIn lx.iteration ⟨.outer, c⟩ (lx.token c) := by
  rw [token_cons left layout, full.words, full.assign, Bool.true_and, Bool.true_and]
  rw [opensLayout, full.comments, Bool.true_and, Bool.or_eq_false_iff, beq_eq_false_iff_ne] at layout
  have here := @iteration_outer lx c x rest left
  rw [if_neg (by rw [layout.1]; decide), if_neg layout.2] at here
  -- from here on both try the same kinds of tokens in the same order
  by_cases letter : Text.isLetter x = true
  · rw [if_pos letter] at here ⊢
    exact (endsIn_iff_of_step here).mpr endsIn_word
  by_cases digit : Text.isDigit x = true
  · rw [if_neg letter, if_pos digit] at here ⊢
    rw [number, Work.get_bind, literal, full.numbers]
    exact (endsIn_iff_of_step here).mpr (endsIn_decimal c.place)
  rw [if_neg letter, if_neg digit] at here ⊢
  by_cases assign : x = ':' ∧ rest.head? = some '='
  · rw [if_pos assign] at here
    rw [if_pos (by simp [assign])]
    exact .of_end here
  rw [if_neg assign] at here
  rw [if_neg (by simpa using assign)]
  cases marked : lx.mark x with
  | some l =>
    rw [marked] at here
    exact .of_end here
  | none =>
    rw [marked] at here
    refine .of_end (here.trans ?_)
    show _ = Sum.inr (EStateM.Result.error (Fault.character c.char? c.place) c)
    rw [Cursor.char?, left, List.head?_cons]

end Lexis

/-! ## The longest layout -/

/-- The longest run of blanks and closed comments at the front of a text, and what stands behind it. -/
structure IsLongestLayout (text run rest : List Char) : Prop where
  append : text = run ++ rest
  layout : IsLayout run
  longest : ∀ run' rest', text = run' ++ rest' → IsLayout run' → run'.length ≤ run.length

/-- Layout behind layout is layout. -/
theorem IsLayout.append {s t : List Char} (first : IsLayout s) (second : IsLayout t) : IsLayout (s ++ t) := by
  induction first with
  | nil => exact second
  | blank blank _ ih => exact .blank blank ih
  | comment inside _ ih =>
    rw [List.cons_append, List.append_assoc]
    exact .comment inside ih

namespace IsLongestLayout

variable {text run rest : List Char}

/-- Every text has such a run. -/
theorem exists_run (text : List Char) : ∃ run rest, IsLongestLayout text run rest := by
  classical
  let length := Nat.findGreatest (fun n => IsLayout (text.take n)) text.length
  have layout : IsLayout (text.take length) :=
    Nat.findGreatest_spec (P := fun n => IsLayout (text.take n)) (Nat.zero_le _) .nil
  have long : (text.take length).length = length := List.length_take_of_le (Nat.findGreatest_le _)
  refine ⟨text.take length, text.drop length, (List.take_append_drop _ _).symm, layout, ?_⟩
  rintro run' rest' rfl layout'
  rw [long]
  exact Nat.le_findGreatest (by simp) (by rwa [List.take_left])

/-- No layout stands behind the longest run. -/
theorem not_append (h : IsLongestLayout text run rest) (more behind : List Char) (layout : IsLayout more)
    (filled : more ≠ []) : rest ≠ more ++ behind := by
  rintro rfl
  have longer := h.longest (run ++ more) behind (by rw [h.append, List.append_assoc]) (h.layout.append layout)
  have some := List.length_pos_iff.mpr filled
  rw [List.length_append] at longer
  omega

/-- No blank stands behind the longest run. -/
theorem not_blank (h : IsLongestLayout text run rest) {x : Char} {behind : List Char} (left : rest = x :: behind) :
    Text.isBlank x = false := by
  by_contra blank
  exact h.not_append [x] behind (.blank (by simpa using blank) .nil) (List.cons_ne_nil _ _) left

/-- A comment behind the longest run is not closed. -/
theorem not_closed (h : IsLongestLayout text run rest) {behind : List Char} (left : rest = '\x7b' :: behind) :
    '\x7d' ∉ behind := by
  intro closed
  -- up to the first closing brace it would be a comment, which makes the run longer
  obtain ⟨body, behind, rfl, inside⟩ := List.eq_append_cons_of_mem closed
  refine h.not_append ('\x7b' :: (body ++ '\x7d' :: [])) behind (.comment inside .nil) (List.cons_ne_nil _ _) ?_
  rw [left]
  simp

end IsLongestLayout

namespace Lexis

variable {lx : Lexis} {c : Cursor} {run rest : List Char}

/-- In a comment that is not closed layout does not end. -/
theorem layoutLength_unclosed {text : List Char} (unclosed : '\x7d' ∉ text) :
    layoutLength true true text = none := by
  induction text with
  | nil => rfl
  | cons x text ih =>
    rw [List.mem_cons, not_or] at unclosed
    have other : (x != '\x7d') = true := bne_iff_ne.mpr (Ne.symm unclosed.1)
    rw [layoutLength, other, ih unclosed.2, Option.map_none]

/-- Where the reader tells an open comment layout does not end. -/
theorem Full.layoutLength_of_unclosed (full : lx.Full) {d : Cursor}
    (failed : lx.token c = .error .unclosedComment d) : layoutLength lx.comments false c.rest = none := by
  obtain ⟨none, _⟩ | ⟨_, _, _, _, _, _, blames⟩ := full.token_error_cases failed
  · exact none
  · cases blames

/-- Behind the longest run of layout no layout begins, unless a comment is open there. -/
theorem Full.opensLayout_of_longest (full : lx.Full) (h : IsLongestLayout c.rest run rest)
    (unopened : rest.head? ≠ some '\x7b') {x : Char} {behind : List Char} (left : rest = x :: behind) :
    lx.opensLayout x = false := by
  rw [left, List.head?_cons, Ne, Option.some_inj] at unopened
  rw [opensLayout, full.comments, h.not_blank left, Bool.false_or, Bool.true_and, beq_eq_false_iff_ne]
  exact unopened

/-- The longest run of layout is passed whole, unless a comment is open behind it. -/
theorem Full.layoutLength_of_longest (full : lx.Full) (h : IsLongestLayout c.rest run rest)
    (unopened : rest.head? ≠ some '\x7b') : layoutLength lx.comments false c.rest = some run.length := by
  have none : layoutLength true false rest = some 0 := by
    cases rest with
    | nil => rfl
    | cons x behind =>
      rw [← full.comments, layoutLength_of_not_opens (full.opensLayout_of_longest h unopened rfl)]
  rw [full.comments, h.append, h.layout.layoutLength_append, none, Option.map_some, Nat.zero_add]

/-- Behind the longest run of layout the call ends, unless a comment is open there. -/
theorem Full.endsIn_of_longest (full : lx.Full) (h : IsLongestLayout c.rest run rest)
    (unopened : rest.head? ≠ some '\x7b') : EndsIn lx.iteration ⟨.outer, c⟩ (lx.token c) := by
  have there : (c.advanceBy run.length).rest = rest := by
    rw [Cursor.advanceBy_rest, h.append, List.drop_left]
  rw [endsIn_layout h.layout h.append, token_layout full.blanks (full.layoutLength_of_longest h unopened)]
  cases rest with
  | nil =>
    rw [token_nil there]
    exact .of_end (by simp only [iteration, there])
  | cons x behind => exact full.endsIn_token there (full.opensLayout_of_longest h unopened rfl)

/-- Before a comment that is not closed the call goes on for ever, and the reader has a fault of its own for
that. -/
theorem Full.not_endsIn_of_longest (full : lx.Full) (h : IsLongestLayout c.rest run rest)
    (opened : rest.head? = some '\x7b') :
    (∀ r, ¬EndsIn lx.iteration ⟨.outer, c⟩ r) ∧ lx.token c = .error .unclosedComment c := by
  obtain ⟨behind, rfl⟩ := List.head?_eq_some_iff.mp opened
  have there : (c.advanceBy run.length).rest = '\x7b' :: behind := by
    rw [Cursor.advanceBy_rest, h.append, List.drop_left]
  have unclosed := h.not_closed rfl
  constructor
  · intro r
    have brace : lx.iteration ⟨.outer, c.advanceBy run.length⟩ =
        .inl ⟨.comment, (c.advanceBy run.length).advance⟩ := by
      rw [iteration_outer there, if_neg (by decide), if_pos rfl]
    rw [endsIn_layout h.layout h.append, endsIn_iff_of_step brace]
    refine not_endsIn_comment ?_
    rw [Cursor.advance_rest, there, List.tail_cons]
    exact unclosed
  · refine token_unclosed full.blanks ?_
    have brace : layoutLength true false ('\x7b' :: behind) = none := by
      rw [layoutLength, if_neg (by decide), if_pos (by decide), layoutLength_unclosed unclosed, Option.map_none]
    rw [full.comments, h.append, h.layout.layoutLength_append, brace, Option.map_none]

end Lexis

/-- In the editions with declarations a call of the reader, at any position of a text and whatever line and column
are told there, ends exactly if the character behind the longest run of blanks and closed comments is not the
brace that opens a comment; no brace closes a comment that is open there, and the reader has a fault for this
case. A call that ends comes to the token or the fault of the reader. It leads neither back nor past the end of the
text, and it leads on if it returns a lexeme. -/
theorem call_ends_iff {e : Edition} (declarations : e.hasDeclarations = true) {text : String} {c : Cursor}
    (inside : c.pos ≤ text.toList.length) (left : c.rest = text.toList.drop c.pos) :
    ∃ run rest, IsLongestLayout (text.toList.drop c.pos) run rest ∧
      ((∃ r, EndsIn e.lexis.iteration ⟨.outer, c⟩ r) ↔ rest.head? ≠ some '\x7b') ∧
      (∀ behind, rest = '\x7b' :: behind → '\x7d' ∉ behind) ∧
      (rest.head? = some '\x7b' ↔ e.lexis.token c = .error .unclosedComment c) ∧
      ∀ r, EndsIn e.lexis.iteration ⟨.outer, c⟩ r →
        r = e.lexis.token c ∧ c.pos ≤ (Scan.behind r).pos ∧ (Scan.behind r).pos ≤ text.toList.length ∧
        ∀ l place d, r = .ok (.lexeme l place) d → c.pos < d.pos := by
  have full : e.lexis.Full := Edition.full_lexis declarations
  obtain ⟨run, rest, longest⟩ := IsLongestLayout.exists_run c.rest
  have ends : (∃ r, EndsIn e.lexis.iteration ⟨.outer, c⟩ r) ↔ rest.head? ≠ some '\x7b' := by
    refine ⟨fun ⟨r, ends⟩ opened => ?_, fun unopened => ⟨_, full.endsIn_of_longest longest unopened⟩⟩
    exact (full.not_endsIn_of_longest longest opened).1 r ends
  refine ⟨run, rest, left ▸ longest, ends, fun behind opened => longest.not_closed opened, ?_, ?_⟩
  · refine ⟨fun opened => (full.not_endsIn_of_longest longest opened).2, fun failed => ?_⟩
    by_contra unopened
    have length := full.layoutLength_of_longest longest unopened
    rw [full.layoutLength_of_unclosed failed] at length
    cases length
  · intro r reached
    have same := reached.unique (full.endsIn_of_longest longest (ends.mp ⟨r, reached⟩))
    subst same
    obtain ⟨n, within, moved⟩ := full.passes_token c
    rw [left, List.length_drop] at within
    rw [moved, Cursor.advanceBy_pos]
    refine ⟨rfl, by omega, by omega, fun l place d read => ?_⟩
    obtain ⟨m, _, ⟨other, _⟩ | ⟨_, k, _, _, positive, rfl, _⟩⟩ := Lexis.token_ok read
    · cases other
    · rw [Cursor.advanceBy_pos]
      omega

/-- An open comment behind a closed one and a blank; the mark before them is read. -/
theorem call_ends_iff_before_open_comment :
    let text := ";\x7bc\x7d \x7b"
    let before : Cursor := ⟨[';', '\x7b', 'c', '\x7d', ' ', '\x7b'], 0, 1, 1⟩
    let behind : Cursor := ⟨['\x7b', 'c', '\x7d', ' ', '\x7b'], 1, 1, 2⟩
    Edition.symbols.hasDeclarations = true ∧
    (∃ r, EndsIn Edition.symbols.lexis.iteration ⟨.outer, before⟩ r ∧
      (Scan.behind r).pos ≤ text.toList.length) ∧
    ¬∃ r, EndsIn Edition.symbols.lexis.iteration ⟨.outer, behind⟩ r := by
  intro text before behind
  have declarations : Edition.symbols.hasDeclarations = true := rfl
  have read : Edition.symbols.lexis.token before = .ok (.lexeme (.punctuation .semicolon) ⟨1, 1⟩) behind := rfl
  have unread : Edition.symbols.lexis.token behind = .error .unclosedComment behind := rfl
  obtain ⟨_, _, _, ends, _, unclosed, moved⟩ := @call_ends_iff _ declarations text before (by decide) (by decide)
  obtain ⟨_, _, _, ends', _, unclosed', _⟩ := @call_ends_iff _ declarations text behind (by decide) (by decide)
  refine ⟨declarations, ?_, fun reached => ends'.mp reached (unclosed'.mpr unread)⟩
  obtain ⟨r, reached⟩ := ends.mpr fun opened => by cases read.symm.trans (unclosed.mp opened)
  exact ⟨r, reached, (moved r reached).2.2.1⟩

end LittlePascal
