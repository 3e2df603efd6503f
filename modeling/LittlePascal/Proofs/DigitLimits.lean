import LittlePascal.Proofs.Writing

/-! # Limits on digits

A limit on the digits of whole numbers changes nothing in the reading of a text until more digits are met than it
allows. There the reading ends. So what is known of reading without a limit is known of reading with one, up to that
place.

Main definitions:
* `Limited`: work that does what other work does, or ends at too many digits;
* `Lexis.unlimited`, `Grammar.unlimited`: the same decisions without a limit.

Main statements:
* `Limited.bind`, and one lemma for every reader, every combinator and every rule;
* `Edition.attempt_limited`: whole texts;
* `Lexis.Reads.unlimited`: a text that can be read with a limit is read alike without one;
* `Edition.fits_of_reads`: the numbers of such a text. -/

namespace LittlePascal

/-- One work does what another does, or it ends at more digits than a limit allows. -/
def Limited {σ α : Type} (limit : DigitLimit) (bounded free : EStateM Fault σ α) : Prop :=
  ∀ s, bounded s = free s ∨
    ∃ count t, limit.allows count = false ∧ bounded s = .error (.malformedWhole (.tooLong limit.most count)) t

namespace Limited

variable {σ α β : Type} {limit : DigitLimit}

/-- Work that meets no numbers is not limited. -/
theorem refl (work : EStateM Fault σ α) : Limited limit work work := fun _ => .inl rfl

/-- Work in sequence is limited if its parts are. -/
theorem bind {bounded free : EStateM Fault σ α} {bounded' free' : α → EStateM Fault σ β}
    (first : Limited limit bounded free) (later : ∀ a, Limited limit (bounded' a) (free' a)) :
    Limited limit (bounded >>= bounded') (free >>= free') := by
  intro s
  rcases first s with same | ⟨count, t, long, ends⟩
  · cases outcome : free s with
    | error fault t => exact .inl (by rw [Work.bind_of_error (same.trans outcome), Work.bind_of_error outcome])
    | ok a t =>
      rw [Work.bind_of_ok (same.trans outcome), Work.bind_of_ok outcome]
      exact later a t
  · exact .inr ⟨count, t, long, Work.bind_of_error ends⟩

/-- Work is limited alike if its result is changed. -/
theorem map {bounded free : EStateM Fault σ α} (h : Limited limit bounded free) (f : α → β) :
    Limited limit (do return f (← bounded)) (do return f (← free)) :=
  h.bind fun _ => refl _

end Limited

/-! ## Readers -/

namespace Scan

variable (limit : DigitLimit)

/-- Digits are read as without a limit, or they are too many. -/
theorem wholeOf_limited (digits : List Char) : Limited limit (wholeOf limit digits) (wholeOf .off digits) := by
  intro c
  cases short : limit.allows (Text.leadingDecimals digits) with
  | true =>
    rw [wholeOf, wholeOf, short, DigitLimit.allows_off]
    exact .inl rfl
  | false => exact .inr ⟨_, c, short, wholeOf_of_long short c⟩

/-- A run of digits is read as without a limit, or it is too long. -/
theorem whole_limited : Limited limit (whole limit) whole := (Limited.refl _).bind (wholeOf_limited limit)

/-- A number with or without a point is limited. The digits around a point are not counted. -/
theorem decimal_limited : Limited limit (decimal limit) (decimal .off) := by
  refine (Limited.refl _).bind fun before => (Limited.refl _).bind fun c => ?_
  split
  · exact .refl _
  · exact (wholeOf_limited limit before).map _

/-- A single digit is limited. -/
theorem digit_limited : Limited limit (digit limit) (digit .off) :=
  (Limited.refl _).bind fun _ => (wholeOf_limited limit _).bind fun _ => .refl _

end Scan

namespace Lexis

/-- The same lexemes without a limit on digits. -/
def unlimited (lx : Lexis) : Lexis := { lx with limit := .off }

variable (lx : Lexis)

/-- A literal is read as without a limit, or it is too long. -/
theorem literal_limited : Limited lx.limit lx.literal lx.unlimited.literal := by
  show Limited lx.limit lx.literal ({ lx with limit := .off }.literal)
  unfold literal
  dsimp only
  split
  · exact (Scan.digit_limited _).map _
  · exact (Scan.whole_limited _).map _
  · exact Scan.decimal_limited _

/-- So is a number with its place. -/
theorem number_limited : Limited lx.limit lx.number lx.unlimited.number :=
  (Limited.refl _).bind fun _ => lx.literal_limited.map _

/-- A token is read as without a limit, or it is a number that is too long. -/
theorem token_limited : Limited lx.limit lx.token lx.unlimited.token := by
  refine (Limited.refl lx.skipLayout).bind fun _ => (Limited.refl _).bind fun c => ?_
  split
  · exact .refl _
  · -- only a digit opens a number
    show Limited lx.limit (if lx.words && _ then _ else if _ then lx.number else _)
      (if lx.words && _ then _ else if _ then lx.unlimited.number else _)
    split
    · exact .refl _
    · split
      · exact lx.number_limited
      · exact .refl _

end Lexis

/-! ## Combinators -/

namespace Parse

variable {α : Type} (lx : Lexis) {limit : DigitLimit} {bounded free : Parse α}

/-- A step to the next token is limited. -/
theorem next_limited : Limited lx.limit (next lx) (next lx.unlimited) := by
  intro r
  rw [next, next]
  rcases lx.token_limited r.cursor with same | ⟨count, d, long, ends⟩
  · exact .inl (by rw [same])
  · exact .inr ⟨count, { r with cursor := d }, long, by rw [ends]⟩

/-- A token of a kind is limited. -/
theorem expect_limited (kind : Kind) : Limited lx.limit (expect lx kind) (expect lx.unlimited kind) := by
  refine (Limited.refl _).bind fun token => ?_
  split
  · exact next_limited lx
  · exact .refl _

/-- A name is limited: the token behind it may be too long. -/
theorem ident_limited : Limited lx.limit (ident lx) (ident lx.unlimited) := by
  refine (Limited.refl _).bind fun token => ?_
  split
  · exact (next_limited lx).bind fun _ => .refl _
  · exact .refl _

/-- Announced items are limited if the items are. -/
theorem manyWhile_limited (announced : Kind → Bool) (item : Limited limit bounded free) (n : Nat) :
    Limited limit (manyWhile announced bounded n) (manyWhile announced free n) := by
  induction n with
  | zero => exact .refl _
  | succ n ih =>
    refine (Limited.refl _).bind fun kind => ?_
    split
    · exact item.bind fun _ => ih.map _
    · exact .refl _

/-- Items that begin alike are limited if the items are. -/
theorem many_limited (opener : Kind) (item : Limited limit bounded free) :
    Limited limit (many opener bounded) (many opener free) :=
  (Limited.refl _).bind (manyWhile_limited _ item)

/-- Items with separators are limited if the items are. -/
theorem separated_limited (separator : Kind) (item : Limited lx.limit bounded free) :
    Limited lx.limit (separated lx separator bounded) (separated lx.unlimited separator free) :=
  item.bind fun _ => (many_limited separator ((expect_limited lx separator).bind fun _ => item)).map _

/-- Operands joined by operators are limited if the operands are. -/
theorem foldLeft_limited (operator? : Token → Option (Operator × Place))
    (combine : Operator → Place → α → α → Parse α) (operand : Limited lx.limit bounded free) (n : Nat) (left : α) :
    Limited lx.limit (foldLeft lx operator? combine bounded n left)
      (foldLeft lx.unlimited operator? combine free n left) := by
  induction n generalizing left with
  | zero => exact .refl _
  | succ n ih =>
    refine (Limited.refl _).bind fun token => ?_
    split
    · exact .refl _
    · exact (next_limited lx).bind fun _ => operand.bind fun _ => (Limited.refl _).bind fun joined => ih joined

end Parse

/-! ## Rules -/

namespace Grammar

open Parse

/-- The same rules without a limit on digits. -/
def unlimited (g : Grammar) : Grammar := { g with lexis := g.lexis.unlimited }

variable (g : Grammar)

/-- A chain is limited if its operands are. -/
theorem chain_limited (operators : List Operator) {bounded free : Parse Expr}
    (operand : Limited g.lexis.limit bounded free) :
    Limited g.lexis.limit (g.chain operators bounded) (g.unlimited.chain operators free) :=
  operand.bind fun first => (Limited.refl _).bind fun n => foldLeft_limited g.lexis _ _ operand n first

/-- A sum of products is limited if its factors are. -/
theorem sum_limited {bounded free : Parse Expr} (factor : Limited g.lexis.limit bounded free) :
    Limited g.lexis.limit (g.sum bounded) (g.unlimited.sum free) :=
  g.chain_limited _ (g.chain_limited _ factor)

/-- An operand that is a name, or is left out, is limited. -/
theorem lastFactor_limited : Limited g.lexis.limit g.lastFactor g.unlimited.lastFactor := by
  show Limited g.lexis.limit (if g.holes then _ else _) (if g.holes then _ else _)
  split
  · exact .refl _
  · exact (ident_limited g.lexis).map _

/-- An operand is limited, at every level of nesting. -/
theorem factorWithin_limited (n : Nat) :
    Limited g.lexis.limit (g.factorWithin n) (g.unlimited.factorWithin n) := by
  have step := next_limited g.lexis
  induction n with
  | zero => exact .refl _
  | succ n ih =>
    have signed (sign : Sign) (place : Place) :
        Limited g.lexis.limit
          (if g.signs then do next g.lexis; return .signed sign place (← g.factorWithin n) else g.lastFactor)
          (if g.signs then do next g.lexis.unlimited; return .signed sign place (← g.unlimited.factorWithin n)
            else g.unlimited.lastFactor) := by
      split
      · exact step.bind fun _ => ih.map _
      · exact g.lastFactor_limited
    refine (Limited.refl _).bind fun token => ?_
    split
    · exact step.bind fun _ => .refl _
    · exact step.bind fun _ => (g.sum_limited ih).bind fun _ => (expect_limited g.lexis _).bind fun _ => .refl _
    · exact signed .plus _
    · exact signed .minus _
    · exact g.lastFactor_limited

/-- An expression is read as without a limit, or up to a number that is too long. -/
theorem expr_limited : Limited g.lexis.limit g.expr g.unlimited.expr :=
  (Limited.refl _).bind fun n => g.sum_limited (g.factorWithin_limited n)

/-- An assignment is limited. -/
theorem assignment_limited : Limited g.lexis.limit g.assignment g.unlimited.assignment := by
  refine (ident_limited g.lexis).bind fun target => (Limited.refl _).bind fun token => ?_
  split
  · exact (next_limited g.lexis).bind fun _ => g.expr_limited.map _
  · exact .refl _

/-- The arguments of a call are limited. -/
theorem arguments_limited : Limited g.lexis.limit g.arguments g.unlimited.arguments := by
  refine (Limited.refl _).bind fun kind => ?_
  split
  · exact .refl _
  · exact separated_limited g.lexis _ g.expr_limited

/-- A call is limited. -/
theorem call_limited : Limited g.lexis.limit g.call g.unlimited.call :=
  (ident_limited g.lexis).bind fun _ => (expect_limited g.lexis _).bind fun _ =>
    g.arguments_limited.bind fun _ => (expect_limited g.lexis _).bind fun _ => .refl _

/-- A compound statement is limited if its statements are. -/
theorem compoundOf_limited {bounded free : Parse Stmt} (statement : Limited g.lexis.limit bounded free) :
    Limited g.lexis.limit (g.compoundOf bounded) (g.unlimited.compoundOf free) := by
  have statements : Limited g.lexis.limit (g.statementsOf bounded) (g.unlimited.statementsOf free) :=
    (separated_limited g.lexis _ statement).bind fun _ => .refl _
  exact (expect_limited g.lexis _).bind fun _ => statements.bind fun _ =>
    (expect_limited g.lexis _).bind fun _ => .refl _

/-- A statement is limited, at every level of nesting. -/
theorem statementWithin_limited (n : Nat) :
    Limited g.lexis.limit (g.statementWithin n) (g.unlimited.statementWithin n) := by
  induction n with
  | zero => exact .refl _
  | succ n ih =>
    refine (Limited.refl _).bind fun kind => ?_
    split
    · exact (g.compoundOf_limited ih).map _
    · refine (Limited.refl g.startsCall).bind fun call => ?_
      split
      · exact g.call_limited
      · exact g.assignment_limited
    · exact .refl _

/-- The statements of a block are limited. -/
theorem compound_limited : Limited g.lexis.limit g.compound g.unlimited.compound :=
  (Limited.refl _).bind fun n => g.compoundOf_limited (g.statementWithin_limited n)

/-- A type is limited. -/
theorem typeRef_limited : Limited g.lexis.limit g.typeRef g.unlimited.typeRef := by
  refine (Limited.refl _).bind fun token => ?_
  split
  · exact (next_limited g.lexis).bind fun _ => .refl _
  · exact (next_limited g.lexis).bind fun _ => .refl _
  · exact .refl _

/-- Names that share a type are limited. -/
theorem bindings_limited : Limited g.lexis.limit g.bindings g.unlimited.bindings :=
  (separated_limited g.lexis _ (ident_limited g.lexis)).bind fun _ =>
    (expect_limited g.lexis _).bind fun _ => g.typeRef_limited.map _

/-- The parameters of a procedure are limited. -/
theorem parameterSection_limited : Limited g.lexis.limit g.parameterSection g.unlimited.parameterSection := by
  have list : Limited g.lexis.limit g.parameterList g.unlimited.parameterList := by
    refine (Limited.refl _).bind fun kind => ?_
    split
    · exact (separated_limited g.lexis _ g.bindings_limited).map _
    · exact .refl _
  refine (Limited.refl _).bind fun kind => ?_
  show Limited g.lexis.limit (if g.parameters && _ then _ else _) (if g.parameters && _ then _ else _)
  split
  · exact (next_limited g.lexis).bind fun _ => list.bind fun _ => (expect_limited g.lexis _).bind fun _ => .refl _
  · exact .refl _

/-- A section of variables is limited. -/
theorem variableSection_limited : Limited g.lexis.limit g.variableSection g.unlimited.variableSection := by
  have group : Limited g.lexis.limit g.variableDecls g.unlimited.variableDecls :=
    g.bindings_limited.bind fun _ => (expect_limited g.lexis _).bind fun _ => .refl _
  exact (expect_limited g.lexis _).bind fun _ => (many_limited _ group).map _

variable {bounded free : Parse Block}

/-- A procedure is limited if its block is. -/
theorem procedureOf_limited (block : Limited g.lexis.limit bounded free) :
    Limited g.lexis.limit (g.procedureOf bounded) (g.unlimited.procedureOf free) :=
  (expect_limited g.lexis _).bind fun _ => (ident_limited g.lexis).bind fun _ =>
    g.parameterSection_limited.bind fun _ => (expect_limited g.lexis _).bind fun _ =>
    block.bind fun _ => (expect_limited g.lexis _).bind fun _ => .refl _

/-- Declarations are limited, in either arrangement. -/
theorem declarationsOf_limited (block : Limited g.lexis.limit bounded free) :
    Limited g.lexis.limit (g.declarationsOf bounded) (g.unlimited.declarationsOf free) := by
  have procedures := g.procedureOf_limited block
  show Limited g.lexis.limit (if g.interleaved then _ else _) (if g.interleaved then _ else _)
  split
  · refine (Limited.refl _).bind fun n => (manyWhile_limited _ ?_ n).map _
    refine (Limited.refl _).bind fun kind => ?_
    split
    · exact g.variableSection_limited
    · exact procedures.map _
  · have rest (vars : List Decl) := (many_limited (.reserved .procedure) procedures).map (vars ++ ·)
    refine (Limited.refl _).bind fun kind => ?_
    dsimp only
    split
    · exact g.variableSection_limited.bind rest
    · exact (Limited.refl _).bind rest

/-- A block is limited, at every level of nesting. -/
theorem blockWithin_limited (n : Nat) :
    Limited g.lexis.limit (g.blockWithin n) (g.unlimited.blockWithin n) := by
  induction n with
  | zero => exact .refl _
  | succ n ih => exact (g.declarationsOf_limited ih).bind fun _ => g.compound_limited.map _

/-- A program with its header is limited. -/
theorem program_limited : Limited g.lexis.limit g.program g.unlimited.program :=
  (expect_limited g.lexis _).bind fun _ => (ident_limited g.lexis).bind fun _ =>
    (expect_limited g.lexis _).bind fun _ =>
    Limited.bind ((Limited.refl _).bind g.blockWithin_limited) fun _ =>
    (expect_limited g.lexis _).bind fun _ => .refl _

/-- A whole text is read as without a limit, or up to a number that is too long. -/
theorem parse_limited : Limited g.lexis.limit g.parse g.unlimited.parse := by
  refine Limited.bind ?_ fun node => .refl _
  show Limited g.lexis.limit (if g.holes then _ else if g.header then _ else _)
    (if g.holes then _ else if g.header then _ else _)
  split
  · exact g.expr_limited.map _
  · split
    · exact g.program_limited.map _
    · exact Limited.map (g.compound_limited.bind fun _ => (expect_limited g.lexis _).bind fun _ => .refl _) _

end Grammar

/-! ## Texts -/

namespace Lexis

variable {lx : Lexis} {text : String} {ms : List Mark}

/-- A token that is read with a limit is read alike without one. -/
theorem token_unlimited {t : Token} {c d : Cursor} (h : lx.token c = .ok t d) : lx.unlimited.token c = .ok t d := by
  rcases lx.token_limited c with same | ⟨_, _, _, ends⟩
  · exact same.symm.trans h
  · cases ends.symm.trans h

/-- A passage with a limit is one without. -/
theorem Passage.unlimited {r s : Reading} (h : Passage lx r ms s) : Passage lx.unlimited r ms s := by
  induction h with
  | nil r => exact .nil r
  | cons token behind next _ ih =>
    refine .cons token behind ?_ ih
    rw [Parse.next, token_unlimited (Parse.next_ok next)]

/-- A text is opened as without a limit, or its first token has too many digits. -/
theorem openReading_limited (lx : Lexis) (text : String) :
    lx.openReading text = lx.unlimited.openReading text ∨
      ∃ count, lx.limit.allows count = false ∧
        lx.openReading text = .error (.malformedWhole (.tooLong lx.limit.most count)) := by
  have begun : lx.unlimited.openText text = lx.openText text := rfl
  rw [openReading, openReading, begun]
  cases lx.openText text with
  | error fault => exact .inl rfl
  | ok c =>
    simp only [bind, Except.bind]
    rcases lx.token_limited c with same | ⟨count, d, long, ends⟩
    · exact .inl (by rw [same])
    · exact .inr ⟨count, long, by rw [ends]⟩

/-- A text that can be read with a limit is read alike without one. -/
theorem Reads.unlimited (h : lx.Reads text ms) : lx.unlimited.Reads text ms := by
  obtain ⟨r, s, opened, passage, last⟩ := h
  refine ⟨r, s, ?_, Passage.unlimited passage, last⟩
  rcases lx.openReading_limited text with same | ⟨_, _, ends⟩
  · exact same.symm.trans opened
  · cases ends.symm.trans opened

end Lexis

namespace Edition

variable (e : Edition) {limit : DigitLimit} {text : String} {ms : List Mark}

/-- An edition makes of a text what it makes of it without a limit, or it fails at too many digits. -/
theorem attempt_limited (limit : DigitLimit) (text : String) :
    (e.lexis limit).attempt (e.grammar limit).parse text = e.lexis.attempt e.grammar.parse text ∨
      ∃ count, limit.allows count = false ∧
        ((e.lexis limit).attempt (e.grammar limit).parse text).result =
          .error (.malformedWhole (.tooLong limit.most count)) := by
  have free : e.lexis.openReading text = (e.lexis limit).unlimited.openReading text := rfl
  unfold Lexis.attempt
  rw [free]
  rcases (e.lexis limit).openReading_limited text with same | ⟨count, long, ends⟩
  · rw [same]
    cases (e.lexis limit).unlimited.openReading text with
    | error fault => exact .inl rfl
    | ok r =>
      dsimp only
      rcases (e.grammar limit).parse_limited r with same | ⟨count, s, long, ends⟩
      · rw [same]
        exact .inl rfl
      · exact .inr ⟨count, long, by rw [ends]; rfl⟩
  · exact .inr ⟨count, long, by rw [ends]; rfl⟩

/-- The numbers of a text that can be read have no more digits than the limit allows. -/
theorem fits_of_reads {e : Edition} (reads : (e.lexis limit).Reads text ms) {m : Mark} (member : m ∈ ms)
    {l : Literal} (number : m.lexeme = .literal l) : l.fits limit = true := by
  let noNumber (l : Lexeme) : Bool := l.kind ≠ .whole && l.kind ≠ .real
  have makes := reads.makes m member
  rw [number] at makes
  rcases makes with ⟨word, same⟩ | ⟨l', fits, same⟩ | same | ⟨x, marked⟩
  · change Lexeme.literal l = e.lexis.wordLexeme word at same
    rw [Lexis.wordLexeme] at same
    cases found : e.lexis.reserved.lookup
        (String.ofList (if e.lexis.foldsCase then Text.capitals word else word)) with
    | some word =>
      rw [found] at same
      obtain rfl : .literal l = word := same
      have other := @test_of_reserved e noNumber (by cases e <;> decide) _ _ found
      cases l <;> cases other
    | none =>
      rw [found] at same
      cases same
  · cases same
    exact fits
  · cases same
  · have other := @test_of_mark e (fun _ l? => l?.all noNumber) (by cases e <;> decide) _ _ marked
    cases l <;> cases other

end Edition

end LittlePascal
