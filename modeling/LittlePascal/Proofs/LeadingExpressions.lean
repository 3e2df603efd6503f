import LittlePascal.Proofs.Containment
import LittlePascal.Proofs.Integers
import LittlePascal.Proofs.Prediction

/-! # Expressions at the front of a text

The edition with signs reads an expression and does not ask what follows it. An operand that it does not find it
leaves out, and the hole is noticed only when the tree is evaluated. So a text has a value exactly if an expression
stands at its front, with no operator behind it and no divisor that is zero; all other texts fail, in one of six
ways.

Main definitions:
* `Lexis.BeginsWith`: an expression stands at the front of a text;
* `Fault.OfExpression`: the ways in which a text can fail to have a value.

Main statements:
* `Parse.foldLeft_ends`, `Grammar.sum_ends`: loops over operators end before other tokens;
* `Edition.filled_iff_derives`: a tree without holes is read exactly if its marks derive it;
* `Edition.expr_ends`: reading comes to a tree of whole numbers or to one of those faults;
* `value_iff_begins`: the texts that have a value. -/

namespace LittlePascal

/-! ## Where loops over operators end -/

/-- A loop over operators ends before a token that is none of them, and where its last operand ends. -/
theorem Parse.foldLeft_ends {lx : Lexis} {operators : List Operator} {operand : Parse Expr} {After : Token → Prop}
    (ends : ∀ {r s : Reading} {e : Expr}, operand r = .ok e s → After s.token) (n : Nat) :
    ∀ {r s : Reading} {left e : Expr}, After r.token →
      foldLeft lx (operatorAmong operators) (fun o p l r => return .binary o p l r) operand n left r = .ok e s →
      After s.token ∧ operatorAmong operators s.token = none := by
  -- the invariant is about the current token: it is one at which the operand before it could end
  induction n with
  | zero =>
    intro r s left e _ h
    cases h
  | succ n ih =>
    intro r s left e after h
    cases found : operatorAmong operators r.token with
    | none =>
      rw [foldLeft_stop found] at h
      cases h
      exact ⟨after, found⟩
    | some op =>
      rw [foldLeft_step found] at h
      obtain ⟨_, t, _, h⟩ := Work.bind_eq_ok.mp h
      obtain ⟨right, u, read, h⟩ := Work.bind_eq_ok.mp h
      exact ih (ends read) h

namespace Grammar

open Parse

variable {g : Grammar} {r s : Reading} {e : Expr}

/-- A chain of operands ends before a token that is none of its operators. -/
theorem chain_ends {operators : List Operator} {operand : Parse Expr} {After : Token → Prop}
    (ends : ∀ {r s : Reading} {e : Expr}, operand r = .ok e s → After s.token)
    (h : g.chain operators operand r = .ok e s) : After s.token ∧ operatorAmong operators s.token = none := by
  obtain ⟨first, t, read, h⟩ := Work.bind_eq_ok.mp h
  rw [budget_bind] at h
  exact foldLeft_ends ends _ (ends read) h

/-- The operators of products and of sums are all there are. -/
theorem noOperator_of_among {t : Token} (products : operatorAmong [.times, .div, .slash] t = none)
    (sums : operatorAmong [.plus, .minus] t = none) : NoOperator t := by
  intro o kind
  obtain ⟨p, rfl⟩ := (Token.kind_eq_iff rfl).mp kind
  cases o <;> simp [operatorAmong] at products sums

/-- No operator follows a sum that was read. -/
theorem sum_ends {rule : Parse Expr} (h : g.sum rule r = .ok e s) : NoOperator s.token := by
  have products : ∀ {r s : Reading} {e : Expr}, g.product rule r = .ok e s →
      operatorAmong [.times, .div, .slash] s.token = none :=
    fun read => (@chain_ends g _ _ _ _ _ (fun _ => True) (fun _ => trivial) read).2
  obtain ⟨products', sums⟩ := @chain_ends g r s e _ _
    (fun t => operatorAmong [.times, .div, .slash] t = none) products h
  exact noOperator_of_among products' sums

/-! ## Trees without holes -/

/-- If no operand is missing in an expression, none is missing in its operands. -/
theorem hereditary_filled : Hereditary fun e => e.hasHole = false where
  signed filled := filled
  binary filled := by simpa [Expr.hasHole] using filled

/-- Where operands may be left out, what is neither a sign, a literal nor in parentheses is. -/
theorem lastFactor_left_out (holes : g.holes = true) :
    Sound g.lexis g.lastFactor (DerivesIf (fun e => e.hasHole = false) .factor) := by
  intro r s e h
  rw [lastFactor, if_pos holes] at h
  cases h
  exact ⟨[], .nil r, fun filled => by cases filled⟩

/-- What is read without leaving out operands is derived. -/
theorem derives_of_filled (signs : g.signs = true) (holes : g.holes = true) (h : g.expr r = .ok e s)
    (filled : e.hasHole = false) : ∃ ms, Passage g.lexis r ms s ∧ NoOperator s.token ∧ DerivesExpr .sum ms e := by
  rw [expr, budget_bind] at h
  have factors := factorWithin_sound hereditary_filled signs (lastFactor_left_out holes)
  obtain ⟨ms, passage, form⟩ := sum_sound hereditary_filled (factors _) h
  exact ⟨ms, passage, sum_ends h, form filled⟩

end Grammar

namespace Edition

variable {r s : Reading} {e : Expr}

/-- A tree without holes is read exactly if its marks derive it and no operator follows them. -/
theorem filled_iff_derives (first : ∀ l p, r.token = .lexeme l p → l.Whole) :
    (Edition.signs.grammar.expr r = .ok e s ∧ e.hasHole = false) ↔
      ∃ ms, Passage Edition.signs.lexis r ms s ∧ Grammar.NoOperator s.token ∧ DerivesExpr .sum ms e := by
  constructor
  · rintro ⟨read, filled⟩
    exact Grammar.derives_of_filled rfl rfl read filled
  · rintro ⟨ms, passage, stop, form⟩
    have whole : ∀ m ∈ ms, m.lexeme.Whole := passage.forall_lexemes whole_of_token first
    refine ⟨?_, (form.numeric whole).2⟩
    exact @Grammar.exprAmong_complete Edition.signs.grammar (fun m => ∀ s, m.lexeme ≠ .name s) rfl
      (fun _ _ _ none => none _) _ r s ms e passage (Nat.lt_succ_self _)
      ⟨form, fun m member => (whole m member).1⟩ stop

end Edition

/-! ## Ways to fail -/

/-- The faults of a text without a value. -/
inductive Fault.OfExpression : Fault → Prop where
  /-- There is no text. -/
  | empty : OfExpression .emptyText
  /-- A character begins no lexeme. -/
  | character (x : Option Char) (place : Place) : OfExpression (.character x place)
  /-- Digits have no value. -/
  | digits (word : String) : OfExpression (.malformedWhole (.undecimal word))
  /-- A closing parenthesis is missing. -/
  | token (t : Token) : OfExpression (.unexpected t)
  /-- A divisor is zero. -/
  | divisor : OfExpression (.arithmetic .wholeByZero)
  /-- An operand is missing. -/
  | operand : OfExpression (.unhandled Expr.hole.className)

/-- The current lexeme is no name and no real number, and faults are those of expressions. -/
def Watch.whole : Watch where
  fine r := ∀ l p, r.token = .lexeme l p → l.Whole
  known := Fault.OfExpression
  names _ := True

namespace Edition

/-- A token that cannot be read is a character or a number. -/
theorem ofExpression_of_token {c d : Cursor} {fault : Fault} (h : Edition.signs.lexis.token c = .error fault d) :
    fault.OfExpression :=
  Lexis.failsOnly_token (fun comments => by cases comments) .digits (fun limited => absurd rfl limited)
    (fun decimal => by cases decimal) .character h

/-- The reader of the edition with signs keeps it so. -/
theorem kept_whole : Watch.whole.Kept Edition.signs.lexis where
  next {r s u} _ read := by
    intro l p token
    refine @whole_of_token .off r.cursor s.cursor l p ?_
    rw [Parse.next_ok read, token]
  fails {r s fault} _ failed := by
    obtain ⟨d, error⟩ := Parse.next_error failed
    exact ofExpression_of_token error
  refuses t := .token t
  names _ _ := trivial

variable {r : Reading} {text : String}

/-- So it is when a text is opened. -/
theorem whole_of_opened (opened : Edition.signs.lexis.openReading text = .ok r) : Watch.whole.fine r :=
  Lexis.first_of_openReading whole_of_token opened

/-- Reading comes to a tree of whole numbers, in which operands may be missing, or it fails as expressions do: no
bound is reached. -/
theorem expr_ends (first : Watch.whole.fine r) :
    (∃ e s, Edition.signs.grammar.expr r = .ok e s ∧ e.isNumeric = true) ∨
      ∃ fault s, Edition.signs.grammar.expr r = .error fault s ∧ fault.OfExpression := by
  -- where a factor is missing a hole is put without a step, so factors need not pass tokens
  have last : ∀ bound, Parse.Contained Watch.whole bound 0 Edition.signs.grammar.lastFactor (·.isNumeric = true) :=
    fun bound => .pure rfl
  have literal : ∀ {r : Reading} {l : Literal} {place : Place}, Watch.whole.fine r →
      r.token = .lexeme (.literal l) place → (Expr.literal l place).isNumeric = true := by
    intro r l place fine token
    cases l with
    | whole n => rfl
    | real x => exact absurd rfl ((fine _ _ token).2 x)
  have joined : ∀ o p left right, Expr.isNumeric left = true → Expr.isNumeric right = true →
      (Expr.binary o p left right).isNumeric = true := by
    intro o p left right numeric numeric'
    rw [Expr.isNumeric, numeric, numeric', Bool.and_self]
  have ends := Grammar.expr_contained_of kept_whole (Nat.zero_le 1) last literal (fun _ _ _ numeric => numeric) joined
    first (Nat.lt_succ_self r.room)
  cases outcome : Edition.signs.grammar.expr r with
  | ok e s =>
    rw [outcome] at ends
    cases ends with
    | read _ _ numeric => exact .inl ⟨e, s, rfl, numeric⟩
  | error fault s =>
    rw [outcome] at ends
    cases ends with
    | failed known => exact .inr ⟨fault, s, rfl, known⟩

end Edition

/-! ## Texts with a value -/

/-- The expression stands at the front of the text, with these marks. The lexeme behind them can be read, or the text
ends there, and it is no operator. -/
def Lexis.BeginsWith (lx : Lexis) (text : String) (ms : List Mark) (e : Expr) : Prop :=
  ∃ r s, lx.openReading text = .ok r ∧ Passage lx r ms s ∧ Grammar.NoOperator s.token ∧ DerivesExpr .sum ms e

namespace Edition

variable {text : String} {ms ns : List Mark} {e f : Expr}

/-- At most one expression stands at the front of a text. -/
theorem beginsWith_unique (h : Edition.signs.lexis.BeginsWith text ms e)
    (h' : Edition.signs.lexis.BeginsWith text ns f) : ms = ns ∧ e = f := by
  obtain ⟨r, s, opened, passage, stop, form⟩ := h
  obtain ⟨r', s', opened', passage', stop', form'⟩ := h'
  cases opened.symm.trans opened'
  have first := whole_of_opened opened
  obtain ⟨read, _⟩ := (filled_iff_derives first).mpr ⟨ms, passage, stop, form⟩
  obtain ⟨read', _⟩ := (filled_iff_derives first).mpr ⟨ns, passage', stop', form'⟩
  -- the reader comes to one tree and to one place, and the marks up to a place are determined
  cases read.symm.trans read'
  exact ⟨passage.marks_unique passage', rfl⟩

/-- The integer of the expression at its front is what is found for a text. -/
theorem finds_of_beginsWith (h : Edition.signs.lexis.BeginsWith text ms e) :
    Edition.signs.finds text = .ok (Calculation.result e.integer?) := by
  obtain ⟨r, s, opened, passage, stop, form⟩ := h
  have first := whole_of_opened opened
  obtain ⟨read, filled⟩ := (filled_iff_derives first).mpr ⟨ms, passage, stop, form⟩
  have numeric := (form.numeric (passage.forall_lexemes whole_of_token first)).1
  rw [finds_of_read opened read]
  exact congrArg _ (Expr.eval_eq_result rfl .empty numeric filled)

/-- A text begins with an expression that comes to an integer, or it fails as expressions do. -/
theorem finds_ends (text : String) :
    (∃ ms e v, Edition.signs.lexis.BeginsWith text ms e ∧ e.integer? = some v) ∨
      ∃ fault, fault.OfExpression ∧
        (Edition.signs.finds text = .error fault ∨ Edition.signs.finds text = .ok (.error fault)) := by
  cases opened : Edition.signs.lexis.openReading text with
  | error fault =>
    refine .inr ⟨fault, ?_, .inl ?_⟩
    · rcases Lexis.fault_of_openReading opened with rfl | ⟨c, d, failed⟩
      · exact .empty
      · exact ofExpression_of_token failed
    · simp only [finds, evaluate, opened]
      rfl
  | ok r =>
    rcases expr_ends (whole_of_opened opened) with ⟨e, s, read, numeric⟩ | ⟨fault, s, failed, known⟩
    · have found := finds_of_read opened read
      rcases @Expr.eval_cases Edition.signs.evalRules e rfl .empty numeric with
        ⟨v, known, _⟩ | ⟨_, divisor | ⟨_, missing⟩⟩
      · -- a hole would have left the tree without an integer
        have filled : e.hasHole = false := Expr.filled_of_integer? known
        obtain ⟨ms, passage, stop, form⟩ := (filled_iff_derives (whole_of_opened opened)).mp ⟨read, filled⟩
        exact .inl ⟨ms, e, v, ⟨r, s, opened, passage, stop, form⟩, known⟩
      · exact .inr ⟨_, .divisor, .inr (found.trans (congrArg _ divisor))⟩
      · exact .inr ⟨_, .operand, .inr (found.trans (congrArg _ missing))⟩
    · refine .inr ⟨fault, known, .inr ?_⟩
      rw [finds, evaluate_byTree rfl opened]
      show Except.ok (Edition.signs.evaluateByTree r).result = _
      rw [evaluateByTree, failed]

end Edition

/-- In the edition with signs a text has an integer for its value exactly if it begins with an expression that comes
to this integer, where what follows the expression can be read and is no operator. At most one expression stands
so at the front of a text. All other texts fail: they are empty, a lexeme that is needed cannot be read, a closing
parenthesis or an operand is missing, or a divisor is zero. -/
theorem value_iff_begins (text : String) :
    (∀ v : Int, Edition.signs.finds text = .ok (.ok (.whole v)) ↔
      ∃ ms e, Edition.signs.lexis.BeginsWith text ms e ∧ e.integer? = some v) ∧
    (∀ ms ns e f, Edition.signs.lexis.BeginsWith text ms e → Edition.signs.lexis.BeginsWith text ns f →
      ms = ns ∧ e = f) ∧
    ((∀ v : Int, Edition.signs.finds text ≠ .ok (.ok (.whole v))) →
      ∃ fault, fault.OfExpression ∧
        (Edition.signs.finds text = .error fault ∨ Edition.signs.finds text = .ok (.error fault))) := by
  have value : ∀ {ms : List Mark} {e : Expr} {v : Int}, Edition.signs.lexis.BeginsWith text ms e →
      e.integer? = some v → Edition.signs.finds text = .ok (.ok (.whole v)) := by
    intro ms e v begins known
    rw [Edition.finds_of_beginsWith begins, known]
    rfl
  refine ⟨fun v => ⟨fun found => ?_, fun ⟨ms, e, begins, known⟩ => value begins known⟩,
    fun ms ns e f => Edition.beginsWith_unique, fun none => ?_⟩
  · rcases Edition.finds_ends text with ⟨ms, e, w, begins, known⟩ | ⟨fault, _, failed | failed⟩
    · cases (value begins known).symm.trans found
      exact ⟨ms, e, begins, known⟩
    · cases failed.symm.trans found
    · cases failed.symm.trans found
  · rcases Edition.finds_ends text with ⟨ms, e, w, begins, known⟩ | failed
    · exact absurd (value begins known) (none w)
    · exact failed

/-- A parenthesis that was never opened ends the expression, and the text still has a value. -/
theorem value_iff_begins_before_paren :
    let text := "1 - 2)"
    let e : Expr := .binary .minus ⟨1, 3⟩ (.literal (.whole 1) ⟨1, 1⟩) (.literal (.whole 2) ⟨1, 5⟩)
    (∃ ms, Edition.signs.lexis.BeginsWith text ms e) ∧ Edition.signs.finds text = .ok (.ok (.whole (-1))) := by
  intro text e
  let one : Mark := ⟨.literal (.whole 1), ⟨1, 1⟩, ' '⟩
  let minus : Mark := ⟨.operator .minus, ⟨1, 3⟩, ' '⟩
  let two : Mark := ⟨.literal (.whole 2), ⟨1, 5⟩, ')'⟩
  let paren : Mark := ⟨.punctuation .rightParen, ⟨1, 6⟩, none⟩
  have reads : Edition.signs.lexis.Reads text (([one] ++ minus :: [two]) ++ [paren]) := by decide
  obtain ⟨r, s, opened, passage, _⟩ := reads
  obtain ⟨t, passage, behind⟩ := Passage.append_iff.mp passage
  have stop : Grammar.NoOperator t.token := by
    intro o same
    rw [behind.token_eq] at same
    cases same
  have begins : Edition.signs.lexis.BeginsWith text ([one] ++ minus :: [two]) e :=
    ⟨r, t, opened, passage, stop,
      .added (.product (.factor (.literal rfl))) rfl (by decide) (.factor (.literal rfl))⟩
  exact ⟨⟨_, begins⟩, ((value_iff_begins text).1 (-1)).mpr ⟨_, e, begins, rfl⟩⟩

end LittlePascal
