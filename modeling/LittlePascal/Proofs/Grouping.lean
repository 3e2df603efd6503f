import LittlePascal.Expression
import LittlePascal.Proofs.Formulas
import LittlePascal.Proofs.Succession

/-! # How calculators group operators

The first edition with trees groups the operators of a formula from left to right. The calculators that
evaluate while they read take its first factor apart. Both are loops over operators, and what such a loop comes
to does not depend on whether values are combined at once or trees are put together.

Main definitions:
* `Parse.Comes`: a rule comes to a value;
* `Reckoner`: what a rule makes of two operands and an operator, and what that means.

Main statements:
* `Reckoner.rounds_comes`, `Reckoner.chain_comes`: what loops over operators come to;
* `Reckoner.formula_comes`, `Reckoner.apart_comes`: formulas, read in the two ways;
* `evaluations_grouped`: the values that the editions find. -/

namespace LittlePascal

/-! ## Rules that come to a value -/

namespace Parse

variable {α β : Type} {Means : α → Option Int → Prop} {Means' : β → Option Int → Prop}
  {r s t : Reading} {v w : Option Int}

/-- A rule comes to a value: it yields what means the value, or there is none and a division by zero is
met. -/
def Comes (Means : α → Option Int → Prop) (rule : Parse α) (r s : Reading) (v : Option Int) : Prop :=
  (∃ a, rule r = .ok a s ∧ Means a v) ∨
    (v = none ∧ ∃ t, rule r = .error (.arithmetic .wholeByZero) t)

/-- Rules in sequence, if nothing comes of a division by zero. -/
theorem Comes.bind {rule : Parse α} {further : α → Parse β} (first : Comes Means rule r t v)
    (strict : v = none → w = none) (later : ∀ a, Means a v → Comes Means' (further a) t s w) :
    Comes Means' (rule >>= further) r s w := by
  rcases first with ⟨a, read, means⟩ | ⟨missing, t', failed⟩
  · have second := later a means
    rwa [Comes, Work.bind_of_ok read]
  · exact .inr ⟨strict missing, t', Work.bind_of_error failed⟩

/-- A rule after a step that succeeds. -/
theorem Comes.after {step : Parse β} {further : β → Parse α} {b : β} (read : step r = .ok b t)
    (h : Comes Means (further b) t s v) : Comes Means (step >>= further) r s v := by
  rwa [Comes, Work.bind_of_ok read]

/-- A rule that takes its bound from the text that is left. -/
theorem Comes.budget_bind {further : Nat → Parse α}
    (h : Comes Means (further (r.cursor.rest.length + 2)) r s v) :
    Comes Means (budget >>= further) r s v := h

/-- A result without reading comes to what it means. -/
theorem Comes.pure {a : α} (means : Means a v) : Comes Means (Pure.pure a) r r v := .inl ⟨a, rfl, means⟩

/-- A token that is not an operator is none of any operators. -/
theorem operatorAmong_eq_none {token : Token} (other : ∀ o place, token ≠ .lexeme (.operator o) place)
    (operators : List Operator) : operatorAmong operators token = none := by
  unfold operatorAmong
  split
  · rename_i o place
    exact absurd rfl (other o place)
  · rfl

/-- A token that is none of some operators is none of fewer. -/
theorem operatorAmong_mono {operators operators' : List Operator} {token : Token}
    (fewer : ∀ o ∈ operators, o ∈ operators') (none : operatorAmong operators' token = none) :
    operatorAmong operators token = Option.none := by
  cases token with
  | endOfText => rfl
  | lexeme l place =>
    cases l with
    | operator o =>
      rw [operatorAmong] at none ⊢
      split at none
      · cases none
      · rename_i other
        rw [if_neg (mt (fewer o) other)]
    | _ => rfl

end Parse

/-- What a rule makes of two operands and an operator, and what its results mean. -/
structure Reckoner (α : Type) where
  Means : α → Option Int → Prop
  combine : Operator → Place → α → α → Parse α
  combine_comes : ∀ {o place a b v w r}, Means a v → Means b w →
    Parse.Comes Means (combine o place a b) r r (o.reckon v w)

namespace Reckoner

variable {α : Type} {k : Reckoner α} {lx : Lexis} {g : Grouping}

/-- A first operand and then, as long as one of the operators follows, more operands. -/
def chain (k : Reckoner α) (lx : Lexis) (operators : List Operator) (first operand : Parse α) :
    Parse α := do
  let left ← first
  Parse.foldLeft lx (Parse.operatorAmong operators) k.combine operand (← Parse.budget) left

/-- A rule reads those factors whose marks are within certain limits. -/
def ReadsFactors (k : Reckoner α) (lx : Lexis) (g : Grouping) (limits : List Mark → Prop)
    (rule : Parse α) : Prop :=
  ∀ (f : Formula.Factor) {r s : Reading} {ms : List Mark}, Passage lx r ms s →
    ms.map Mark.lexeme = f.lexemes → limits ms → Parse.Comes k.Means rule r s (f.value g)

/-- No further factor follows. -/
def ClosesProduct (token : Token) : Prop := Parse.operatorAmong [.times, .div, .slash] token = none

/-- A rule reads those products whose marks are within certain limits, if no further factor follows. -/
def ReadsProducts (k : Reckoner α) (lx : Lexis) (g : Grouping) (limits : List Mark → Prop)
    (rule : Parse α) : Prop :=
  ∀ (p : Formula.Product) {r s : Reading} {ms : List Mark}, Passage lx r ms s →
    ms.map Mark.lexeme = p.lexemes → limits ms → ClosesProduct s.token →
    Parse.Comes k.Means rule r s (p.value g)

variable {limits : List Mark → Prop} {operators : List Operator} {operand : Parse α}
  {r s t u : Reading} {v w z : Option Int} {a : α} {n : Nat}

/-- What follows an operand is the operator of the next one, or what follows them all. -/
theorem stop_before (Stop : Token → Prop) {rounds : List Formula.Round} {ms : List Mark}
    (passage : Passage lx r ms s) (spelled : ms.map Mark.lexeme = Formula.Round.spelling rounds)
    (follows : ∀ round ∈ rounds, ∀ place, Stop (.lexeme (.operator round.operator) place))
    (stop : Stop s.token) : Stop r.token := by
  cases rounds with
  | nil =>
    obtain rfl := List.map_eq_nil_iff.mp spelled
    obtain rfl := Passage.nil_iff.mp passage
    exact stop
  | cons round rest =>
    obtain ⟨m, _, rfl, mark, _⟩ := List.map_eq_cons_iff.mp spelled
    rw [passage.token_eq, Mark.token, mark]
    exact follows round List.mem_cons_self m.place

/-- The rounds of a loop over operators. Each operand is read before a token at which it may stop, the
operators of later rounds among them. -/
theorem rounds_comes (mono : ∀ {ms ns}, ms.Sublist ns → limits ns → limits ms) (Stop : Token → Prop)
    {rounds : List Formula.Round} (among : ∀ round ∈ rounds, round.operator ∈ operators)
    (reads : ∀ round ∈ rounds, ∀ {r s : Reading} {ms : List Mark}, Passage lx r ms s →
      ms.map Mark.lexeme = round.lexemes → limits ms → Stop s.token →
      Parse.Comes k.Means operand r s round.value)
    (follows : ∀ round ∈ rounds.tail, ∀ place, Stop (.lexeme (.operator round.operator) place))
    {ms : List Mark} (passage : Passage lx r ms s)
    (spelled : ms.map Mark.lexeme = Formula.Round.spelling rounds) (within : limits ms)
    (short : ms.length < n) (stop : Stop s.token)
    (last : Parse.operatorAmong operators s.token = none) (means : k.Means a v) :
    Parse.Comes k.Means (Parse.foldLeft lx (Parse.operatorAmong operators) k.combine operand n a) r s
      (Formula.Round.applied rounds v) := by
  -- each round uses up marks, so the bound outlasts them; it is never zero
  obtain ⟨n, rfl⟩ : ∃ rounds, n = rounds + 1 := ⟨n - 1, by omega⟩
  induction rounds generalizing n r ms a v with
  | nil =>
    obtain rfl := List.map_eq_nil_iff.mp spelled
    obtain rfl := Passage.nil_iff.mp passage
    rw [Parse.Comes, Parse.foldLeft, Parse.current_bind, last]
    exact Parse.Comes.pure means
  | cons round rest ih =>
    obtain ⟨member, among⟩ := List.forall_mem_cons.mp among
    obtain ⟨readsFirst, reads⟩ := List.forall_mem_cons.mp reads
    obtain ⟨m, _, rfl, mark, spelled⟩ := List.map_eq_cons_iff.mp spelled
    obtain ⟨us, vs, rfl, first, later⟩ := List.map_eq_append_iff.mp spelled
    obtain ⟨t, step, passage⟩ := Passage.step_iff.mp passage
    obtain ⟨u, one, more⟩ := Passage.append_iff.mp passage
    rw [List.length_cons, List.length_append] at short
    obtain ⟨n, rfl⟩ : ∃ rounds, n = rounds + 1 := ⟨n - 1, by omega⟩
    have operand := readsFirst one first (mono ((List.sublist_append_left us vs).cons m) within)
      (stop_before Stop more later follows stop)
    have found : Parse.operatorAmong operators r.token = some (round.operator, m.place) := by
      rw [step.token_eq, Mark.token, mark, Parse.operatorAmong, if_pos member]
    rw [Parse.Comes, Parse.foldLeft, Parse.current_bind, found]
    -- a division by zero in the operand, or one made by combining it, leaves no value at the end
    refine Parse.Comes.after (Parse.next_of_passage step) (operand.bind ?_ fun b right => ?_)
    · intro missing
      show Formula.Round.applied rest (round.operator.reckon v round.value) = none
      rw [missing, Operator.reckon_none_right, Formula.Round.applied_none]
    · refine (k.combine_comes means right).bind ?_ fun c means' => ?_
      · intro missing
        show Formula.Round.applied rest (round.operator.reckon v round.value) = none
        rw [missing, Formula.Round.applied_none]
      · exact ih among reads (fun round member => follows round (List.mem_of_mem_tail member)) more later
          (mono ((List.sublist_append_right us vs).cons m) within) means' n (by omega)

/-- A first operand and the rounds behind it. -/
theorem chain_comes (mono : ∀ {ms ns}, ms.Sublist ns → limits ns → limits ms) (Stop : Token → Prop)
    {first : Parse α} {rounds : List Formula.Round} (among : ∀ round ∈ rounds, round.operator ∈ operators)
    (reads : ∀ round ∈ rounds, ∀ {r s : Reading} {ms : List Mark}, Passage lx r ms s →
      ms.map Mark.lexeme = round.lexemes → limits ms → Stop s.token →
      Parse.Comes k.Means operand r s round.value)
    (follows : ∀ round ∈ rounds.tail, ∀ place, Stop (.lexeme (.operator round.operator) place))
    (one : Parse.Comes k.Means first r t v) {ms : List Mark} (more : Passage lx t ms s)
    (spelled : ms.map Mark.lexeme = Formula.Round.spelling rounds) (within : limits ms)
    (stop : Stop s.token) (last : Parse.operatorAmong operators s.token = none) :
    Parse.Comes k.Means (k.chain lx operators first operand) r s (Formula.Round.applied rounds v) := by
  refine one.bind ?_ fun a means => .budget_bind ?_
  · rintro rfl
    exact Formula.Round.applied_none rounds
  · exact rounds_comes mono Stop among reads follows more spelled within more.length_lt_budget stop last means

/-- Products come to their factors applied one after the other. -/
theorem product_comes (mono : ∀ {ms ns}, ms.Sublist ns → limits ns → limits ms)
    (reads : k.ReadsFactors lx g limits operand) (times : .times ∈ operators) (slash : .slash ∈ operators)
    (scalings : ∀ o ∈ operators, o ∈ [Operator.times, .div, .slash]) :
    k.ReadsProducts lx g limits (k.chain lx operators operand operand) := by
  rintro ⟨f, fs⟩ r s ms passage spelled within last
  rw [Formula.Product.lexemes, fs.lexemes_eq g] at spelled
  obtain ⟨us, vs, rfl, first, later⟩ := List.map_eq_append_iff.mp spelled
  obtain ⟨t, one, more⟩ := Passage.append_iff.mp passage
  rw [Formula.Product.value, fs.applied_eq]
  -- a factor may stop before any token
  refine chain_comes mono (fun _ => True) ?_ ?_ (fun _ _ _ => trivial)
    (reads f one first (mono (List.sublist_append_left us vs) within)) more later
    (mono (List.sublist_append_right us vs) within) trivial (Parse.operatorAmong_mono scalings last)
  · intro round member
    obtain ⟨o, f, rfl⟩ := Formula.Factors.exists_of_mem_rounds member
    cases o
    · exact times
    · exact slash
  · intro round member r s ms passage spelled within _
    obtain ⟨o, f, rfl⟩ := Formula.Factors.exists_of_mem_rounds member
    exact reads f passage spelled within

/-- A sign is no operator of products. -/
theorem closes_product {ps : Formula.Products} {round : Formula.Round} (h : round ∈ ps.rounds g)
    (place : Place) :
    ClosesProduct (.lexeme (.operator round.operator) place) := by
  obtain ⟨sign, p, rfl⟩ := Formula.Products.exists_of_mem_rounds h
  cases sign <;> rfl

/-- The signs before products are among operators that have both. -/
theorem signs_among (plus : .plus ∈ operators) (minus : .minus ∈ operators) {ps : Formula.Products} :
    ∀ round ∈ ps.rounds g, round.operator ∈ operators := by
  intro round member
  obtain ⟨sign, p, rfl⟩ := Formula.Products.exists_of_mem_rounds member
  cases sign
  · exact plus
  · exact minus

/-- The products of a formula are read as products are. -/
theorem readsRounds (reads : k.ReadsProducts lx g limits operand) {ps : Formula.Products} :
    ∀ round ∈ ps.rounds g, ∀ {r s : Reading} {ms : List Mark}, Passage lx r ms s →
      ms.map Mark.lexeme = round.lexemes → limits ms → ClosesProduct s.token →
      Parse.Comes k.Means operand r s round.value := by
  intro round member r s ms passage spelled within stop
  obtain ⟨sign, p, rfl⟩ := Formula.Products.exists_of_mem_rounds member
  exact reads p passage spelled within stop

/-- A formula grouped from left to right: a chain of products. -/
theorem formula_comes (mono : ∀ {ms ns}, ms.Sublist ns → limits ns → limits ms)
    (reads : k.ReadsProducts lx .leftToRight limits operand) {x : Formula} {ms : List Mark}
    (passage : Passage lx r ms s) (spelled : ms.map Mark.lexeme = x.lexemes) (within : limits ms)
    (last : ∀ o place, s.token ≠ .lexeme (.operator o) place) :
    Parse.Comes k.Means (k.chain lx [.plus, .minus] operand operand) r s (x.value .leftToRight) := by
  obtain ⟨p, ps⟩ := x
  rw [Formula.lexemes, ps.lexemes_eq .leftToRight] at spelled
  obtain ⟨us, vs, rfl, first, later⟩ := List.map_eq_append_iff.mp spelled
  obtain ⟨t, one, more⟩ := Passage.append_iff.mp passage
  have none := Parse.operatorAmong_eq_none last
  have head := reads p one first (mono (List.sublist_append_left us vs) within)
    (stop_before ClosesProduct more later (fun round => closes_product) (none _))
  rw [Formula.value, Formula.Product.leading_leftToRight, ps.applied_eq]
  exact chain_comes mono ClosesProduct (signs_among (by simp) (by simp)) (readsRounds reads)
    (fun round member => closes_product (List.mem_of_mem_tail member)) head more later
    (mono (List.sublist_append_right us vs) within) (none _) (none _)

/-- A formula with its first factor apart: a chain that begins with a factor and goes on with products, the
rest of the first product among them. -/
theorem apart_comes (mono : ∀ {ms ns}, ms.Sublist ns → limits ns → limits ms) {product : Parse α}
    (readsFactor : k.ReadsFactors lx .firstApart limits operand)
    (readsProduct : k.ReadsProducts lx .firstApart limits product) {x : Formula} {ms : List Mark}
    (passage : Passage lx r ms s) (spelled : ms.map Mark.lexeme = x.lexemes) (within : limits ms)
    (last : ∀ o place, s.token ≠ .lexeme (.operator o) place) :
    Parse.Comes k.Means (k.chain lx Calculator.allOperators operand product) r s
      (x.value .firstApart) := by
  obtain ⟨⟨f, fs⟩, ps⟩ := x
  rw [Formula.lexemes, Formula.Product.lexemes, List.append_assoc, ps.lexemes_eq .firstApart] at spelled
  obtain ⟨us, vs, rfl, first, later⟩ := List.map_eq_append_iff.mp spelled
  obtain ⟨t, one, more⟩ := Passage.append_iff.mp passage
  have none := Parse.operatorAmong_eq_none last
  have head := readsFactor f one first (mono (List.sublist_append_left us vs) within)
  have within' : limits vs := mono (List.sublist_append_right us vs) within
  have signs : ∀ round ∈ ps.rounds .firstApart, round.operator ∈ Calculator.allOperators :=
    signs_among (by decide) (by decide)
  rw [Formula.value, Formula.Product.leading, ps.applied_eq]
  cases fs with
  | nil =>
    rw [Formula.Factors.lexemes, List.nil_append] at later
    rw [Formula.Factors.leading]
    exact chain_comes mono ClosesProduct signs (readsRounds readsProduct)
      (fun round member => closes_product (List.mem_of_mem_tail member)) head more later within'
      (none _) (none _)
  | cons o f' rest =>
    -- the rest of the first product is an operand of its own
    let round : Formula.Round :=
      ⟨o.operator, f'.lexemes ++ rest.lexemes, rest.applied .firstApart (f'.value .firstApart)⟩
    have spelled : vs.map Mark.lexeme = Formula.Round.spelling (round :: ps.rounds .firstApart) := by
      rw [later, Formula.Factors.lexemes, Formula.Round.spelling_cons, List.cons_append]
    have reads : ∀ {r s : Reading} {ms : List Mark}, Passage lx r ms s →
        ms.map Mark.lexeme = f'.lexemes ++ rest.lexemes → limits ms → ClosesProduct s.token →
        Parse.Comes k.Means product r s (rest.applied .firstApart (f'.value .firstApart)) := by
      rw [← Formula.Product.lexemes, ← Formula.Product.value]
      exact readsProduct (.mk f' rest)
    have member : o.operator ∈ Calculator.allOperators := by cases o <;> decide
    rw [Formula.Factors.leading]
    show Parse.Comes k.Means _ r s (Formula.Round.applied (round :: ps.rounds .firstApart) _)
    exact chain_comes mono ClosesProduct (List.forall_mem_cons.mpr ⟨member, signs⟩)
      (List.forall_mem_cons.mpr ⟨reads, readsRounds readsProduct⟩)
      (fun round => closes_product) head more spelled within' (none _) (none _)

/-- A number comes to itself. -/
theorem number_comes {m : Mark} (passage : Passage lx r [m] s) (means : k.Means a v) :
    Parse.Comes k.Means (do Parse.next lx; return a) r s v :=
  .after (Parse.next_of_passage passage) (.pure means)

/-- What stands in parentheses comes to what it comes to by itself. -/
theorem parens_comes {inner : Parse α} {m m' : Mark} {ms : List Mark}
    (passage : Passage lx r (m :: (ms ++ [m'])) s) (right : m'.lexeme = .punctuation .rightParen)
    (reads : ∀ {t u}, Passage lx t ms u → (∀ o place, u.token ≠ .lexeme (.operator o) place) →
      Parse.Comes k.Means inner t u v) :
    Parse.Comes k.Means
      (do Parse.next lx; let a ← inner; Parse.expect lx (.punctuation .rightParen); return a) r s v := by
  obtain ⟨t, step, passage⟩ := Passage.step_iff.mp passage
  obtain ⟨u, within, closing⟩ := Passage.append_iff.mp passage
  have other : ∀ o place, u.token ≠ .lexeme (.operator o) place := by
    intro o place same
    rw [closing.token_eq, Mark.token, right] at same
    cases same
  refine .after (Parse.next_of_passage step) ((reads within other).bind id fun a means => ?_)
  exact .after (Parse.expect_of_passage (by rw [right]; rfl) closing) (.pure means)

/-! ## Calculators that evaluate while they read -/

/-- The operation of an operator on whole numbers. -/
theorem apply_operation (o : Operator) (m n : Int) :
    liftArithmetic (Value.apply (Calculator.operation o) (.whole m) (.whole n)) =
      Calculation.result (o.whole.apply m n) := by
  have quotient : liftArithmetic (Value.apply .floorDivide (.whole m) (.whole n)) =
      Calculation.result (WholeOperator.div.apply m n) := by
    rw [Value.apply_floorDivide_whole, WholeOperator.apply]
    split <;> rfl
  cases o with
  | slash => exact quotient
  | div => exact quotient
  | _ => rfl

/-- Values are combined at once. -/
def values : Reckoner Value where
  Means a v := ∃ n, a = .whole n ∧ v = some n
  combine operator _ := Calculator.combine operator
  combine_comes := by
    rintro o place _ _ _ _ r ⟨m, rfl, rfl⟩ ⟨n, rfl, rfl⟩
    rw [Parse.Comes, Calculator.combine, apply_operation, Operator.reckon_some]
    cases o.whole.apply m n with
    | some v => exact .inl ⟨_, rfl, v, rfl, rfl⟩
    | none => exact .inr ⟨rfl, r, rfl⟩

/-- Products of factors, read and evaluated. -/
theorem readsProducts_products (mono : ∀ {ms ns}, ms.Sublist ns → limits ns → limits ms)
    {factor : Parse Value} (reads : values.ReadsFactors lx g limits factor) :
    values.ReadsProducts lx g limits (Calculator.products lx factor) :=
  product_comes mono reads (by decide) (by decide) (by decide)

/-- A formula that is read and evaluated at once comes to its value with first factors apart. -/
theorem mixed_comes (mono : ∀ {ms ns}, ms.Sublist ns → limits ns → limits ms) {factor : Parse Value}
    (reads : values.ReadsFactors lx .firstApart limits factor) {x : Formula} {ms : List Mark}
    (passage : Passage lx r ms s) (spelled : ms.map Mark.lexeme = x.lexemes) (within : limits ms)
    (last : ∀ o place, s.token ≠ .lexeme (.operator o) place) :
    Parse.Comes values.Means (Calculator.mixed lx factor) r s (x.value .firstApart) :=
  apart_comes mono reads (readsProducts_products mono reads) passage spelled within last

/-- The only mark of a number. -/
theorem mark_of_number {m : Nat} {ms : List Mark}
    (spelled : ms.map Mark.lexeme = (Formula.Factor.number m).lexemes) :
    ∃ mark, ms = [mark] ∧ mark.lexeme = .literal (.whole m) := by
  rw [Formula.Factor.lexemes] at spelled
  obtain ⟨mark, _, rfl, lexeme, none⟩ := List.map_eq_cons_iff.mp spelled
  obtain rfl := List.map_eq_nil_iff.mp none
  exact ⟨mark, rfl, lexeme⟩

/-- The marks of a formula in parentheses. -/
theorem marks_of_parens {inner : Formula} {ms : List Mark}
    (spelled : ms.map Mark.lexeme = (Formula.Factor.parens inner).lexemes) :
    ∃ m ns m', ms = m :: (ns ++ [m']) ∧ m.lexeme = .punctuation .leftParen ∧
      ns.map Mark.lexeme = inner.lexemes ∧ m'.lexeme = .punctuation .rightParen := by
  rw [Formula.Factor.lexemes] at spelled
  obtain ⟨m, _, rfl, left, spelled⟩ := List.map_eq_cons_iff.mp spelled
  obtain ⟨ns, _, rfl, within, last⟩ := List.map_eq_append_iff.mp spelled
  obtain ⟨m', _, rfl, right, none⟩ := List.map_eq_cons_iff.mp last
  obtain rfl := List.map_eq_nil_iff.mp none
  exact ⟨m, ns, m', rfl, left, within, right⟩

/-- A whole number, read and evaluated. -/
theorem whole_comes {m : Nat} {ms : List Mark} (passage : Passage lx r ms s)
    (spelled : ms.map Mark.lexeme = (Formula.Factor.number m).lexemes) :
    Parse.Comes values.Means (Calculator.whole lx) r s (some m) := by
  obtain ⟨mark, rfl, lexeme⟩ := mark_of_number spelled
  rw [Parse.Comes, Calculator.whole, Parse.current_bind, passage.token_eq, Mark.token, lexeme]
  exact number_comes passage ⟨m, rfl, rfl⟩

/-- Where no parentheses stand every factor is a number. -/
theorem whole_reads : values.ReadsFactors lx g (fun ms => ∀ m ∈ ms, ∀ p, m.lexeme ≠ .punctuation p)
    (Calculator.whole lx) := by
  intro f r s ms passage spelled bare
  cases f with
  | number m =>
    rw [Formula.Factor.value]
    exact whole_comes passage spelled
  | parens inner =>
    obtain ⟨m, ns, m', rfl, left, _⟩ := marks_of_parens spelled
    exact absurd left (bare m List.mem_cons_self _)

/-- Factors with at most so many levels of parentheses. -/
theorem calculator_factorWithin_reads (n : Nat) :
    values.ReadsFactors lx .firstApart (·.length < n) (Calculator.factorWithin lx n) := by
  induction n with
  | zero =>
    intro f r s ms _ _ short
    exact absurd short (Nat.not_lt_zero _)
  | succ n ih =>
    intro f r s ms passage spelled short
    cases f with
    | number m =>
      obtain ⟨mark, rfl, lexeme⟩ := mark_of_number spelled
      rw [Parse.Comes, Calculator.factorWithin, Parse.current_bind, passage.token_eq, Mark.token, lexeme,
        Formula.Factor.value]
      exact number_comes passage ⟨m, rfl, rfl⟩
    | parens inner =>
      obtain ⟨m, ns, m', rfl, left, within, right⟩ := marks_of_parens spelled
      have shorter : ns.length < n := by
        simp only [List.length_cons, List.length_append, List.length_nil] at short
        omega
      rw [Parse.Comes, Calculator.factorWithin, Parse.current_bind, passage.token_eq, Mark.token, left,
        Formula.Factor.value]
      exact parens_comes passage right fun passage' last =>
        mixed_comes (fun sub bound => Nat.lt_of_le_of_lt sub.length_le bound) ih passage' within shorter last

/-- Factors with any number of levels. -/
theorem calculator_factor_reads :
    values.ReadsFactors lx .firstApart (fun _ => True) (Calculator.factor lx) := by
  intro f r s ms passage spelled _
  rw [Parse.Comes, Calculator.factor, Parse.budget_bind]
  exact calculator_factorWithin_reads _ f passage spelled passage.length_lt_budget

/-! ## Trees that are evaluated later -/

/-- The outcome of a computation with lines, for a value or a division by zero. -/
def outcome : Option Int → Array String → EStateM.Result Fault (Array String) Value
  | some n, trace => .ok (.whole n) trace
  | none, trace => .error (.arithmetic .wholeByZero) trace

/-- A computation comes to a value, whatever lines have been written before it. -/
def TracedTo (work : Traced Value) (v : Option Int) : Prop :=
  ∀ trace, ∃ trace', work trace = outcome v trace'

/-- A computation that is done twice comes to the same value. -/
theorem TracedTo.twice {work : Traced Value} (h : TracedTo work v) :
    TracedTo (LittlePascal.twice (tellValue .off) work) v := by
  intro trace
  obtain ⟨trace₁, first⟩ := h trace
  cases v with
  | none => exact ⟨trace₁, Work.bind_of_error first⟩
  | some n =>
    obtain ⟨trace₂, second⟩ := h (trace₁.push (traceLine (Value.whole n).text))
    refine ⟨trace₂, ?_⟩
    rw [LittlePascal.twice, Work.bind_of_ok first, Work.bind_of_ok (tellValue_of_fits (Value.fits_off _) _)]
    exact second

/-- Trees are put together, and have a value when they are evaluated. -/
def trees : Reckoner Expr where
  Means a := TracedTo (a.evalTraced Edition.trees.evalRules .off)
  combine operator place left right := return .binary operator place left right
  combine_comes := by
    intro o place a b v w r left right
    refine .pure ?_
    rw [Expr.evalTraced]
    refine TracedTo.twice fun trace => ?_
    obtain ⟨trace₁, first⟩ := left trace
    cases v with
    | none => exact ⟨trace₁, Work.bind_of_error first⟩
    | some m =>
      obtain ⟨trace₂, second⟩ := right trace₁
      rw [Work.bind_of_ok first]
      cases w with
      | none => exact ⟨trace₂, Work.bind_of_error second⟩
      | some n =>
        have same : Expr.operation Edition.trees.evalRules o = Calculator.operation o := by cases o <;> rfl
        refine ⟨trace₂, ?_⟩
        rw [Work.bind_of_ok second, same, apply_operation, Operator.reckon_some]
        cases o.whole.apply m n <;> rfl

/-- A formula that is read as a tree comes to its value from left to right. -/
theorem sum_comes {gr : Grammar} (mono : ∀ {ms ns}, ms.Sublist ns → limits ns → limits ms)
    {factor : Parse Expr} (reads : trees.ReadsFactors gr.lexis .leftToRight limits factor) {x : Formula}
    {ms : List Mark} (passage : Passage gr.lexis r ms s) (spelled : ms.map Mark.lexeme = x.lexemes)
    (within : limits ms) (last : ∀ o place, s.token ≠ .lexeme (.operator o) place) :
    Parse.Comes trees.Means (gr.sum factor) r s (x.value .leftToRight) := by
  have product : trees.ReadsProducts gr.lexis .leftToRight limits (gr.product factor) :=
    product_comes mono reads (by decide) (by decide) (by decide)
  exact formula_comes mono product passage spelled within last

/-- Factors with at most so many levels of parentheses. -/
theorem grammar_factorWithin_reads {gr : Grammar} (n : Nat) :
    trees.ReadsFactors gr.lexis .leftToRight (·.length < n) (gr.factorWithin n) := by
  induction n with
  | zero =>
    intro f r s ms _ _ short
    exact absurd short (Nat.not_lt_zero _)
  | succ n ih =>
    intro f r s ms passage spelled short
    cases f with
    | number m =>
      obtain ⟨mark, rfl, lexeme⟩ := mark_of_number spelled
      rw [Parse.Comes, Grammar.factorWithin, Parse.current_bind, passage.token_eq, Mark.token, lexeme,
        Formula.Factor.value]
      have once : TracedTo (return .whole m) (some m) := fun trace => ⟨trace, rfl⟩
      exact number_comes passage once.twice
    | parens inner =>
      obtain ⟨m, ns, m', rfl, left, within, right⟩ := marks_of_parens spelled
      have shorter : ns.length < n := by
        simp only [List.length_cons, List.length_append, List.length_nil] at short
        omega
      rw [Parse.Comes, Grammar.factorWithin, Parse.current_bind, passage.token_eq, Mark.token, left,
        Formula.Factor.value]
      exact parens_comes passage right fun passage' last =>
        sum_comes (fun sub bound => Nat.lt_of_le_of_lt sub.length_le bound) ih passage' within shorter last

/-- An expression comes to the value of its formula. -/
theorem expr_comes {gr : Grammar} {x : Formula} {ms : List Mark} (passage : Passage gr.lexis r ms s)
    (spelled : ms.map Mark.lexeme = x.lexemes) (last : ∀ o place, s.token ≠ .lexeme (.operator o) place) :
    Parse.Comes trees.Means gr.expr r s (x.value .leftToRight) := by
  rw [Parse.Comes, Grammar.expr, Parse.budget_bind]
  exact sum_comes (fun sub bound => Nat.lt_of_le_of_lt sub.length_le bound) (grammar_factorWithin_reads _)
    passage spelled passage.length_lt_budget last

end Reckoner

/-! ## Readers without parentheses -/

/-- Readers that agree make the same passages. -/
theorem Passage.of_agrees {lx lx' : Lexis} {r s : Reading} {ms : List Mark} (passage : Passage lx r ms s)
    (agrees : lx.Agrees lx' r.cursor) : Passage lx' r ms s := by
  induction passage with
  | nil r => exact .nil r
  | cons token behind next rest ih =>
    obtain ⟨next', agrees'⟩ := Parse.next_follows agrees next
    exact .cons token behind next' (ih agrees')

/-- A token is read whatever marks there are, unless it is one of the others. -/
theorem Lexis.token_withMark {lx : Lexis} {mark : Char → Option Lexeme} {c d : Cursor} {t : Token}
    (read : lx.token c = .ok t d)
    (same : ∀ x l place, t = .lexeme l place → lx.mark x = some l → mark x = some l) :
    { lx with mark }.token c = .ok t d := by
  unfold token at read ⊢
  obtain ⟨_, c', skipped, read⟩ := Work.bind_eq_ok.mp read
  rw [Work.bind_of_ok (show { lx with mark }.skipLayout c = .ok () c' from skipped)]
  rw [Work.get_bind] at read ⊢
  cases left : c'.rest with
  | nil =>
    rw [left] at read
    exact read
  | cons x rest =>
    rw [left] at read
    dsimp only at read ⊢
    by_cases letter : (lx.words && Text.isLetter x) = true
    · rw [if_pos letter] at read ⊢
      exact read
    rw [if_neg letter] at read ⊢
    by_cases digit : Text.isDigit x = true
    · rw [if_pos digit] at read ⊢
      exact read
    rw [if_neg digit] at read ⊢
    by_cases assign : (lx.assign && x == ':' && rest.head? == some '=') = true
    · rw [if_pos assign] at read ⊢
      exact read
    rw [if_neg assign] at read ⊢
    cases marked : lx.mark x with
    | none =>
      rw [marked] at read
      cases read
    | some l =>
      rw [marked] at read
      cases read
      rw [same x l _ rfl marked]
      rfl

/-- A reader with other marks reads a text alike if it has those that stand in the text. -/
theorem Lexis.Reads.agrees_withMark {lx : Lexis} {mark : Char → Option Lexeme} {text : String} {ms : List Mark}
    (reads : lx.Reads text ms)
    (kept : ∀ m ∈ ms, ∀ x, lx.mark x = some m.lexeme → mark x = some m.lexeme) :
    lx.Agrees { lx with mark } (.start text.toList) := by
  refine Lexis.agrees_of_tokens
    (P := fun t => ∀ x l place, t = .lexeme l place → lx.mark x = some l → mark x = some l) ?_ ?_
  · intro c t d same read
    exact Lexis.token_withMark read same
  · intro n t d call x l place same marked
    rcases reads.mark_of_nth call with ended | ⟨m, member, token⟩
    · rw [ended] at same
      cases same
    · rw [token] at same
      injection same with lexeme
      subst lexeme
      exact kept m member x marked

/-- A text without parentheses is read without knowing them. -/
theorem Edition.trees_agree_products {limit : DigitLimit} {text : String} {ms : List Mark}
    (reads : (Edition.trees.lexis limit).Reads text ms) (bare : ∀ m ∈ ms, ∀ p, m.lexeme ≠ .punctuation p) :
    (Edition.trees.lexis limit).Agrees (Edition.products.lexis limit) (.start text.toList) := by
  refine reads.agrees_withMark fun m member x marked => ?_
  have marked' : ((Edition.signMark x).or ((Edition.productMark x).or (Edition.parenMark x))) = some m.lexeme :=
    marked
  rw [← Option.or_assoc] at marked'
  -- the readers differ in the parentheses only
  rcases Option.or_eq_some_iff.mp marked' with found | ⟨_, paren⟩
  · exact found
  · unfold Edition.parenMark at paren
    split at paren
    · injection paren with paren
      exact absurd paren.symm (bare m member .leftParen)
    · injection paren with paren
      exact absurd paren.symm (bare m member .rightParen)
    · cases paren

/-! ## The values that the editions find -/

/-- What an edition finds for a text, if reading can begin. -/
def Edition.finds (e : Edition) (text : String) (limit : DigitLimit := .off) :
    Except Fault (Except Fault Value) :=
  Evaluation.result <$> e.evaluate text limit

/-- An edition that evaluates while it reads finds what its rule comes to. -/
theorem Edition.finds_of_comes {e : Edition} {limit : DigitLimit} {rule : Parse Value} {text : String}
    {r s : Reading} {v : Option Int} (calculator : e.calculator? limit = some rule)
    (eager : e.readsOnDemand = false) (opened : (e.lexis limit).openReading text = .ok r)
    (h : Parse.Comes Reckoner.values.Means rule r s v) : e.finds text limit = .ok (Calculation.result v) := by
  have begun : e.evaluate text limit = .ok (.ofReading (rule r)) := by
    rw [evaluate, calculator]
    dsimp only
    rw [eager, opened]
    rfl
  rw [finds, begun]
  rcases h with ⟨_, read, n, rfl, rfl⟩ | ⟨rfl, t, failed⟩
  · rw [read]
    rfl
  · rw [failed]
    rfl

/-- An edition without a calculator evaluates the tree that it reads. -/
theorem Edition.evaluate_byTree {e : Edition} {limit : DigitLimit} (trees : e.calculator? limit = none)
    {text : String} {r : Reading} (opened : (e.lexis limit).openReading text = .ok r) :
    e.evaluate text limit = .ok (e.evaluateByTree r limit) := by
  simp only [evaluate, trees, opened]
  rfl

/-- The first edition with trees finds what its trees come to. -/
theorem Edition.finds_of_tree {text : String} {r s : Reading} {v : Option Int}
    (opened : Edition.trees.lexis.openReading text = .ok r)
    (h : Parse.Comes Reckoner.trees.Means Edition.trees.grammar.expr r s v) :
    Edition.trees.finds text = .ok (Calculation.result v) := by
  rw [finds, evaluate_byTree rfl opened]
  show Except.ok (Edition.trees.evaluateByTree r).result = _
  rcases h with ⟨tree, read, means⟩ | ⟨rfl, t, failed⟩
  · -- the tree is evaluated from no lines on
    obtain ⟨trace, came⟩ := means #[]
    rw [evaluateByTree, read]
    dsimp only
    rw [evaluateTree, if_pos rfl, came]
    cases v <;> rfl
  · rw [evaluateByTree, failed]
    rfl

/-- At the end of a text no operator follows. -/
theorem Reading.no_operator {s : Reading} (last : s.token = .endOfText) :
    ∀ o place, s.token ≠ .lexeme (.operator o) place := by
  intro o place same
  rw [last] at same
  cases same

/-- Different values are different results. -/
theorem Calculation.result_injective {v w : Option Int} (h : result v = result w) : v = w := by
  cases v with
  | none =>
    cases w with
    | none => rfl
    | some w => cases h
  | some v =>
    cases w with
    | none => cases h
    | some w =>
      injection h with h
      injection h with h
      rw [h]

/-- The values that the editions find for a text that is a formula. The first edition with trees groups from
left to right, and the calculators before it take the first factor of every formula apart; the first of them
knows no parentheses. So they agree exactly if the two ways of grouping come to the same, and that is so
for all numbers if the first products have no quotient among three or more factors. -/
theorem evaluations_grouped {text : String} {ms : List Mark} {x : Formula}
    (reads : Edition.trees.lexis.Reads text ms) (spelled : ms.map Mark.lexeme = x.lexemes) :
    Edition.trees.finds text = .ok (Calculation.result (x.value .leftToRight)) ∧
    Edition.parentheses.finds text = .ok (Calculation.result (x.value .firstApart)) ∧
    ((∀ p, .punctuation p ∉ x.lexemes) →
      Edition.products.finds text = Edition.parentheses.finds text) ∧
    (Edition.parentheses.finds text = Edition.trees.finds text ↔
      x.value .firstApart = x.value .leftToRight) ∧
    (x.steady = true → Edition.parentheses.finds text = Edition.trees.finds text) := by
  obtain ⟨r, s, opened, passage, last⟩ := id reads
  have ends := Reading.no_operator last
  have tree := Edition.finds_of_tree opened (Reckoner.expr_comes passage spelled ends)
  have apart : Edition.parentheses.finds text = .ok (Calculation.result (x.value .firstApart)) :=
    Edition.finds_of_comes rfl rfl opened
      (Reckoner.mixed_comes (fun _ _ => trivial) Reckoner.calculator_factor_reads passage spelled trivial ends)
  refine ⟨tree, apart, fun bare => ?_, ?_, fun steady => ?_⟩
  · -- without parentheses the reader of products sees the same tokens
    have plain : ∀ m ∈ ms, ∀ p, m.lexeme ≠ .punctuation p := by
      intro m member p same
      refine bare p ?_
      rw [← spelled, ← same]
      exact List.mem_map_of_mem member
    obtain ⟨opened', agrees⟩ := (Edition.trees_agree_products reads plain).openReading rfl opened
    rw [apart]
    exact Edition.finds_of_comes rfl rfl opened'
      (Reckoner.mixed_comes (fun sub plain m member => plain m (sub.subset member)) Reckoner.whole_reads
        (passage.of_agrees agrees) spelled plain ends)
  · rw [tree, apart]
    constructor
    · intro same
      injection same with same
      exact Calculation.result_injective same
    · intro same
      rw [same]
  · rw [tree, apart, Formula.value_eq_of_steady steady]

/-- A quotient of three factors: the ways of grouping differ, and with them the editions. -/
theorem evaluations_grouped_quotient_first :
    let text := "8 / 2 * 3"
    let x : Formula :=
      .sum (.mk (.number 8) (.cons .slash (.number 2) (.cons .times (.number 3) .nil))) .nil
    ∃ ms, Edition.trees.lexis.Reads text ms ∧ ms.map Mark.lexeme = x.lexemes ∧ x.steady = false ∧
      Edition.trees.finds text = .ok (.ok (.whole 12)) ∧
      Edition.parentheses.finds text = .ok (.ok (.whole 1)) ∧
      Edition.products.finds text = .ok (.ok (.whole 1)) ∧
      Edition.parentheses.finds text ≠ Edition.trees.finds text := by
  intro text x
  let marks : List Mark :=
    [⟨.literal (.whole 8), ⟨1, 1⟩, ' '⟩, ⟨.operator .slash, ⟨1, 3⟩, ' '⟩,
     ⟨.literal (.whole 2), ⟨1, 5⟩, ' '⟩, ⟨.operator .times, ⟨1, 7⟩, ' '⟩,
     ⟨.literal (.whole 3), ⟨1, 9⟩, none⟩]
  have reads : Edition.trees.lexis.Reads text marks := by decide
  have spelled : marks.map Mark.lexeme = x.lexemes := rfl
  obtain ⟨tree, apart, bare, agree, _⟩ := evaluations_grouped reads spelled
  have plain : ∀ p, Lexeme.punctuation p ∉ x.lexemes := by
    intro p
    rw [← spelled]
    simp [marks]
  refine ⟨marks, reads, spelled, rfl, tree, apart, (bare plain).trans apart, mt agree.mp ?_⟩
  decide

end LittlePascal
