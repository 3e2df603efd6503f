import LittlePascal.Proofs.Regrouping
import LittlePascal.Proofs.Transcript

/-! # Series of numbers

A series is a number with others behind operators. From left to right, whatever the operators are, it folds to an
integer. Without products all calculators find this integer, however they read: by a loop over operators, by loops
within loops, or as a tree. The calculator without precedence finds it for all series. Where digits are limited, the
one that writes down what it finds on the way fails if this has too many digits.

Main definitions:
* `Series`, `Series.lexemes`: series, and how they are written;
* `Series.folded`, `Series.partials`: what a series folds to, and what it comes to on the way;
* `Edition.calculators`: the editions that calculate with more than two numbers.

Main statements:
* `Series.applied_rounds`: a series folds to an integer, unless zero is a divisor in it;
* `Lexis.Reads.withMark`: a text is read alike with other marks;
* `Series.chain_comes`: what one loop over operators comes to;
* `Series.mem_told_onto`: the integers that the tree of a series tells;
* `series_folded`: what the calculators find for a series. -/

namespace LittlePascal

/-! ## Series -/

/-- A number, and others behind operators. -/
structure Series where
  first : Nat
  rest : List (Operator × Nat)
  deriving DecidableEq, Repr

namespace Series

/-- A series as it is written. -/
def lexemes (c : Series) : List Lexeme :=
  .literal (.whole c.first) :: c.rest.flatMap fun (o, n) => [.operator o, .literal (.whole n)]

/-- An operator with the number behind it, applied to what stands before it. Quotients are rounded down. -/
def step (before : Int) : Operator × Nat → Int
  | (.plus, n) => before + n
  | (.minus, n) => before - n
  | (.times, n) => before * n
  | (.div, n) | (.slash, n) => before.fdiv n

/-- All operators applied, one after the other. -/
def folded (c : Series) : Int := c.rest.foldl step c.first

/-- What a series comes to number by number. -/
def partials (c : Series) : List Int := c.rest.scanl step c.first

/-- The numbers behind operators, as operands. -/
def rounds (rest : List (Operator × Nat)) : List Formula.Round :=
  rest.map fun (o, n) => ⟨o, (Formula.Factor.number n).lexemes, some n⟩

/-- The lexemes of a series are those of its operands. -/
theorem lexemes_eq (c : Series) :
    c.lexemes = (Formula.Factor.number c.first).lexemes ++ Formula.Round.spelling (rounds c.rest) := by
  simp only [lexemes, Formula.Factor.lexemes, Formula.Round.spelling, rounds, List.flatMap_map, List.singleton_append]

/-- A lexeme of a series is a number or one of its operators. -/
theorem mem_lexemes {c : Series} {l : Lexeme} (h : l ∈ c.lexemes) :
    (∃ n, l = .literal (.whole n)) ∨ ∃ t ∈ c.rest, l = .operator t.1 := by
  rcases List.mem_cons.mp h with first | later
  · exact .inl ⟨c.first, first⟩
  · obtain ⟨⟨o, n⟩, member, lexeme⟩ := List.mem_flatMap.mp later
    rcases List.mem_pair.mp lexeme with operator | number
    · exact .inr ⟨(o, n), member, operator⟩
    · exact .inl ⟨n, number⟩

/-- The operators of a series are among its lexemes. -/
theorem operator_mem_lexemes {c : Series} {t : Operator × Nat} (h : t ∈ c.rest) : .operator t.1 ∈ c.lexemes :=
  List.mem_cons_of_mem _ (List.mem_flatMap.mpr ⟨t, h, List.mem_cons_self⟩)

/-- An operator other than the word for division comes to the step, unless it divides by zero. -/
theorem reckon_step {o : Operator} (wordless : o ≠ .div) (before : Int) (n : Nat) :
    o.reckon (some before) (some n) = if (o, n) = (.slash, 0) then none else some (step before (o, n)) := by
  cases o with
  | div => exact absurd rfl wordless
  | slash =>
    by_cases zero : n = 0
    · subst zero
      rfl
    · simp [Operator.whole, WholeOperator.apply, step, zero]
  | plus | minus | times => simp [Operator.whole, WholeOperator.apply, step]

/-- The operands of a series come to what it folds to, unless zero is a divisor. -/
theorem applied_rounds {rest : List (Operator × Nat)} (wordless : ∀ t ∈ rest, t.1 ≠ .div) (before : Int) :
    Formula.Round.applied (rounds rest) (some before) =
      if (.slash, 0) ∈ rest then none else some (rest.foldl step before) := by
  -- behind a division by zero nothing is applied any more, so where it stands does not matter
  induction rest generalizing before with
  | nil => simp [rounds, Formula.Round.applied]
  | cons t rest ih =>
    obtain ⟨o, n⟩ := t
    obtain ⟨here, later⟩ := List.forall_mem_cons.mp wordless
    show Formula.Round.applied (rounds rest) (o.reckon (some before) (some n)) = _
    rw [reckon_step here]
    by_cases zero : (o, n) = (.slash, 0)
    · rw [if_pos zero, Formula.Round.applied_none, if_pos (zero ▸ List.mem_cons_self)]
    · have member : (.slash, 0) ∈ (o, n) :: rest ↔ (.slash, 0) ∈ rest := by
        rw [List.mem_cons, or_iff_right (Ne.symm zero)]
      simp only [if_neg zero, ih later, member, List.foldl_cons]

/-- Without products there are no divisors. -/
theorem applied_signs {c : Series} (signs : ∀ t ∈ c.rest, t.1 = .plus ∨ t.1 = .minus) :
    Formula.Round.applied (rounds c.rest) (some c.first) = some c.folded := by
  have undivided : (.slash, 0) ∉ c.rest := by
    intro among
    rcases signs _ among with other | other <;> cases other
  rw [applied_rounds, if_neg undivided, folded]
  intro t among same
  rcases signs t among with other | other <;> cases same.symm.trans other

/-! ## Sums as formulas -/

/-- Numbers behind signs, as products of one factor. -/
def products : List (Operator × Nat) → Formula.Products
  | [] => .nil
  | (o, n) :: rest => .cons (if o = .minus then .minus else .plus) (.mk (.number n) .nil) (products rest)

/-- The formula of a series of sums and differences. -/
def formula (c : Series) : Formula := .sum (.mk (.number c.first) .nil) (products c.rest)

/-- The operands of the formula are those of the series. -/
theorem rounds_products {g : Grouping} {rest : List (Operator × Nat)}
    (signs : ∀ t ∈ rest, t.1 = .plus ∨ t.1 = .minus) : (products rest).rounds g = rounds rest := by
  induction rest with
  | nil => rw [products, Formula.Products.rounds, rounds, List.map_nil]
  | cons t rest ih =>
    obtain ⟨o, n⟩ := t
    obtain ⟨here, later⟩ := List.forall_mem_cons.mp signs
    have operator : (if o = .minus then Sign.minus else .plus).operator = o := by
      rcases here with rfl | rfl <;> rfl
    rw [products, Formula.Products.rounds, ih later, operator, rounds, rounds, List.map_cons]
    simp only [Formula.Product.lexemes, Formula.Product.value, Formula.Factor.lexemes, Formula.Factor.value,
      Formula.Factors.lexemes, Formula.Factors.applied, List.append_nil]

variable {c : Series}

/-- The formula is written as the series. -/
theorem lexemes_formula (signs : ∀ t ∈ c.rest, t.1 = .plus ∨ t.1 = .minus) : c.formula.lexemes = c.lexemes := by
  rw [formula, Formula.lexemes, Formula.Products.lexemes_eq .leftToRight, rounds_products signs, lexemes_eq]
  simp only [Formula.Product.lexemes, Formula.Factor.lexemes, Formula.Factors.lexemes, List.append_nil]

/-- However it is grouped, the formula has the value of the series. -/
theorem value_formula (g : Grouping) (signs : ∀ t ∈ c.rest, t.1 = .plus ∨ t.1 = .minus) :
    c.formula.value g = Formula.Round.applied (rounds c.rest) (some c.first) := by
  rw [formula, Formula.value, Formula.Products.applied_eq, rounds_products signs]
  simp only [Formula.Product.leading, Formula.Factors.leading, Formula.Factor.value]

/-- With one number more, a tree tells this number as well, and what both come to. -/
theorem mem_told_binary {o : Operator} {left : Expr} {m : Nat} {value n : Int}
    (known : (Expr.binary o ⟨0, 0⟩ left (.literal (.whole m) ⟨0, 0⟩)).integer? = some value) :
    n ∈ (Expr.binary o ⟨0, 0⟩ left (.literal (.whole m) ⟨0, 0⟩)).told ↔ n ∈ left.told ∨ n = m ∨ n = value := by
  rw [Expr.told, known, Expr.told]
  simp only [List.mem_append, List.mem_singleton, Option.toList_some]
  tauto

/-- The tree of a series tells its numbers and what it comes to number by number. -/
theorem mem_told_onto {rest : List (Operator × Nat)} (signs : ∀ t ∈ rest, t.1 = .plus ∨ t.1 = .minus) {left : Expr}
    {before n : Int} (known : left.integer? = some before) (here : before ∈ left.told) :
    n ∈ ((products rest).onto left).told ↔
      n ∈ left.told ∨ (∃ t ∈ rest, n = t.2) ∨ n ∈ rest.scanl step before := by
  induction rest generalizing left before with
  | nil =>
    rw [products, Formula.Products.onto]
    simp only [List.not_mem_nil, false_and, exists_false, false_or, List.scanl_nil, List.mem_singleton]
    exact ⟨.inl, fun h => h.elim id fun same => same ▸ here⟩
  | cons t rest ih =>
    obtain ⟨o, m⟩ := t
    obtain ⟨sign, later⟩ := List.forall_mem_cons.mp signs
    have operator : (if o = .minus then Sign.minus else .plus).operator = o := by
      rcases sign with rfl | rfl <;> rfl
    have known' : (Expr.binary o ⟨0, 0⟩ left (.literal (.whole m) ⟨0, 0⟩)).integer? = some (step before (o, m)) := by
      rw [Expr.integer?, known]
      rcases sign with rfl | rfl <;> rfl
    have first : step before (o, m) ∈ rest.scanl step (step before (o, m)) := by
      cases rest <;> simp
    rw [products, Formula.Products.onto, Formula.Product.tree, Formula.Factors.onto, Formula.Factor.tree, operator,
      ih later known' ((mem_told_binary known').mpr (.inr (.inr rfl))), mem_told_binary known', List.scanl_cons]
    simp only [List.mem_cons, exists_eq_or_imp]
    constructor
    · rintro ((old | number | same) | later | later)
      · exact .inl old
      · exact .inr (.inl (.inl number))
      · exact .inr (.inr (.inr (same ▸ first)))
      · exact .inr (.inl (.inr later))
      · exact .inr (.inr (.inr later))
    · rintro (old | (number | later) | same | later)
      · exact .inl (.inl old)
      · exact .inl (.inr (.inl number))
      · exact .inr (.inl later)
      · exact .inl (.inl (same ▸ here))
      · exact .inr (.inr later)

/-- If its numbers can be written, the tree of a series can tell all if what it comes to can be written. -/
theorem fitAll_told_formula {limit : DigitLimit} (signs : ∀ t ∈ c.rest, t.1 = .plus ∨ t.1 = .minus)
    (first : (Value.whole c.first).fits limit = true)
    (numbers : ∀ t ∈ c.rest, (Value.whole t.2).fits limit = true) :
    fitAll limit c.formula.tree.told = fitAll limit c.partials := by
  have told (n : Int) := @mem_told_onto c.rest signs (.literal (.whole c.first) ⟨0, 0⟩) c.first n rfl
    List.mem_cons_self
  rw [formula, Formula.tree, Formula.Product.tree, Formula.Factors.onto, Formula.Factor.tree, Bool.eq_iff_iff, fitAll,
    fitAll, List.all_eq_true, List.all_eq_true]
  constructor
  · exact fun all n member => all n ((told n).mpr (.inr (.inr member)))
  · intro all n member
    rcases (told n).mp member with literal | ⟨t, among, rfl⟩ | partly
    · rw [List.mem_singleton.mp literal]
      exact first
    · exact numbers t among
    · exact all n partly

end Series

/-! ## Readers of series -/

/-- A reader with other marks reads a text to its end alike if it has those that stand in the text. -/
theorem Lexis.Reads.withMark {lx : Lexis} {mark : Char → Option Lexeme} {text : String} {ms : List Mark}
    (reads : lx.Reads text ms)
    (kept : ∀ m ∈ ms, ∀ x, lx.mark x = some m.lexeme → mark x = some m.lexeme) :
    { lx with mark }.Reads text ms := by
  obtain ⟨r, s, opened, passage, last⟩ := id reads
  obtain ⟨opened', agrees⟩ := (reads.agrees_withMark kept).openReading rfl opened
  exact ⟨r, s, opened', passage.of_agrees agrees, last⟩

namespace Edition

/-- The editions that calculate with more than two numbers. -/
def calculators : List Edition := [.chains, .flat, .products, .parentheses, .trees, .signs]

/-- The calculators differ in their marks only. -/
theorem lexis_of_calculator {e : Edition} (limit : DigitLimit) (known : e ∈ calculators) :
    e.lexis limit = { Edition.signs.lexis limit with mark := e.mark } := by
  revert e
  simp only [calculators, List.forall_mem_cons]
  exact ⟨rfl, rfl, rfl, rfl, rfl, rfl, List.forall_mem_nil _⟩

variable {e : Edition} {limit : DigitLimit} {text : String} {ms : List Mark} {c : Series}

/-- What a calculator reads the last of them reads as well. -/
theorem signs_read (known : e ∈ calculators) (reads : (e.lexis limit).Reads text ms) :
    (Edition.signs.lexis limit).Reads text ms := by
  have fewer : ∀ e ∈ calculators, markChars.all (fun x => e.mark x = none || Edition.signs.mark x = e.mark x) := by
    decide
  have same : Edition.signs.lexis limit = { e.lexis limit with mark := Edition.signs.mark } := by
    rw [lexis_of_calculator limit known]
    rfl
  rw [same]
  exact reads.withMark fun m _ x marked => mark_of_all (fewer e known) marked

/-- The last calculator and another one have the same mark for an operator. -/
def shares (e : Edition) (o : Operator) : Bool :=
  markChars.all fun x => Edition.signs.mark x ≠ some (.operator o) || e.mark x = Edition.signs.mark x

/-- A series is read by every calculator that has its operators. -/
theorem calculator_reads (known : e ∈ calculators) (reads : (Edition.signs.lexis limit).Reads text ms)
    (spelled : ms.map Mark.lexeme = c.lexemes) (shared : ∀ t ∈ c.rest, e.shares t.1 = true) :
    (e.lexis limit).Reads text ms := by
  rw [lexis_of_calculator limit known]
  refine reads.withMark fun m member x marked => ?_
  have lexeme : m.lexeme ∈ c.lexemes := spelled ▸ List.mem_map_of_mem member
  rcases Series.mem_lexemes lexeme with ⟨n, number⟩ | ⟨t, among, operator⟩
  · have other := @test_of_mark .signs (fun _ l? => l?.all fun l => l.kind ≠ .whole) (by decide) x _ marked
    rw [number] at other
    cases other
  · rw [operator] at marked ⊢
    have same := @test_of_mark .signs (fun x l? => l? ≠ some (.operator t.1) || e.mark x = l?) (shared t among) x _
      marked
    simpa using same

/-- No series has the word for division in it. -/
theorem operators_of_reads (reads : (Edition.signs.lexis limit).Reads text ms) (spelled : ms.map Mark.lexeme = c.lexemes) :
    ∀ t ∈ c.rest, t.1 ∈ Calculator.allOperators := by
  intro t among
  have lexeme := Series.operator_mem_lexemes among
  rw [← spelled] at lexeme
  obtain ⟨m, member, same⟩ := List.mem_map.mp lexeme
  have made := reads.forall_lexemes (lexeme_of_token rfl rfl) m member
  rw [same] at made
  rcases made with ⟨n, other⟩ | ⟨x, marked⟩
  · cases other
  · have known := @test_of_mark .signs
      (fun _ l? => l?.all fun l => l.kind ≠ .operator .div) (by decide) x _ marked
    revert known
    cases t.1 <;> decide

end Edition

/-! ## What the editions find -/

/-- An edition that reads its first token when it is asked for an expression finds what its rule comes to. -/
theorem Edition.finds_on_demand {e : Edition} {limit : DigitLimit} {rule : Parse Value} {text : String}
    {r s : Reading} {v : Option Int} (calculator : e.calculator? limit = some rule) (late : e.readsOnDemand = true)
    (opened : (e.lexis limit).openReading text = .ok r) (h : Parse.Comes Reckoner.values.Means rule r s v) :
    e.finds text limit = .ok (Calculation.result v) := by
  obtain ⟨nonempty, read⟩ := Lexis.openReading_eq_ok.mp opened
  have begun : (e.lexis limit).openText text = .ok (.start text.toList) := by
    rw [Lexis.openText, nonempty]
    rfl
  have pending : PendingReading.expression (e.lexis limit) rule ⟨none, .start text.toList⟩ =
      PendingReading.rule rule ⟨some r.token, r.cursor⟩ := by
    rw [PendingReading.expression]
    have scanned : PendingReading.scan (e.lexis limit).token ⟨none, .start text.toList⟩ =
        .ok r.token ⟨none, r.cursor⟩ := by
      simp only [PendingReading.scan, read]
    rw [Work.bind_of_ok scanned, Work.modify_bind]
  have evaluated : e.evaluate text limit =
      .ok (.ofPending (PendingReading.rule rule ⟨some r.token, r.cursor⟩)) := by
    rw [evaluate, calculator]
    dsimp only
    rw [late, begun, ← pending]
    rfl
  rw [finds, evaluated, PendingReading.rule]
  rcases h with ⟨_, done, n, rfl, rfl⟩ | ⟨rfl, t, failed⟩
  · dsimp only
    rw [done]
    rfl
  · dsimp only
    rw [failed]
    rfl

namespace Series

variable {lx : Lexis} {operators : List Operator} {c : Series} {r s : Reading} {text : String} {ms : List Mark}

/-- A loop over operators applies the numbers of a series one after the other. -/
theorem chain_comes (among : ∀ t ∈ c.rest, t.1 ∈ operators) (passage : Passage lx r ms s)
    (spelled : ms.map Mark.lexeme = c.lexemes) (last : ∀ o place, s.token ≠ .lexeme (.operator o) place) :
    Parse.Comes Reckoner.values.Means
      (Calculator.chain lx operators (Calculator.whole lx) (Calculator.whole lx)) r s
      (Formula.Round.applied (rounds c.rest) (some c.first)) := by
  rw [lexemes_eq] at spelled
  obtain ⟨us, vs, rfl, first, later⟩ := List.map_eq_append_iff.mp spelled
  obtain ⟨t, one, more⟩ := Passage.append_iff.mp passage
  refine @Reckoner.chain_comes _ Reckoner.values lx (fun _ => True) operators (Calculator.whole lx) r s t _
    (fun _ _ => trivial) (fun _ => True) _ (rounds c.rest) ?_ ?_ (fun _ _ _ => trivial) (Reckoner.whole_comes one first)
    vs more later trivial trivial (Parse.operatorAmong_eq_none last _)
  · intro round member
    obtain ⟨u, inside, rfl⟩ := List.mem_map.mp member
    exact among u inside
  · intro round member r s ms passage spelled _ _
    obtain ⟨u, inside, rfl⟩ := List.mem_map.mp member
    exact Reckoner.whole_comes passage spelled

end Series

namespace Edition

variable {e : Edition} {limit : DigitLimit} {text : String} {ms : List Mark} {c : Series}

/-- The calculator without precedence applies the numbers of a series one after the other. -/
theorem finds_flat (reads : (Edition.flat.lexis limit).Reads text ms) (spelled : ms.map Mark.lexeme = c.lexemes)
    (operators : ∀ t ∈ c.rest, t.1 ∈ Calculator.allOperators) :
    Edition.flat.finds text limit =
      .ok (Calculation.result (Formula.Round.applied (Series.rounds c.rest) (some c.first))) := by
  obtain ⟨r, s, opened, passage, last⟩ := reads
  exact finds_of_comes rfl rfl opened (Series.chain_comes operators passage spelled (Reading.no_operator last))

/-- A whole number that was read can be written. -/
theorem whole_fits_of_reads (reads : (e.lexis limit).Reads text ms) {n : Nat}
    (member : .literal (.whole n) ∈ ms.map Mark.lexeme) : (Value.whole n).fits limit = true := by
  obtain ⟨m, among, number⟩ := List.mem_map.mp member
  rw [Value.fits, Int.natAbs_natCast, Nat.repr_eq_ofList_toDigits, String.length_ofList]
  exact fits_of_reads reads among number

/-- So does the first edition with trees with the numbers of a sum, if it can write down what they come to. -/
theorem trees_find_sum (reads : (Edition.trees.lexis limit).Reads text ms)
    (spelled : ms.map Mark.lexeme = c.lexemes) (signs : ∀ t ∈ c.rest, t.1 = .plus ∨ t.1 = .minus) :
    Edition.trees.finds text limit =
      .ok (if fitAll limit c.partials = true then .ok (.whole c.folded)
        else .error (.malformedWhole (.untold limit.most))) := by
  obtain ⟨tree, form, plain, same⟩ := c.formula.shapes (spelled.trans (Series.lexemes_formula signs).symm)
  have value : tree.integer? = some c.folded := by
    rw [← Expr.integer?_unplaced, same, Formula.integer?_tree, Series.value_formula _ signs,
      Series.applied_signs signs]
  have number {n : Nat} (member : .literal (.whole n) ∈ c.lexemes) : (Value.whole n).fits limit = true :=
    whole_fits_of_reads reads (spelled ▸ member)
  have told : fitAll limit tree.told = fitAll limit c.partials := by
    rw [← Expr.told_unplaced, same]
    refine Series.fitAll_told_formula signs (number List.mem_cons_self) fun t among => number ?_
    exact List.mem_cons_of_mem _ (List.mem_flatMap.mpr ⟨t, among, by simp⟩)
  obtain ⟨evaluation, begun, fitting, unfit⟩ := trees_evaluate reads form plain
  rw [finds, begun]
  show Except.ok evaluation.result = _
  rw [value, told] at fitting
  rw [value, told] at unfit
  cases fit : fitAll limit c.partials with
  | true =>
    rw [(fitting fit).1]
    rfl
  | false =>
    rcases unfit fit with stopped | ⟨none, _⟩
    · rw [stopped]
      rfl
    · cases none

/-- All other calculators find what the numbers of a sum come to. -/
theorem finds_sum (known : e ∈ calculators) (other : e ≠ .trees) (reads : (e.lexis limit).Reads text ms)
    (spelled : ms.map Mark.lexeme = c.lexemes) (signs : ∀ t ∈ c.rest, t.1 = .plus ∨ t.1 = .minus) :
    e.finds text limit = .ok (.ok (.whole c.folded)) := by
  have spelled' : ms.map Mark.lexeme = c.formula.lexemes := spelled.trans (Series.lexemes_formula signs).symm
  have value := Series.applied_signs signs
  have folded : Calculation.result (Formula.Round.applied (Series.rounds c.rest) (some c.first)) =
      .ok (.whole c.folded) := by
    rw [value]
    rfl
  rw [← folded]
  simp only [calculators, List.mem_cons, List.not_mem_nil, or_false] at known
  rcases known with rfl | rfl | rfl | rfl | rfl | rfl
  · -- one loop over both signs
    obtain ⟨r, s, opened, passage, last⟩ := reads
    refine finds_on_demand rfl rfl opened (Series.chain_comes ?_ passage spelled (Reading.no_operator last))
    intro t among
    rcases signs t among with same | same <;> simp [same]
  · refine finds_flat reads spelled fun t among => ?_
    rcases signs t among with same | same <;> simp [same, Calculator.allOperators]
  · rw [finds_apart (.inl rfl) reads spelled', Series.value_formula _ signs]
  · rw [finds_apart (.inr rfl) reads spelled', Series.value_formula _ signs]
  · exact absurd rfl other
  · rw [signs_find reads spelled', Series.value_formula _ signs]

end Edition

/-- What the calculators find for a text that is a series for one of them. If all its operators are signs, it is a
series for all of them and they all find what it folds to. Only the first edition with trees, which writes down what
it finds on the way, fails where the series comes to more digits than the limit allows. The calculator without
precedence finds this for any series, but fails if a number behind a slash is zero. -/
theorem series_folded (limit : DigitLimit) {e : Edition} (known : e ∈ Edition.calculators) {text : String}
    {ms : List Mark} {c : Series} (reads : (e.lexis limit).Reads text ms)
    (spelled : ms.map Mark.lexeme = c.lexemes) :
    ((∀ t ∈ c.rest, t.1 = .plus ∨ t.1 = .minus) →
      ∀ e' ∈ Edition.calculators, e'.finds text limit =
        .ok (if e' = .trees ∧ fitAll limit c.partials = false then .error (.malformedWhole (.untold limit.most))
          else .ok (.whole c.folded))) ∧
    Edition.flat.finds text limit =
      .ok (if (.slash, 0) ∈ c.rest then .error (.arithmetic .wholeByZero) else .ok (.whole c.folded)) := by
  have last := Edition.signs_read known reads
  have operators := Edition.operators_of_reads last spelled
  constructor
  · intro signs e' known'
    have shared : ∀ e ∈ Edition.calculators, ∀ o ∈ [Operator.plus, .minus], e.shares o = true := by decide
    have reads' := Edition.calculator_reads known' last spelled fun t among =>
      shared e' known' t.1 (by rcases signs t among with same | same <;> simp [same])
    by_cases tree : e' = .trees
    · subst tree
      rw [Edition.trees_find_sum reads' spelled signs]
      cases fitAll limit c.partials <;> rfl
    · rw [if_neg fun both => tree both.1]
      exact Edition.finds_sum known' tree reads' spelled signs
  · have shared : ∀ o ∈ Calculator.allOperators, Edition.flat.shares o = true := by decide
    have reads' := Edition.calculator_reads (e := .flat) (by decide) last spelled fun t among =>
      shared t.1 (operators t among)
    have wordless : ∀ t ∈ c.rest, t.1 ≠ .div := by
      intro t among same
      have member := operators t among
      rw [same] at member
      revert member
      decide
    rw [Edition.finds_flat reads' spelled operators, Series.applied_rounds wordless c.first]
    by_cases zero : (.slash, 0) ∈ c.rest
    · rw [if_pos zero, if_pos zero]
      rfl
    · rw [if_neg zero, if_neg zero]
      rfl

/-- The same numbers with two differences, and with a quotient that the calculator without precedence takes last. With
one digit the sum of nine and one cannot be written down, and taking two away again comes too late. -/
theorem series_folded_quotient_last :
    (∃ ms, Edition.chains.lexis.Reads "1 - 8 - 2" ms ∧
      ms.map Mark.lexeme = (Series.mk 1 [(.minus, 8), (.minus, 2)]).lexemes ∧
      ∀ e ∈ Edition.calculators, e.finds "1 - 8 - 2" = .ok (.ok (.whole (-9)))) ∧
    (∃ ms, Edition.signs.lexis.Reads "1 - 8 / 2" ms ∧
      ms.map Mark.lexeme = (Series.mk 1 [(.minus, 8), (.slash, 2)]).lexemes ∧
      Edition.flat.finds "1 - 8 / 2" = .ok (.ok (.whole (-4)))) ∧
    (Edition.trees.finds "9 + 1 - 2" ⟨1⟩ = .ok (.error (.malformedWhole (.untold 1))) ∧
      ∀ e ∈ Edition.calculators, e ≠ .trees → e.finds "9 + 1 - 2" ⟨1⟩ = .ok (.ok (.whole 8))) := by
  let marks (x : Nat) (o : Operator) (y : Nat) (o' : Operator) (z : Nat) : List Mark :=
    [⟨.literal (.whole x), ⟨1, 1⟩, ' '⟩, ⟨.operator o, ⟨1, 3⟩, ' '⟩, ⟨.literal (.whole y), ⟨1, 5⟩, ' '⟩,
     ⟨.operator o', ⟨1, 7⟩, ' '⟩, ⟨.literal (.whole z), ⟨1, 9⟩, none⟩]
  have sum : Edition.chains.lexis.Reads "1 - 8 - 2" (marks 1 .minus 8 .minus 2) := by decide
  have quotient : Edition.signs.lexis.Reads "1 - 8 / 2" (marks 1 .minus 8 .slash 2) := by decide
  have long : (Edition.signs.lexis ⟨1⟩).Reads "9 + 1 - 2" (marks 9 .plus 1 .minus 2) := by decide
  have all := (@series_folded .off .chains (by decide) _ _ ⟨1, [(.minus, 8), (.minus, 2)]⟩ sum rfl).1 (by decide)
  have flat := (@series_folded .off .signs (by decide) _ _ ⟨1, [(.minus, 8), (.slash, 2)]⟩ quotient rfl).2
  have most := (@series_folded ⟨1⟩ .signs (by decide) _ _ ⟨9, [(.plus, 1), (.minus, 2)]⟩ long rfl).1 (by decide)
  refine ⟨⟨_, sum, rfl, fun e known => ?_⟩, ⟨_, quotient, rfl, flat⟩, most .trees (by decide), fun e known other => ?_⟩
  · rw [all e known, fitAll_off, if_neg fun both => Bool.noConfusion both.2]
    rfl
  · rw [most e known, if_neg fun both => other both.1]
    rfl

end LittlePascal
