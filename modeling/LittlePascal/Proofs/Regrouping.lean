import LittlePascal.Proofs.Copies
import LittlePascal.Proofs.Integers

/-! # Parentheses that calculators put

The calculators that evaluate while they read take the first factor of a formula apart. To them a formula is one with
more parentheses: what follows the first factor of its first product stands in a pair of its own, and so it is in
all parentheses that were there before. The tree of that formula, which leans to the left as all trees do, comes
to what the calculators find.

Main definitions:
* `Formula.regrouped`: the formula with these parentheses;
* `Formula.tree`: the tree of a formula, without places;
* `Formula.Shapes`: marks derive a tree without signs, up to places.

Main statements:
* `Formula.value_regrouped`: with parentheses put, grouping from left to right takes the first factors apart;
* `Formula.integer?_tree`: the tree of a formula comes to its value from left to right;
* `Formula.shapes`: the marks of a formula derive its tree;
* `first_factors_apart`: what the calculators find for a formula. -/

namespace LittlePascal

namespace Formula

/-! ## Putting parentheses -/

mutual

/-- The formula with parentheses around what follows its first factor in the first product, and likewise in all its
parentheses. -/
def regrouped : Formula → Formula
  | .sum (.mk first factors) products => .sum (.mk first.regrouped factors.gathered) products.regrouped

/-- The same in products that are not the first one: only what stands in parentheses changes. -/
def Products.regrouped : Products → Products
  | .nil => .nil
  | .cons sign (.mk first factors) rest => .cons sign (.mk first.regrouped factors.regrouped) rest.regrouped

/-- Factors behind the first one, in a pair of parentheses behind their first operator. -/
def Factors.gathered : Factors → Factors
  | .nil => .nil
  | .cons o factor rest => .cons o (.parens (.sum (.mk factor.regrouped rest.regrouped) .nil)) .nil

/-- Factors that stay where they are. -/
def Factors.regrouped : Factors → Factors
  | .nil => .nil
  | .cons o factor rest => .cons o factor.regrouped rest.regrouped

/-- A factor by itself. -/
def Factor.regrouped : Factor → Factor
  | .number n => .number n
  | .parens inner => .parens inner.regrouped

end

mutual

/-- With these parentheses grouping from left to right takes the first factors apart. -/
theorem value_regrouped : ∀ x : Formula, x.regrouped.value .leftToRight = x.value .firstApart
  | .sum (.mk first factors) products => by
    rw [regrouped, value, Product.leading_leftToRight, Product.value, Factors.applied_gathered,
      Factor.value_regrouped, Products.applied_regrouped, value, Product.leading]

/-- Products that are not the first one. -/
theorem Products.applied_regrouped : ∀ (ps : Products) (v : Option Int),
    ps.regrouped.applied .leftToRight v = ps.applied .firstApart v
  | .nil, v => by rw [Products.regrouped, Products.applied, Products.applied]
  | .cons sign (.mk first factors) rest, v => by
    rw [Products.regrouped, Products.applied, Product.value, Factors.applied_regrouped, Factor.value_regrouped,
      Products.applied_regrouped, Products.applied, Product.value]

/-- Factors in parentheses of their own come to a value that is applied at once. -/
theorem Factors.applied_gathered : ∀ (fs : Factors) (v : Option Int),
    fs.gathered.applied .leftToRight v = fs.leading .firstApart v
  | .nil, v => by rw [Factors.gathered, Factors.applied, Factors.leading]
  | .cons o factor rest, v => by
    rw [Factors.gathered, Factors.applied, Factors.applied, Factor.value, value, Products.applied,
      Product.leading_leftToRight, Product.value, Factors.applied_regrouped, Factor.value_regrouped,
      Factors.leading]

/-- Factors that stay where they are. -/
theorem Factors.applied_regrouped : ∀ (fs : Factors) (v : Option Int),
    fs.regrouped.applied .leftToRight v = fs.applied .firstApart v
  | .nil, v => by rw [Factors.regrouped, Factors.applied, Factors.applied]
  | .cons o factor rest, v => by
    rw [Factors.regrouped, Factors.applied, Factor.value_regrouped, Factors.applied_regrouped, Factors.applied]

/-- A factor by itself is regrouped inside only. -/
theorem Factor.value_regrouped : ∀ f : Factor, f.regrouped.value .leftToRight = f.value .firstApart
  | .number n => by rw [Factor.regrouped, Factor.value, Factor.value]
  | .parens inner => by rw [Factor.regrouped, Factor.value, value_regrouped, Factor.value]

end

/-! ## Trees of formulas -/

mutual

/-- The tree of a formula. It leans to the left, and all its places are the same. -/
def tree : Formula → Expr
  | .sum first rest => rest.onto first.tree

/-- Products added to a tree, one after the other. -/
def Products.onto : Products → Expr → Expr
  | .nil, left => left
  | .cons sign product rest, left => rest.onto (.binary sign.operator ⟨0, 0⟩ left product.tree)

/-- The tree of a product. -/
def Product.tree : Product → Expr
  | .mk first rest => rest.onto first.tree

/-- Factors multiplied to a tree, one after the other. -/
def Factors.onto : Factors → Expr → Expr
  | .nil, left => left
  | .cons o factor rest, left => rest.onto (.binary o.operator ⟨0, 0⟩ left factor.tree)

/-- The tree of a factor. -/
def Factor.tree : Factor → Expr
  | .number n => .literal (.whole n) ⟨0, 0⟩
  | .parens inner => inner.tree

end

mutual

/-- The tree of a formula comes to its value from left to right. -/
theorem integer?_tree : ∀ x : Formula, x.tree.integer? = x.value .leftToRight
  | .sum first rest => by
    rw [tree, Products.integer?_onto, Product.integer?_tree, value, Product.leading_leftToRight]

/-- Products are applied to what they are added to. -/
theorem Products.integer?_onto : ∀ (ps : Products) (left : Expr),
    (ps.onto left).integer? = ps.applied .leftToRight left.integer?
  | .nil, left => by rw [Products.onto, Products.applied]
  | .cons sign product rest, left => by
    rw [Products.onto, Products.integer?_onto, Expr.integer?, Product.integer?_tree, Products.applied]

/-- The tree of a product comes to its value. -/
theorem Product.integer?_tree : ∀ p : Product, p.tree.integer? = p.value .leftToRight
  | .mk first rest => by rw [Product.tree, Factors.integer?_onto, Factor.integer?_tree, Product.value]

/-- Factors are applied to what they are multiplied to. -/
theorem Factors.integer?_onto : ∀ (fs : Factors) (left : Expr),
    (fs.onto left).integer? = fs.applied .leftToRight left.integer?
  | .nil, left => by rw [Factors.onto, Factors.applied]
  | .cons o factor rest, left => by
    rw [Factors.onto, Factors.integer?_onto, Expr.integer?, Factor.integer?_tree, Factors.applied]

/-- The tree of a factor comes to its value. -/
theorem Factor.integer?_tree : ∀ f : Factor, f.tree.integer? = f.value .leftToRight
  | .number n => by rw [Factor.tree, Expr.integer?, Factor.value]
  | .parens inner => by rw [Factor.tree, Formula.integer?_tree, Factor.value]

end

/-! ## Derivations -/

/-- The marks derive a tree without signs that is this one up to its places. -/
def Shapes (level : Level) (ms : List Mark) (tree : Expr) : Prop :=
  ∃ e, DerivesExpr level ms e ∧ e.isPlain = true ∧ e.unplaced = tree

variable {ms ns : List Mark} {m m' : Mark} {left right tree : Expr} {n : Nat}

/-- The mark of a number derives its literal. -/
theorem Shapes.number (mark : m.lexeme = .literal (.whole n)) :
    Shapes .factor [m] (.literal (.whole n) ⟨0, 0⟩) := ⟨_, .literal mark, rfl, rfl⟩

/-- Parentheses leave the tree of an expression as it is. -/
theorem Shapes.parens (opening : m.lexeme = .punctuation .leftParen) (h : Shapes .sum ms tree)
    (closing : m'.lexeme = .punctuation .rightParen) : Shapes .factor (m :: (ms ++ [m'])) tree := by
  obtain ⟨e, form, plain, same⟩ := h
  exact ⟨e, .parens opening form closing, plain, same⟩

/-- A factor is a product. -/
theorem Shapes.factor (h : Shapes .factor ms tree) : Shapes .product ms tree := by
  obtain ⟨e, form, plain, same⟩ := h
  exact ⟨e, .factor form, plain, same⟩

/-- A product is a sum. -/
theorem Shapes.product (h : Shapes .product ms tree) : Shapes .sum ms tree := by
  obtain ⟨e, form, plain, same⟩ := h
  exact ⟨e, .product form, plain, same⟩

/-- A product and a factor behind it. -/
theorem Shapes.multiplied {o : Scaling} (h : Shapes .product ms left) (mark : m.lexeme = .operator o.operator)
    (h' : Shapes .factor ns right) :
    Shapes .product (ms ++ m :: ns) (.binary o.operator ⟨0, 0⟩ left right) := by
  obtain ⟨e, form, plain, rfl⟩ := h
  obtain ⟨f, form', plain', rfl⟩ := h'
  refine ⟨_, .multiplied form mark (by cases o <;> decide) form', ?_, rfl⟩
  rw [Expr.isPlain, plain, plain', Bool.and_self]

/-- A sum and a product behind it. -/
theorem Shapes.added {sign : Sign} (h : Shapes .sum ms left) (mark : m.lexeme = .operator sign.operator)
    (h' : Shapes .product ns right) :
    Shapes .sum (ms ++ m :: ns) (.binary sign.operator ⟨0, 0⟩ left right) := by
  obtain ⟨e, form, plain, rfl⟩ := h
  obtain ⟨f, form', plain', rfl⟩ := h'
  refine ⟨_, .added form mark (by cases sign <;> decide) form', ?_, rfl⟩
  rw [Expr.isPlain, plain, plain', Bool.and_self]

mutual

/-- The marks of a formula derive its tree. -/
theorem shapes : ∀ (x : Formula) {ms : List Mark}, ms.map Mark.lexeme = x.lexemes → Shapes .sum ms x.tree
  | .sum first rest, ms, spelled => by
    rw [lexemes] at spelled
    obtain ⟨us, vs, rfl, one, more⟩ := List.map_eq_append_iff.mp spelled
    rw [Formula.tree]
    exact rest.shapes_onto (first.shapes one).product more

/-- The marks of a sum, and those of products behind it. -/
theorem Products.shapes_onto : ∀ (ps : Products) {ms ns : List Mark} {left : Expr}, Shapes .sum ns left →
    ms.map Mark.lexeme = ps.lexemes → Shapes .sum (ns ++ ms) (ps.onto left)
  | .nil, ms, ns, left, before, spelled => by
    rw [Products.lexemes] at spelled
    obtain rfl := List.map_eq_nil_iff.mp spelled
    rwa [Products.onto, List.append_nil]
  | .cons sign product rest, ms, ns, left, before, spelled => by
    rw [Products.lexemes] at spelled
    obtain ⟨m, _, rfl, mark, spelled⟩ := List.map_eq_cons_iff.mp spelled
    obtain ⟨us, vs, rfl, one, more⟩ := List.map_eq_append_iff.mp spelled
    have joined := rest.shapes_onto (before.added mark (product.shapes one)) more
    rwa [List.append_assoc, List.cons_append, ← Products.onto] at joined

/-- The marks of a product. -/
theorem Product.shapes : ∀ (p : Product) {ms : List Mark}, ms.map Mark.lexeme = p.lexemes →
    Shapes .product ms p.tree
  | .mk first rest, ms, spelled => by
    rw [Product.lexemes] at spelled
    obtain ⟨us, vs, rfl, one, more⟩ := List.map_eq_append_iff.mp spelled
    rw [Product.tree]
    exact rest.shapes_onto (first.shapes one).factor more

/-- The marks of a product, and those of factors behind it. -/
theorem Factors.shapes_onto : ∀ (fs : Factors) {ms ns : List Mark} {left : Expr}, Shapes .product ns left →
    ms.map Mark.lexeme = fs.lexemes → Shapes .product (ns ++ ms) (fs.onto left)
  | .nil, ms, ns, left, before, spelled => by
    rw [Factors.lexemes] at spelled
    obtain rfl := List.map_eq_nil_iff.mp spelled
    rwa [Factors.onto, List.append_nil]
  | .cons o factor rest, ms, ns, left, before, spelled => by
    rw [Factors.lexemes] at spelled
    obtain ⟨m, _, rfl, mark, spelled⟩ := List.map_eq_cons_iff.mp spelled
    obtain ⟨us, vs, rfl, one, more⟩ := List.map_eq_append_iff.mp spelled
    have joined := rest.shapes_onto (before.multiplied mark (factor.shapes one)) more
    rwa [List.append_assoc, List.cons_append, ← Factors.onto] at joined

/-- The marks of a factor. -/
theorem Factor.shapes : ∀ (f : Factor) {ms : List Mark}, ms.map Mark.lexeme = f.lexemes →
    Shapes .factor ms f.tree
  | .number n, ms, spelled => by
    obtain ⟨m, rfl, mark⟩ := Reckoner.mark_of_number spelled
    rw [Factor.tree]
    exact .number mark
  | .parens inner, ms, spelled => by
    obtain ⟨m, ns, m', rfl, opening, within, closing⟩ := Reckoner.marks_of_parens spelled
    rw [Factor.tree]
    exact (inner.shapes within).parens opening closing

end

end Formula

/-! ## What the editions find -/

namespace Edition

variable {limit : DigitLimit} {text : String} {ms : List Mark} {x : Formula}

/-- The edition with products reads no parentheses. -/
theorem no_parens_of_reads (reads : (Edition.products.lexis limit).Reads text ms) :
    ∀ m ∈ ms, ∀ p, m.lexeme ≠ .punctuation p := by
  refine reads.forall_lexemes (P := fun l => ∀ p, l ≠ .punctuation p) fun read p => ?_
  rcases lexeme_of_token rfl rfl read with ⟨n, rfl⟩ | ⟨x, marked⟩
  · exact Lexeme.noConfusion
  · rintro rfl
    have operator := @test_of_mark .products
      (fun _ l? => l?.all fun l => Calculator.allOperators.any fun o => l = .operator o) (by decide) x _ marked
    simp at operator

/-- The calculators with products take the first factors of a formula apart. -/
theorem finds_apart {e : Edition} (among : e = .products ∨ e = .parentheses)
    (reads : (e.lexis limit).Reads text ms) (spelled : ms.map Mark.lexeme = x.lexemes) :
    e.finds text limit = .ok (Calculation.result (x.value .firstApart)) := by
  obtain ⟨r, s, opened, passage, last⟩ := id reads
  have ends := Reading.no_operator last
  rcases among with rfl | rfl
  · refine finds_of_comes rfl rfl opened (Reckoner.mixed_comes ?_ Reckoner.whole_reads passage spelled
      (no_parens_of_reads reads) ends)
    exact fun sub bare m member => bare m (sub.subset member)
  · exact finds_of_comes rfl rfl opened
      (Reckoner.mixed_comes (fun _ _ => trivial) Reckoner.calculator_factor_reads passage spelled trivial ends)

/-- The first edition with trees groups a formula from left to right. -/
theorem trees_find (reads : Edition.trees.lexis.Reads text ms) (spelled : ms.map Mark.lexeme = x.lexemes) :
    Edition.trees.finds text = .ok (Calculation.result (x.value .leftToRight)) := by
  obtain ⟨r, s, opened, passage, last⟩ := reads
  exact finds_of_tree opened (Reckoner.expr_comes passage spelled (Reading.no_operator last))

/-- So does the edition with signs. -/
theorem signs_find (reads : (Edition.signs.lexis limit).Reads text ms)
    (spelled : ms.map Mark.lexeme = x.lexemes) :
    Edition.signs.finds text limit = .ok (Calculation.result (x.value .leftToRight)) := by
  obtain ⟨tree, form, _, same⟩ := x.shapes spelled
  have whole := whole_of_reads reads
  obtain ⟨numeric, filled⟩ := form.numeric whole
  have value : tree.integer? = x.value .leftToRight := by
    rw [← Expr.integer?_unplaced, same, Formula.integer?_tree]
  rw [finds_of_derives reads form fun m member => (whole m member).1, ← value]
  exact congrArg _ (Expr.eval_eq_result rfl .empty numeric filled)

/-- The tree of the former for a formula is the one of the formula, up to places. -/
theorem trees_accept (reads : Edition.trees.lexis.Reads text ms) (spelled : ms.map Mark.lexeme = x.lexemes) :
    ∃ tree reading, Edition.trees.Accepts text (.expr tree) reading ∧ tree.unplaced = x.tree := by
  obtain ⟨tree, form, plain, same⟩ := x.shapes spelled
  obtain ⟨reading, accepts⟩ := exists_accepts_of_plain reads form plain
  exact ⟨tree, reading, accepts, same⟩

end Edition

/-- What the calculators with products find for a text that is a formula, the first of them without parentheses. It
is the value of the tree that leans to the left everywhere, but with what follows the first factor of the first
product set in parentheses, in the formula and in all parentheses it has. That tree is the one that the first
edition with trees reads for any text which is the formula with those parentheses, and what it finds for the text
is the same. -/
theorem first_factors_apart {e : Edition} (among : e = .products ∨ e = .parentheses) {text : String}
    {ms : List Mark} {x : Formula} (reads : e.lexis.Reads text ms) (spelled : ms.map Mark.lexeme = x.lexemes) :
    e.finds text = .ok (Calculation.result x.regrouped.tree.integer?) ∧
    ∀ text' ns, Edition.trees.lexis.Reads text' ns → ns.map Mark.lexeme = x.regrouped.lexemes →
      (∃ tree reading, Edition.trees.Accepts text' (.expr tree) reading ∧ tree.unplaced = x.regrouped.tree) ∧
      Edition.trees.finds text' = e.finds text := by
  have found := Edition.finds_apart among reads spelled
  rw [← x.value_regrouped] at found
  refine ⟨found.trans ?_, fun text' ns reads' spelled' => ⟨Edition.trees_accept reads' spelled', ?_⟩⟩
  · rw [Formula.integer?_tree]
  · rw [Edition.trees_find reads' spelled', found]

/-- A quotient of three factors in parentheses, behind a first factor: both first factors are taken apart. -/
theorem first_factors_apart_within_parens :
    let text := "2 * (9 / 3 * 3)"
    let text' := "2 * ((9 / (3 * 3)))"
    let quotient : Formula.Product :=
      .mk (.number 9) (.cons .slash (.number 3) (.cons .times (.number 3) .nil))
    let x : Formula := .sum (.mk (.number 2) (.cons .times (.parens (.sum quotient .nil)) .nil)) .nil
    ∃ ms ns, Edition.parentheses.lexis.Reads text ms ∧ ms.map Mark.lexeme = x.lexemes ∧
      Edition.trees.lexis.Reads text' ns ∧ ns.map Mark.lexeme = x.regrouped.lexemes ∧
      Edition.parentheses.finds text = .ok (.ok (.whole 2)) ∧
      Edition.trees.finds text' = .ok (.ok (.whole 2)) := by
  intro text text' quotient x
  let marks : List Mark :=
    [⟨.literal (.whole 2), ⟨1, 1⟩, ' '⟩, ⟨.operator .times, ⟨1, 3⟩, ' '⟩,
     ⟨.punctuation .leftParen, ⟨1, 5⟩, '9'⟩, ⟨.literal (.whole 9), ⟨1, 6⟩, ' '⟩, ⟨.operator .slash, ⟨1, 8⟩, ' '⟩,
     ⟨.literal (.whole 3), ⟨1, 10⟩, ' '⟩, ⟨.operator .times, ⟨1, 12⟩, ' '⟩, ⟨.literal (.whole 3), ⟨1, 14⟩, ')'⟩,
     ⟨.punctuation .rightParen, ⟨1, 15⟩, none⟩]
  let marks' : List Mark :=
    [⟨.literal (.whole 2), ⟨1, 1⟩, ' '⟩, ⟨.operator .times, ⟨1, 3⟩, ' '⟩, ⟨.punctuation .leftParen, ⟨1, 5⟩, '('⟩,
     ⟨.punctuation .leftParen, ⟨1, 6⟩, '9'⟩, ⟨.literal (.whole 9), ⟨1, 7⟩, ' '⟩, ⟨.operator .slash, ⟨1, 9⟩, ' '⟩,
     ⟨.punctuation .leftParen, ⟨1, 11⟩, '3'⟩, ⟨.literal (.whole 3), ⟨1, 12⟩, ' '⟩,
     ⟨.operator .times, ⟨1, 14⟩, ' '⟩, ⟨.literal (.whole 3), ⟨1, 16⟩, ')'⟩,
     ⟨.punctuation .rightParen, ⟨1, 17⟩, ')'⟩, ⟨.punctuation .rightParen, ⟨1, 18⟩, ')'⟩,
     ⟨.punctuation .rightParen, ⟨1, 19⟩, none⟩]
  have reads : Edition.parentheses.lexis.Reads text marks := by decide
  have reads' : Edition.trees.lexis.Reads text' marks' := by decide
  have spelled : marks.map Mark.lexeme = x.lexemes := rfl
  have spelled' : marks'.map Mark.lexeme = x.regrouped.lexemes := rfl
  obtain ⟨found, alike⟩ := first_factors_apart (.inr rfl) reads spelled
  exact ⟨marks, marks', reads, spelled, reads', spelled', found, (alike text' marks' reads' spelled').2.trans found⟩

end LittlePascal
