import LittlePascal.Proofs.Calculation

/-! # Formulas and their values

A formula is a sum of products of numbers and of formulas in parentheses, as it is written. It has a value
for each way of grouping its operators: from left to right with products first, or with the first factor
apart, which is combined with the value of the rest of its product.

Main definitions:
* `Formula`, `Formula.lexemes`, `Formula.value`: formulas, how they are written, and their values;
* `Formula.Round`: an operand behind an operator, whether it is a factor or a product;
* `Formula.steady`: no first product has a quotient in it and more than two factors.

Main statement: `Formula.value_eq_of_steady`, the two ways of grouping agree on steady formulas. -/

namespace LittlePascal

/-! ## Formulas -/

/-- The operators between factors. -/
inductive Scaling where
  | times
  | slash
  deriving DecidableEq, Repr

/-- The operator of programs. -/
def Scaling.operator : Scaling → Operator
  | .times => .times
  | .slash => .slash

mutual

/-- A product, and others behind signs. -/
inductive Formula where
  | sum (first : Formula.Product) (rest : Formula.Products)

/-- Products behind signs. -/
inductive Formula.Products where
  | nil
  | cons (sign : Sign) (product : Formula.Product) (rest : Formula.Products)

/-- A factor, and others behind operators. -/
inductive Formula.Product where
  | mk (first : Formula.Factor) (rest : Formula.Factors)

/-- Factors behind operators. -/
inductive Formula.Factors where
  | nil
  | cons (o : Scaling) (factor : Formula.Factor) (rest : Formula.Factors)

/-- A number, or a formula in parentheses. -/
inductive Formula.Factor where
  | number (n : Nat)
  | parens (inner : Formula)

end

/-- Factors are built up from the last one on. -/
@[induction_eliminator]
theorem Formula.Factors.induction {P : Formula.Factors → Prop} (nil : P .nil)
    (cons : ∀ o factor rest, P rest → P (.cons o factor rest)) : ∀ fs, P fs
  | .nil => nil
  | .cons o factor rest => cons o factor rest (induction nil cons rest)

/-- Products are built up from the last one on. -/
@[induction_eliminator]
theorem Formula.Products.induction {P : Formula.Products → Prop} (nil : P .nil)
    (cons : ∀ sign product rest, P rest → P (.cons sign product rest)) : ∀ ps, P ps
  | .nil => nil
  | .cons sign product rest => cons sign product rest (induction nil cons rest)

mutual

/-- A formula as it is written. -/
def Formula.lexemes : Formula → List Lexeme
  | .sum first rest => first.lexemes ++ rest.lexemes

/-- Products with the signs before them. -/
def Formula.Products.lexemes : Formula.Products → List Lexeme
  | .nil => []
  | .cons sign product rest => .operator sign.operator :: (product.lexemes ++ rest.lexemes)

/-- A product as it is written. -/
def Formula.Product.lexemes : Formula.Product → List Lexeme
  | .mk first rest => first.lexemes ++ rest.lexemes

/-- Factors with the operators before them. -/
def Formula.Factors.lexemes : Formula.Factors → List Lexeme
  | .nil => []
  | .cons o factor rest => .operator o.operator :: (factor.lexemes ++ rest.lexemes)

/-- A factor as it is written. -/
def Formula.Factor.lexemes : Formula.Factor → List Lexeme
  | .number n => [.literal (.whole n)]
  | .parens inner => .punctuation .leftParen :: (inner.lexemes ++ [.punctuation .rightParen])

end

/-! ## Values -/

/-- The ways to group the operators of a formula. -/
inductive Grouping where
  /-- From left to right, products before sums. -/
  | leftToRight
  /-- The same, but the first factor is combined with the value of the rest of its product. -/
  | firstApart
  deriving DecidableEq, Repr

/-- An operator on whole numbers; both divisions round down. -/
def Operator.whole : Operator → WholeOperator
  | .plus => .plus
  | .minus => .minus
  | .times => .times
  | .div | .slash => .div

/-- An operator on two values, if there are any. -/
def Operator.reckon (o : Operator) (x y : Option Int) : Option Int := do o.whole.apply (← x) (← y)

@[simp] theorem Operator.reckon_some (o : Operator) (m n : Int) :
    o.reckon (some m) (some n) = o.whole.apply m n := rfl

@[simp] theorem Operator.reckon_none_left (o : Operator) (y : Option Int) : o.reckon none y = none := rfl

@[simp] theorem Operator.reckon_none_right (o : Operator) (x : Option Int) : o.reckon x none = none := by
  cases x <;> rfl

mutual

/-- The value of a formula. -/
def Formula.value (g : Grouping) : Formula → Option Int
  | .sum first rest => rest.applied g (first.leading g)

/-- Products applied to what stands before them, one after the other. -/
def Formula.Products.applied (g : Grouping) : Formula.Products → Option Int → Option Int
  | .nil, before => before
  | .cons sign product rest, before => rest.applied g (sign.operator.reckon before (product.value g))

/-- The value of a product that is not the first one. -/
def Formula.Product.value (g : Grouping) : Formula.Product → Option Int
  | .mk first rest => rest.applied g (first.value g)

/-- The value of the first product of a formula. -/
def Formula.Product.leading (g : Grouping) : Formula.Product → Option Int
  | .mk first rest => rest.leading g (first.value g)

/-- Factors applied to what stands before them, one after the other. -/
def Formula.Factors.applied (g : Grouping) : Formula.Factors → Option Int → Option Int
  | .nil, before => before
  | .cons o factor rest, before => rest.applied g (o.operator.reckon before (factor.value g))

/-- Factors of the first product applied to its first factor. -/
def Formula.Factors.leading (g : Grouping) : Formula.Factors → Option Int → Option Int
  | .nil, before => before
  | .cons o factor rest, before =>
    match g with
    | .leftToRight => rest.applied g (o.operator.reckon before (factor.value g))
    | .firstApart => o.operator.reckon before (rest.applied g (factor.value g))

/-- The value of a factor. -/
def Formula.Factor.value (g : Grouping) : Formula.Factor → Option Int
  | .number n => some n
  | .parens inner => inner.value g

end

namespace Formula

variable {g : Grouping}

/-- An operand behind an operator, as it is written and with its value. -/
structure Round where
  operator : Operator
  lexemes : List Lexeme
  value : Option Int

/-- Operands with the operators before them. -/
def Round.spelling (rounds : List Round) : List Lexeme :=
  rounds.flatMap fun round => .operator round.operator :: round.lexemes

theorem Round.spelling_cons (round : Round) (rest : List Round) :
    spelling (round :: rest) = .operator round.operator :: (round.lexemes ++ spelling rest) := rfl

/-- Operands applied to what stands before them, one after the other. -/
def Round.applied (rounds : List Round) (before : Option Int) : Option Int :=
  rounds.foldl (fun v round => round.operator.reckon v round.value) before

/-- Nothing comes of operands behind a division by zero. -/
@[simp] theorem Round.applied_none (rounds : List Round) : applied rounds none = none := by
  induction rounds with
  | nil => rfl
  | cons round rest ih => exact ih

/-- Factors as operands. -/
def Factors.rounds (g : Grouping) : Factors → List Round
  | .nil => []
  | .cons o factor rest => ⟨o.operator, factor.lexemes, factor.value g⟩ :: rest.rounds g

/-- Products as operands. -/
def Products.rounds (g : Grouping) : Products → List Round
  | .nil => []
  | .cons sign product rest => ⟨sign.operator, product.lexemes, product.value g⟩ :: rest.rounds g

theorem Factors.lexemes_eq (g : Grouping) (fs : Factors) : fs.lexemes = Round.spelling (fs.rounds g) := by
  induction fs with
  | nil => rw [lexemes, rounds, Round.spelling, List.flatMap_nil]
  | cons o f rest ih => rw [lexemes, ih, rounds, Round.spelling_cons]

theorem Products.lexemes_eq (g : Grouping) (ps : Products) : ps.lexemes = Round.spelling (ps.rounds g) := by
  induction ps with
  | nil => rw [lexemes, rounds, Round.spelling, List.flatMap_nil]
  | cons sign p rest ih => rw [lexemes, ih, rounds, Round.spelling_cons]

theorem Factors.applied_eq (fs : Factors) (v : Option Int) :
    fs.applied g v = Round.applied (fs.rounds g) v := by
  induction fs generalizing v with
  | nil => rw [applied, rounds, Round.applied, List.foldl_nil]
  | cons o f rest ih => rw [applied, ih, rounds, Round.applied, Round.applied, List.foldl_cons]

theorem Products.applied_eq (ps : Products) (v : Option Int) :
    ps.applied g v = Round.applied (ps.rounds g) v := by
  induction ps generalizing v with
  | nil => rw [applied, rounds, Round.applied, List.foldl_nil]
  | cons sign p rest ih => rw [applied, ih, rounds, Round.applied, Round.applied, List.foldl_cons]

/-- Each factor behind an operator is one of the factors. -/
theorem Factors.exists_of_mem_rounds {fs : Factors} {round : Round} (h : round ∈ fs.rounds g) :
    ∃ (o : Scaling) (f : Factor), round = ⟨o.operator, f.lexemes, f.value g⟩ := by
  induction fs with
  | nil =>
    rw [rounds] at h
    cases h
  | cons o f rest ih =>
    rw [rounds] at h
    rcases List.mem_cons.mp h with same | later
    · exact ⟨o, f, same⟩
    · exact ih later

/-- Each product behind a sign is one of the products. -/
theorem Products.exists_of_mem_rounds {ps : Products} {round : Round} (h : round ∈ ps.rounds g) :
    ∃ (sign : Sign) (p : Product), round = ⟨sign.operator, p.lexemes, p.value g⟩ := by
  induction ps with
  | nil =>
    rw [rounds] at h
    cases h
  | cons sign p rest ih =>
    rw [rounds] at h
    rcases List.mem_cons.mp h with same | later
    · exact ⟨sign, p, same⟩
    · exact ih later

/-- Grouped from left to right the first product is like any other. -/
theorem Product.leading_leftToRight : ∀ p : Product, p.leading .leftToRight = p.value .leftToRight
  | .mk first .nil => by rw [leading, value, Factors.leading, Factors.applied]
  | .mk first (.cons o f rest) => by rw [leading, value, Factors.leading, Factors.applied]

/-! ## Formulas on which the ways agree -/

/-- Factors all of which are multiplied. -/
def Factors.multiplied : Factors → Bool
  | .nil => true
  | .cons .times _ rest => rest.multiplied
  | .cons .slash _ _ => false

/-- One factor, or factors that are multiplied. -/
def Factors.associates : Factors → Bool
  | .cons _ _ .nil => true
  | fs => fs.multiplied

mutual

/-- No first product, in parentheses or not, has a quotient in it and more than two factors. -/
def steady : Formula → Bool
  | .sum (.mk first factors) rest =>
    first.steady && factors.steady && factors.associates && rest.steady

/-- No first product inside of products has that. -/
def Products.steady : Products → Bool
  | .nil => true
  | .cons _ (.mk first factors) rest => first.steady && factors.steady && rest.steady

/-- No first product inside of factors has that. -/
def Factors.steady : Factors → Bool
  | .nil => true
  | .cons _ factor rest => factor.steady && rest.steady

/-- No first product inside of a factor has that. -/
def Factor.steady : Factor → Bool
  | .number _ => true
  | .parens inner => inner.steady

end

/-- Multiplication is associative. -/
theorem reckon_times_assoc (x y z : Option Int) :
    Operator.times.reckon (Operator.times.reckon x y) z =
      Operator.times.reckon x (Operator.times.reckon y z) := by
  cases x with
  | none => rfl
  | some x =>
    cases y with
    | none => rfl
    | some y =>
      cases z with
      | none => rfl
      | some z => exact congrArg some (Int.mul_assoc x y z)

/-- Factors that are multiplied may be applied to the second of two factors before the first one. -/
theorem Factors.applied_times : ∀ {fs : Factors} (x y : Option Int), fs.multiplied = true →
    fs.applied g (Operator.times.reckon x y) = Operator.times.reckon x (fs.applied g y)
  | .nil, x, y, _ => by rw [applied, applied]
  | .cons .times f rest, x, y, multiplied => by
    rw [Factors.multiplied] at multiplied
    rw [applied, applied, ← applied_times x _ multiplied]
    exact congrArg _ (reckon_times_assoc x y _)

/-- Factors that associate come to the same, whether they are applied one after the other or not. -/
theorem Factors.leading_eq_applied {fs : Factors} (associates : fs.associates = true) (x : Option Int) :
    fs.leading g x = fs.applied g x := by
  cases g with
  | leftToRight => cases fs <;> rw [leading, applied]
  | firstApart =>
    match fs, associates with
    | .nil, _ => rw [leading, applied]
    | .cons o f .nil, _ => rw [leading, applied, applied, applied]
    | .cons .times f (.cons o f' rest), associates =>
      have tail : (Factors.cons o f' rest).multiplied = true := associates
      rw [leading, applied.eq_2]
      exact (applied_times x _ tail).symm

mutual

/-- The two ways of grouping agree on steady formulas. -/
theorem value_eq_of_steady : ∀ {s : Formula}, s.steady = true →
    s.value .firstApart = s.value .leftToRight
  | .sum (.mk first factors) rest, steady => by
    simp only [Formula.steady, Bool.and_eq_true] at steady
    obtain ⟨⟨⟨one, more⟩, associates⟩, later⟩ := steady
    rw [value, value, Product.leading, Product.leading, Factors.leading_eq_applied associates,
      Factors.leading_eq_applied associates, Factor.value_eq_of_steady one,
      Factors.applied_eq_of_steady more, Products.applied_eq_of_steady later]

/-- And on products behind signs. -/
theorem Products.applied_eq_of_steady : ∀ {ps : Products} {x : Option Int}, ps.steady = true →
    ps.applied .firstApart x = ps.applied .leftToRight x
  | .nil, x, _ => by rw [Products.applied, Products.applied]
  | .cons sign (.mk first factors) rest, x, steady => by
    simp only [Products.steady, Bool.and_eq_true] at steady
    obtain ⟨⟨one, more⟩, later⟩ := steady
    rw [Products.applied, Products.applied, Product.value, Product.value, Factor.value_eq_of_steady one,
      Factors.applied_eq_of_steady more, Products.applied_eq_of_steady later]

/-- And on factors behind operators. -/
theorem Factors.applied_eq_of_steady : ∀ {fs : Factors} {x : Option Int}, fs.steady = true →
    fs.applied .firstApart x = fs.applied .leftToRight x
  | .nil, x, _ => by rw [Factors.applied, Factors.applied]
  | .cons o f rest, x, steady => by
    simp only [Factors.steady, Bool.and_eq_true] at steady
    rw [Factors.applied, Factors.applied, Factor.value_eq_of_steady steady.1,
      Factors.applied_eq_of_steady steady.2]

/-- And on factors. -/
theorem Factor.value_eq_of_steady : ∀ {f : Factor}, f.steady = true →
    f.value .firstApart = f.value .leftToRight
  | .number n, _ => by rw [Factor.value, Factor.value]
  | .parens inner, steady => by
    rw [Factor.value, Factor.value]
    exact value_eq_of_steady (by rwa [Factor.steady] at steady)

end

end Formula

end LittlePascal
