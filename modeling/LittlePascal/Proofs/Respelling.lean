import LittlePascal.Proofs.Grouping

/-! # Operators under other names

An operator can be written as a mark or as a word. A respelling of operators leaves signs as they are and
products products, so what is derived from lexemes is derived from the respelled lexemes as well, and its tree
is the respelled one. A tree and the respelled one run alike where the respelled operators do what the operators did.

Main definitions: `Respelling`, `Respelling.worded`, `Expr.respelled`, `Stmt.respelledAll`.

Main statements:
* `DerivesStmt.induction`: induction over statements and their lists;
* `DerivesExpr.respelled`, `DerivesStmt.respelled`: derivations;
* `Expr.eval_respelled`, `Stmt.runAll_respelled`: runs;
* `DerivesExpr.reckons`: what is derived from whole numbers has a whole number for its value, or a divisor
  is zero. -/

namespace LittlePascal

/-! ## Respelled trees -/

/-- A respelling of the operators that keeps the signs and keeps the operators of products among
themselves. -/
structure Respelling where
  operator : Operator → Operator
  sign : ∀ sign : Sign, operator sign.operator = sign.operator
  scaling : ∀ {o : Operator}, o ∈ [.times, .div, .slash] → operator o ∈ [.times, .div, .slash]

namespace Respelling

/-- All operators keep their names. -/
def identity : Respelling where
  operator o := o
  sign _ := rfl
  scaling member := member

/-- The slash becomes the operator that is a word. -/
def worded : Respelling where
  operator
    | .slash => .div
    | o => o
  sign sign := by cases sign <;> rfl
  scaling := by
    intro o member
    cases o <;> simp at member ⊢

/-- The operators of sums keep their names. -/
theorem operator_of_mem (σ : Respelling) {o : Operator} (member : o ∈ [.plus, .minus]) :
    σ.operator o = o := by
  rw [List.mem_cons, List.mem_singleton] at member
  rcases member with rfl | rfl
  · exact σ.sign .plus
  · exact σ.sign .minus

end Respelling

/-- A lexeme with its operator respelled. -/
def Lexeme.respelled (σ : Respelling) : Lexeme → Lexeme
  | .operator o => .operator (σ.operator o)
  | l => l

/-- An expression with its operators respelled. -/
def Expr.respelled (σ : Respelling) : Expr → Expr
  | .signed sign place operand => .signed sign place (operand.respelled σ)
  | .binary operator place left right => .binary (σ.operator operator) place (left.respelled σ) (right.respelled σ)
  | e => e

namespace Stmt

mutual

/-- A statement with its operators respelled. -/
def respelled (σ : Respelling) : Stmt → Stmt
  | .compound children => .compound (respelledAll σ children)
  | .assign target place value => .assign target place (value.respelled σ)
  | .call procedure arguments => .call procedure (arguments.map (Expr.respelled σ))
  | .empty => .empty

/-- Statements with their operators respelled. -/
def respelledAll (σ : Respelling) : List Stmt → List Stmt
  | [] => []
  | statement :: rest => statement.respelled σ :: respelledAll σ rest

end

end Stmt

/-- Where all operators keep their names a lexeme stays as it is. -/
@[simp] theorem Lexeme.respelled_identity (l : Lexeme) : l.respelled .identity = l := by
  cases l <;> rfl

/-- Where all operators keep their names an expression stays as it is. -/
@[simp] theorem Expr.respelled_identity (e : Expr) : e.respelled .identity = e := by
  induction e with
  | literal | var | hole => rfl
  | signed sign place operand ih => rw [respelled, ih]
  | binary operator place left right ihl ihr => rw [respelled, ihl, ihr, Respelling.identity]

/-! ## Derivations -/

/-- Marks with the lexemes of other marks, respelled. -/
def Mark.Respelled (σ : Respelling) (ms ms' : List Mark) : Prop :=
  ms'.map Mark.lexeme = ms.map fun m => m.lexeme.respelled σ

namespace Mark.Respelled

variable {σ : Respelling} {m : Mark} {ms ns ms' : List Mark}

/-- Nothing is respelled to nothing. -/
theorem nil (h : Respelled σ [] ms') : ms' = [] := List.map_eq_nil_iff.mp h

/-- A first mark is respelled to a first mark. -/
theorem cons (h : Respelled σ (m :: ms) ms') :
    ∃ m' ns', ms' = m' :: ns' ∧ m'.lexeme = m.lexeme.respelled σ ∧ Respelled σ ms ns' :=
  List.map_eq_cons_iff.mp h

/-- Marks are respelled part by part. -/
theorem append (h : Respelled σ (ms ++ ns) ms') :
    ∃ us vs, ms' = us ++ vs ∧ Respelled σ ms us ∧ Respelled σ ns vs := by
  rw [Respelled, List.map_append] at h
  exact List.map_eq_append_iff.mp h

/-- A single mark is respelled to a single one. -/
theorem single (h : Respelled σ [m] ms') : ∃ m', ms' = [m'] ∧ m'.lexeme = m.lexeme.respelled σ := by
  obtain ⟨m', ns', rfl, lexeme, rest⟩ := h.cons
  obtain rfl := rest.nil
  exact ⟨m', rfl, lexeme⟩

end Mark.Respelled

/-- Respelled lexemes derive the respelled tree. -/
theorem DerivesExpr.respelled {σ : Respelling} {level : Level} {ms : List Mark} {e : Expr}
    (h : DerivesExpr level ms e) {ms' : List Mark} (same : Mark.Respelled σ ms ms') :
    ∃ e', DerivesExpr level ms' e' ∧ e'.unplaced = (e.respelled σ).unplaced := by
  induction h generalizing ms' with
  | literal mark =>
    obtain ⟨m', rfl, lexeme⟩ := same.single
    rw [mark] at lexeme
    exact ⟨_, .literal lexeme, rfl⟩
  | var mark =>
    obtain ⟨m', rfl, lexeme⟩ := same.single
    rw [mark] at lexeme
    exact ⟨_, .var lexeme, rfl⟩
  | signed mark _ ih =>
    obtain ⟨m', ns', rfl, lexeme, rest⟩ := same.cons
    obtain ⟨e', form, alike⟩ := ih rest
    rw [mark, Lexeme.respelled, σ.sign] at lexeme
    refine ⟨_, .signed lexeme form, ?_⟩
    rw [Expr.unplaced, alike, Expr.respelled, Expr.unplaced]
  | parens mark _ mark' ih =>
    obtain ⟨m', ns', rfl, lexeme, rest⟩ := same.cons
    obtain ⟨us, vs, rfl, inner, last⟩ := rest.append
    obtain ⟨n', rfl, lexeme'⟩ := last.single
    obtain ⟨e', form, alike⟩ := ih inner
    rw [mark] at lexeme
    rw [mark'] at lexeme'
    exact ⟨e', .parens lexeme form lexeme', alike⟩
  | factor _ ih =>
    obtain ⟨e', form, alike⟩ := ih same
    exact ⟨e', .factor form, alike⟩
  | product _ ih =>
    obtain ⟨e', form, alike⟩ := ih same
    exact ⟨e', .product form, alike⟩
  | multiplied _ mark member _ ihl ihr =>
    obtain ⟨us, vs, rfl, before, behind⟩ := same.append
    obtain ⟨m', ns', rfl, lexeme, rest⟩ := behind.cons
    obtain ⟨left, form, alike⟩ := ihl before
    obtain ⟨right, form', alike'⟩ := ihr rest
    rw [mark] at lexeme
    refine ⟨_, .multiplied form lexeme (σ.scaling member) form', ?_⟩
    rw [Expr.unplaced, alike, alike', Expr.respelled, Expr.unplaced]
  | @added _ _ _ o _ _ _ mark member _ ihl ihr =>
    obtain ⟨us, vs, rfl, before, behind⟩ := same.append
    obtain ⟨m', ns', rfl, lexeme, rest⟩ := behind.cons
    obtain ⟨left, form, alike⟩ := ihl before
    obtain ⟨right, form', alike'⟩ := ihr rest
    have kept : σ.operator o ∈ [.plus, .minus] := by rwa [σ.operator_of_mem member]
    rw [mark] at lexeme
    refine ⟨_, .added form lexeme kept form', ?_⟩
    rw [Expr.unplaced, alike, alike', Expr.respelled, Expr.unplaced]

/-- Induction over a statement: what holds of the children of a compound statement holds of them as a
list. -/
theorem DerivesStmt.induction {g : Grammar} {P : List Mark → Stmt → Prop}
    (compound : ∀ {m n ms children}, m.lexeme = .reserved .beginBlock → Separated .semicolon P ms children →
      n.lexeme = .reserved .endBlock → P (m :: (ms ++ [n])) (.compound children))
    (call : ∀ {m n k ms s arguments}, g.calls = true → m.lexeme = .name s → m.behind = some '(' →
      n.lexeme = .punctuation .leftParen → DerivesArguments ms arguments →
      k.lexeme = .punctuation .rightParen → P (m :: n :: (ms ++ [k])) (.call ⟨s, m.place⟩ arguments))
    (assign : ∀ {m n ms s e}, m.lexeme = .name s → n.lexeme = .punctuation .assign →
      DerivesExpr .sum ms e → P (m :: n :: ms) (.assign ⟨s, m.place⟩ n.place e))
    (empty : P [] .empty) {ms : List Mark} {s : Stmt} (h : DerivesStmt g ms s) : P ms s :=
  @DerivesStmt.rec g (fun ms s _ => P ms s) (fun ms children _ => Separated .semicolon P ms children)
    (fun word _ word' children => compound word children word') call assign empty
    (fun _ child => .one child) (fun _ mark _ child rest => .more child mark rest) ms s h

/-- Lists of respelled items are derived item by item. -/
theorem Separated.respelled {σ : Respelling} {separator : Punctuation} {Item : List Mark → Stmt → Prop}
    {ms : List Mark} {children : List Stmt}
    (h : Separated separator (fun ms s => ∀ {ms'}, Mark.Respelled σ ms ms' →
      ∃ s', Item ms' s' ∧ s'.unplaced = (s.respelled σ).unplaced) ms children)
    {ms' : List Mark} (same : Mark.Respelled σ ms ms') :
    ∃ children', Separated separator Item ms' children' ∧
      Stmt.unplacedAll children' = Stmt.unplacedAll (Stmt.respelledAll σ children) := by
  induction h generalizing ms' with
  | one item =>
    obtain ⟨s', form, alike⟩ := item same
    refine ⟨[s'], .one form, ?_⟩
    rw [Stmt.unplacedAll, alike, Stmt.respelledAll, Stmt.unplacedAll]
    rfl
  | more item mark _ ih =>
    obtain ⟨us, vs, rfl, before, behind⟩ := same.append
    obtain ⟨m', ns', rfl, lexeme, rest⟩ := behind.cons
    obtain ⟨s', form, alike⟩ := item before
    obtain ⟨children', forms, alike'⟩ := ih rest
    rw [mark] at lexeme
    refine ⟨s' :: children', .more form lexeme forms, ?_⟩
    rw [Stmt.unplacedAll, alike, alike', Stmt.respelledAll, Stmt.unplacedAll]

/-- Respelled lexemes derive the respelled statement, in every grammar, if there are no calls. -/
theorem DerivesStmt.respelled {σ : Respelling} {g g' : Grammar} (noCalls : g.calls = false) {ms : List Mark}
    {s : Stmt} (h : DerivesStmt g ms s) {ms' : List Mark} (same : Mark.Respelled σ ms ms') :
    ∃ s', DerivesStmt g' ms' s' ∧ s'.unplaced = (s.respelled σ).unplaced := by
  refine DerivesStmt.induction (P := fun ms s => ∀ {ms'}, Mark.Respelled σ ms ms' →
    ∃ s', DerivesStmt g' ms' s' ∧ s'.unplaced = (s.respelled σ).unplaced) ?compound ?call ?assign ?empty h same
  case compound =>
    intro m n ms children word forms word' ms' same
    obtain ⟨m', ns', rfl, lexeme, rest⟩ := same.cons
    obtain ⟨us, vs, rfl, inner, last⟩ := rest.append
    obtain ⟨n', rfl, lexeme'⟩ := last.single
    obtain ⟨children', forms', alike⟩ := Separated.respelled forms inner
    rw [word] at lexeme
    rw [word'] at lexeme'
    refine ⟨_, .compound lexeme forms' lexeme', ?_⟩
    rw [Stmt.unplaced, alike, Stmt.respelled, Stmt.unplaced]
  case call =>
    intro m n k ms s arguments calls
    rw [noCalls] at calls
    cases calls
  case assign =>
    intro m n ms s e target mark form ms' same
    obtain ⟨m', ns', rfl, lexeme, rest⟩ := same.cons
    obtain ⟨n', us, rfl, lexeme', inner⟩ := rest.cons
    obtain ⟨e', form', alike⟩ := form.respelled inner
    rw [target] at lexeme
    rw [mark] at lexeme'
    refine ⟨_, .assign lexeme lexeme' form', ?_⟩
    rw [Stmt.unplaced, alike, Stmt.respelled, Stmt.unplaced]
    rfl
  case empty =>
    intro ms' same
    obtain rfl := same.nil
    exact ⟨.empty, .empty, rfl⟩

/-! ## Statements have no point in them -/

/-- What holds of the marks of all items and of all separators holds of all marks of a list. -/
theorem Separated.forall_marks {α : Type} {separator : Punctuation} {Item : List Mark → α → Prop}
    {Class : Mark → Prop} {ms : List Mark} {items : List α}
    (h : Separated separator Item ms items) (each : ∀ {ms a}, Item ms a → ∀ m ∈ ms, Class m)
    (between : ∀ {m : Mark}, m.lexeme = .punctuation separator → Class m) : ∀ m ∈ ms, Class m := by
  induction h with
  | one item => exact each item
  | more item mark _ ih =>
    exact List.forall_mem_append.mpr ⟨each item, List.forall_mem_cons.mpr ⟨between mark, ih⟩⟩

/-- No mark of an expression is a point. -/
theorem DerivesExpr.lexeme_ne_dot {level : Level} {ms : List Mark} {e : Expr}
    (h : DerivesExpr level ms e) : ∀ m ∈ ms, m.lexeme ≠ .punctuation .dot := by
  induction h with
  | literal mark | var mark => simp [mark]
  | signed mark _ ih =>
    exact List.forall_mem_cons.mpr ⟨by rw [mark]; exact Lexeme.noConfusion, ih⟩
  | parens mark _ mark' ih => grind
  | factor _ ih | product _ ih => exact ih
  | multiplied _ mark _ _ ihl ihr | added _ mark _ _ ihl ihr => grind

/-- No mark of a statement is a point. -/
theorem DerivesStmt.lexeme_ne_dot {g : Grammar} {ms : List Mark} {s : Stmt} (h : DerivesStmt g ms s) :
    ∀ m ∈ ms, m.lexeme ≠ .punctuation .dot := by
  refine DerivesStmt.induction (P := fun ms _ => ∀ m ∈ ms, m.lexeme ≠ .punctuation .dot)
    ?compound ?call ?assign ?empty h
  case compound =>
    intro m n ms children word forms word'
    have inner := forms.forall_marks (fun item => item) fun mark => by rw [mark]; decide
    grind
  case call =>
    intro m n k ms s arguments _ procedure _ left forms right
    cases forms with
    | none => grind
    | some forms =>
      have inner := forms.forall_marks DerivesExpr.lexeme_ne_dot fun mark => by rw [mark]; decide
      grind
  case assign =>
    intro m n ms s e target mark form
    have inner := form.lexeme_ne_dot
    grind
  case empty => simp

/-! ## Runs -/

/-- The respelled operators do under one set of rules what the operators do under another, and variables are
read alike. -/
structure Respelling.Preserves (σ : Respelling) (rules rules' : EvalRules) : Prop where
  operation : ∀ o, Expr.operation rules' (σ.operator o) = Expr.operation rules o
  strict : rules'.strict = rules.strict

/-- A respelled expression has the same value where the respelled operators do the same. -/
theorem Expr.eval_respelled {σ : Respelling} {rules rules' : EvalRules} (same : σ.Preserves rules rules')
    (m : Memory) (e : Expr) : (e.respelled σ).eval rules' m = e.eval rules m := by
  induction e with
  | literal | hole => rfl
  | var id =>
    show readVariable rules' m id.name = readVariable rules m id.name
    rw [readVariable, readVariable, same.strict]
  | signed sign place operand ih => rw [respelled, eval, eval, ih]
  | binary operator place left right ihl ihr => rw [respelled, eval, eval, ihl, ihr, same.operation]

namespace Stmt

variable {σ : Respelling} {rules rules' : EvalRules}

mutual

/-- A respelled statement does the same. -/
theorem run_respelled (same : σ.Preserves rules rules') (s : Stmt) :
    (s.respelled σ).run rules' = s.run rules := by
  cases s with
  | compound children => rw [respelled, run, run, runAll_respelled same]
  | assign target place value => simp only [respelled, run, Expr.eval_respelled same]
  | call | empty => rfl

/-- Respelled statements do the same in order. -/
theorem runAll_respelled (same : σ.Preserves rules rules') (statements : List Stmt) :
    runAll rules' (respelledAll σ statements) = runAll rules statements := by
  cases statements with
  | nil => rfl
  | cons s rest => rw [respelledAll, runAll, runAll, run_respelled same, runAll_respelled same]

end

end Stmt

/-! ## Values of whole numbers -/

/-- Two operands with whole values are combined to a whole value, unless a divisor is zero. -/
theorem Expr.combine_result {rules : EvalRules} (floors : rules.slashFloors = true) (o : Operator)
    (x y : Option Int) :
    combine (operation rules o) (Calculation.result x) (Calculation.result y) =
      Calculation.result (o.reckon x y) := by
  have same : operation rules o = operation Edition.calls.evalRules o.whole.operator := by
    cases o <;> simp [operation, Operator.whole, WholeOperator.operator, floors]
  rw [same, Calculation.combine_result]
  rfl

/-- An expression of whole numbers has a whole value, or a divisor is zero, whatever the memory is. -/
theorem DerivesExpr.reckons {level : Level} {ms : List Mark} {e : Expr} (h : DerivesExpr level ms e)
    (whole : ∀ m ∈ ms, (∀ s, m.lexeme ≠ .name s) ∧ ∀ x, m.lexeme ≠ .literal (.real x)) :
    ∃ v, ∀ rules m, rules.slashFloors = true → e.eval rules m = Calculation.result v := by
  induction h with
  | @literal m l mark =>
    cases l with
    | whole n => exact ⟨some n, fun _ _ _ => rfl⟩
    | real x => exact absurd mark ((whole m List.mem_cons_self).2 x)
  | @var m s mark => exact absurd mark ((whole m List.mem_cons_self).1 s)
  | @signed m ms sign e mark _ ih =>
    obtain ⟨v, value⟩ := ih (List.forall_mem_cons.mp whole).2
    refine ⟨v.map sign.apply, fun rules m floors => ?_⟩
    rw [Expr.eval, value rules m floors]
    cases v with
    | none => rfl
    | some v => cases sign <;> rfl
  | parens _ _ _ ih =>
    exact ih (List.forall_mem_append.mp (List.forall_mem_cons.mp whole).2).1
  | factor _ ih | product _ ih => exact ih whole
  | @multiplied _ _ _ o _ _ _ _ _ _ ihl ihr | @added _ _ _ o _ _ _ _ _ _ ihl ihr =>
    obtain ⟨before, behind⟩ := List.forall_mem_append.mp whole
    obtain ⟨x, left⟩ := ihl before
    obtain ⟨y, right⟩ := ihr (List.forall_mem_cons.mp behind).2
    refine ⟨o.reckon x y, fun rules m floors => ?_⟩
    rw [Expr.eval, left rules m floors, right rules m floors, Expr.combine_result floors]

end LittlePascal
