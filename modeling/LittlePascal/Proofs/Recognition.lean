import LittlePascal.Edition
import LittlePascal.Proofs.Lexing
import LittlePascal.Proofs.Rule

/-! # Recognition

The rules of the last editions read exactly the programs of their grammar. For every rule there is a
statement that it is sound for its form and one that it is complete; both follow the rule through its
levels of nesting. Together they say that reading a text yields a tree if and only if the marks of the
text derive that tree, so no marks derive two.

Main statements:
* `Grammar.Full`: the decisions that the last editions share;
* `Grammar.program_sound`, `Grammar.program_complete`: programs;
* `parse_iff_derives`: the tree of a text is the tree that its marks derive. -/

namespace LittlePascal

namespace Grammar

/-- The decisions that the last editions share: programs have a header and declarations, variables
stand before procedures, procedures may have parameters, operands may have signs and may not be left
out. Where there are calls, a parenthesis directly behind a name is the next token. -/
structure Full (g : Grammar) : Prop where
  signs : g.signs = true
  holes : g.holes = false
  header : g.header = true
  interleaved : g.interleaved = false
  parameters : g.parameters = true
  guardsNames : g.guardsNames = false
  paren : g.calls = true → ∀ c : Cursor, c.char? = some '(' →
    g.lexis.token c = .ok (.lexeme (.punctuation .leftParen) c.place) c.advance

open Parse

variable {g : Grammar}

/-! ## Chains -/

/-- A chain of operands is sound if the operands are. -/
theorem chain_sound {operators : List Operator} {operand : Parse Expr}
    {Operand : List Mark → Expr → Prop} (sound : Sound g.lexis operand Operand) :
    Sound g.lexis (g.chain operators operand) (LeftChain operators Operand) := by
  intro r s e h
  obtain ⟨first, t, read, h⟩ := Work.bind_eq_ok.mp h
  rw [budget_bind] at h
  obtain ⟨us, passage, form⟩ := sound read
  obtain ⟨vs, passage', continued⟩ := foldLeft_sound sound _ h
  exact ⟨us ++ vs, passage.append passage',
    leftChain_iff.mpr ⟨us, vs, first, rfl, form, continued⟩⟩

/-- A chain of operands is complete if the operands are and stop before the operators of the chain. -/
theorem chain_complete {bound : Nat} {operators : List Operator} {operand : Parse Expr}
    {Operand : List Mark → Expr → Prop} {Stop : Token → Prop}
    (stops : ∀ {t : Token} {o p}, operatorAmong operators t = some (o, p) → Stop t)
    (complete : Complete g.lexis bound operand Operand Stop) :
    Complete g.lexis bound (g.chain operators operand) (LeftChain operators Operand)
      (fun t => Stop t ∧ operatorAmong operators t = none) := by
  rintro r s ms e passage short chained ⟨stop, last⟩
  obtain ⟨us, vs, first, rfl, form, continued⟩ := leftChain_iff.mp chained
  obtain ⟨t, begin, rest⟩ := Passage.append_iff.mp passage
  rw [List.length_append] at short
  have stop' : Stop t.token := by
    cases continued with
    | done =>
      obtain rfl := Passage.nil_iff.mp rest
      exact stop
    | more mark member =>
      apply stops
      rw [rest.token_eq, Mark.token, mark]
      exact operatorAmong_eq_some.mpr ⟨rfl, member⟩
  rw [chain, Work.bind_of_ok (complete begin (by omega) form stop'), budget_bind]
  exact foldLeft_complete stops complete _ rest (by omega) rest.length_lt_budget continued stop last

/-- Products are chains of factors. -/
theorem derivesProduct_iff {ms : List Mark} {e : Expr} :
    DerivesExpr .product ms e ↔ LeftChain [.times, .div, .slash] (DerivesExpr .factor) ms e := by
  constructor
  · intro h
    generalize level : Level.product = l at h
    induction h with
    | factor form => exact .one form
    | multiplied _ mark member form ih => exact .more (ih level) mark member form
    | _ => cases level
  · intro h
    induction h with
    | one form => exact .factor form
    | more _ mark member form ih => exact .multiplied ih mark member form

/-- Sums are chains of products. -/
theorem derivesSum_iff {ms : List Mark} {e : Expr} :
    DerivesExpr .sum ms e ↔ LeftChain [.plus, .minus] (DerivesExpr .product) ms e := by
  constructor
  · intro h
    generalize level : Level.sum = l at h
    induction h with
    | product form => exact .one form
    | added _ mark member form ih => exact .more (ih level) mark member form
    | _ => cases level
  · intro h
    induction h with
    | one form => exact .product form
    | more _ mark member form ih => exact .added ih mark member form

/-- A property of expressions that their operands share. -/
structure Hereditary (P : Expr → Prop) : Prop where
  signed {sign : Sign} {place : Place} {e : Expr} : P (.signed sign place e) → P e
  binary {o : Operator} {place : Place} {left right : Expr} : P (.binary o place left right) → P left ∧ P right

/-- Marks derive an expression, if it has a property. -/
def DerivesIf (P : Expr → Prop) (level : Level) (ms : List Mark) (e : Expr) : Prop := P e → DerivesExpr level ms e

/-- A chain of operands that are derived if they have a property is such a chain if it has the property. -/
theorem leftChain_of_derivesIf {P : Expr → Prop} (shared : Hereditary P) {operators : List Operator} {level : Level}
    {ms : List Mark} {e : Expr} (h : LeftChain operators (DerivesIf P level) ms e) (such : P e) :
    LeftChain operators (DerivesExpr level) ms e := by
  induction h with
  | one form => exact .one (form such)
  | more _ mark member form ih => exact .more (ih (shared.binary such).1) mark member (form (shared.binary such).2)

/-- What a sum reads is a sum, if its factors are factors. -/
theorem sum_sound {P : Expr → Prop} (shared : Hereditary P) {rule : Parse Expr}
    (sound : Sound g.lexis rule (DerivesIf P .factor)) : Sound g.lexis (g.sum rule) (DerivesIf P .sum) := by
  have products : Sound g.lexis (g.product rule) (DerivesIf P .product) := by
    intro r s e h
    obtain ⟨ms, passage, chain⟩ := chain_sound sound h
    exact ⟨ms, passage, fun such => derivesProduct_iff.mpr (leftChain_of_derivesIf shared chain such)⟩
  intro r s e h
  obtain ⟨ms, passage, chain⟩ := chain_sound products h
  exact ⟨ms, passage, fun such => derivesSum_iff.mpr (leftChain_of_derivesIf shared chain such)⟩

/-- A token that is no operator. -/
def NoOperator (t : Token) : Prop := ∀ o, t.kind ≠ .operator o

/-- A token that is no operator is none of a class. -/
theorem NoOperator.among {t : Token} (h : NoOperator t) (operators : List Operator) :
    operatorAmong operators t = none := by
  cases found : operatorAmong operators t with
  | none => rfl
  | some op =>
    obtain ⟨rfl, _⟩ := operatorAmong_eq_some.mp found
    exact absurd rfl (h op.1)

/-- An expression all marks of which are of a class. -/
def DerivesAmong (Class : Mark → Prop) (level : Level) (ms : List Mark) (e : Expr) : Prop :=
  DerivesExpr level ms e ∧ ∀ m ∈ ms, Class m

/-- Chains of chains are read if their operands are, whatever follows them, and no operator follows them all. -/
theorem chains_complete {bound : Nat} {rule : Parse Expr} {Operand : List Mark → Expr → Prop}
    (complete : Complete g.lexis bound rule Operand fun _ => True) :
    Complete g.lexis bound (g.sum rule) (LeftChain [.plus, .minus] (LeftChain [.times, .div, .slash] Operand))
      NoOperator := by
  have products : Complete g.lexis bound (g.product rule) (LeftChain [.times, .div, .slash] Operand)
      (fun t => operatorAmong [.times, .div, .slash] t = none) := by
    intro r s ms e passage short form stop
    exact chain_complete (fun _ => trivial) complete passage short form ⟨trivial, stop⟩
  -- a product stops before the operators of a sum
  have apart : ∀ {t : Token} {o p}, operatorAmong [.plus, .minus] t = some (o, p) →
      operatorAmong [.times, .div, .slash] t = none := by
    intro t o p found
    obtain ⟨rfl, member⟩ := operatorAmong_eq_some.mp found
    cases o <;> first | rfl | simp at member
  intro r s ms e passage short form stop
  exact chain_complete apart products passage short form ⟨stop.among _, stop.among _⟩

/-- A sum is read if its factors are, whatever follows them, and no operator follows the sum. -/
theorem sum_complete {Class : Mark → Prop} {bound : Nat} {rule : Parse Expr}
    (complete : Complete g.lexis bound rule (DerivesAmong Class .factor) fun _ => True) :
    Complete g.lexis bound (g.sum rule) (DerivesAmong Class .sum) NoOperator := by
  intro r s ms e passage short form stop
  have products := (derivesSum_iff.mp form.1).among form.2
  exact chains_complete complete passage short
    (products.imp fun product => (derivesProduct_iff.mp product.1).among product.2) stop

/-! ## Factors -/

/-- What a factor reads is one, at every level of nesting, if the last kind of factor is. -/
theorem factorWithin_sound {P : Expr → Prop} (shared : Hereditary P) (signs : g.signs = true)
    (last : Sound g.lexis g.lastFactor (DerivesIf P .factor)) (n : Nat) :
    Sound g.lexis (g.factorWithin n) (DerivesIf P .factor) := by
  induction n with
  | zero =>
    intro r s e h
    cases h
  | succ n ih =>
    intro r s e h
    -- a sign, and the factor behind it
    have signed : ∀ (sign : Sign) {p : Place}, r.token = .lexeme (.operator sign.operator) p →
        (do next g.lexis; return Expr.signed sign p (← g.factorWithin n) : Parse Expr) r = .ok e s →
        ∃ ms, Passage g.lexis r ms s ∧ DerivesIf P .factor ms e := by
      intro sign p token h
      obtain ⟨_, t, step, h⟩ := Work.bind_eq_ok.mp h
      obtain ⟨operand, u, read, h⟩ := Work.bind_eq_ok.mp h
      cases h
      obtain ⟨ms, passage, form⟩ := ih read
      exact ⟨_, (passage_of_next token step).step passage, fun such => .signed rfl (form (shared.signed such))⟩
    rw [factorWithin, current_bind] at h
    obtain ⟨rule, chosen, h⟩ := Work.exists_chosen h
    split at chosen
    · -- a literal
      rename_i l place token
      subst chosen
      obtain ⟨_, t, step, h⟩ := Work.bind_eq_ok.mp h
      cases h
      exact ⟨_, passage_of_next token step, fun _ => .literal rfl⟩
    · -- a sum in parentheses
      rename_i place token
      subst chosen
      obtain ⟨_, t, step, h⟩ := Work.bind_eq_ok.mp h
      obtain ⟨inner, u, read, h⟩ := Work.bind_eq_ok.mp h
      obtain ⟨_, v, closed, h⟩ := Work.bind_eq_ok.mp h
      cases h
      obtain ⟨ms, passage, form⟩ := sum_sound shared ih read
      obtain ⟨m, mark, passage'⟩ := (expect_eq_ok rfl).mp closed
      exact ⟨_, (passage_of_next token step).step (passage.append passage'),
        fun such => .parens rfl (form such) mark⟩
    · rename_i place token
      rw [if_pos signs] at chosen
      subst chosen
      exact signed .plus token h
    · rename_i place token
      rw [if_pos signs] at chosen
      subst chosen
      exact signed .minus token h
    · subst chosen
      exact last h

/-- The property that all expressions have is shared. -/
theorem hereditary_true : Hereditary fun _ => True := ⟨fun _ => trivial, fun _ => ⟨trivial, trivial⟩⟩

/-- Where operands may not be left out the last kind of factor is a variable. -/
theorem lastFactor_sound (full : g.Full) : Sound g.lexis g.lastFactor (DerivesIf (fun _ => True) .factor) := by
  intro r s e h
  simp only [lastFactor, full.holes, Bool.false_eq_true, if_false] at h
  obtain ⟨id, t, read, h⟩ := Work.bind_eq_ok.mp h
  cases h
  obtain ⟨ms, passage, ⟨name⟩⟩ := ident_sound read
  exact ⟨_, passage, fun _ => .var name⟩

/-- A factor is read, whatever follows it, if there are levels of nesting for its marks. Where operands may
be left out a name is taken for an operand that is, so there must be none. -/
theorem factorWithin_complete {Class : Mark → Prop} (signs : g.signs = true)
    (nameless : g.holes = true → ∀ {m s}, Class m → m.lexeme ≠ .name s) (n : Nat) :
    Complete g.lexis n (g.factorWithin n) (DerivesAmong Class .factor) fun _ => True := by
  induction n with
  | zero =>
    intro r s ms e _ short
    exact absurd short (Nat.not_lt_zero _)
  | succ n ih =>
    rintro r s ms e passage short ⟨form, all⟩ -
    cases form with
    | @literal m l mark =>
      have token : r.token = .lexeme (.literal l) m.place := by
        rw [passage.token_eq, Mark.token, mark]
      simp only [factorWithin, current_bind, token]
      exact Work.bind_of_ok (next_of_passage passage)
    | @var m name mark =>
      have token : r.token = .lexeme (.name name) m.place := by
        rw [passage.token_eq, Mark.token, mark]
      have holes : g.holes = false := by
        rw [← Bool.not_eq_true]
        exact fun holes => nameless holes (all m List.mem_cons_self) mark
      simp only [factorWithin, current_bind, token, lastFactor, holes, Bool.false_eq_true, if_false]
      exact Work.bind_of_ok (ident_of_passage mark passage)
    | @signed m ms sign e mark form =>
      obtain ⟨t, first, rest⟩ := Passage.step_iff.mp passage
      rw [List.length_cons] at short
      have token : r.token = .lexeme (.operator sign.operator) m.place := by
        rw [first.token_eq, Mark.token, mark]
      have operand := ih rest (by omega) ⟨form, (List.forall_mem_cons.mp all).2⟩ trivial
      cases sign with
      | plus | minus =>
        simp only [Sign.operator] at token
        simp only [factorWithin, current_bind, token, signs, if_true]
        rw [Work.bind_of_ok (next_of_passage first), Work.bind_of_ok operand]
        rfl
    | @parens m k ms e mark form mark' =>
      obtain ⟨t, first, rest⟩ := Passage.step_iff.mp passage
      obtain ⟨u, middle, last⟩ := Passage.append_iff.mp rest
      rw [List.length_cons, List.length_append] at short
      have token : r.token = .lexeme (.punctuation .leftParen) m.place := by
        rw [first.token_eq, Mark.token, mark]
      -- the two parentheses take two marks, so a level is left for what is between them
      have stop : NoOperator u.token := by
        intro o
        rw [last.token_eq, Mark.token, mark']
        exact Kind.noConfusion
      have within : ∀ m ∈ ms, Class m := fun n member => all n (by simp [member])
      simp only [factorWithin, current_bind, token]
      rw [Work.bind_of_ok (next_of_passage first),
        Work.bind_of_ok (sum_complete ih middle (by omega) ⟨form, within⟩ stop),
        Work.bind_of_ok (expect_of_passage (by rw [mark']; rfl) last)]
      rfl

/-- What an expression reads is one. -/
theorem expr_sound (full : g.Full) : Sound g.lexis g.expr (DerivesExpr .sum) := by
  intro r s e h
  rw [expr, budget_bind] at h
  obtain ⟨ms, passage, form⟩ :=
    sum_sound hereditary_true (factorWithin_sound hereditary_true full.signs (lastFactor_sound full) _) h
  exact ⟨ms, passage, form trivial⟩

/-- An expression is read if no operator follows it, and if there are no names where operands may be left
out. -/
theorem exprAmong_complete {Class : Mark → Prop} (signs : g.signs = true)
    (nameless : g.holes = true → ∀ {m s}, Class m → m.lexeme ≠ .name s) (bound : Nat) :
    Complete g.lexis bound g.expr (DerivesAmong Class .sum) NoOperator := by
  intro r s ms e passage _ form stop
  rw [expr, budget_bind]
  exact sum_complete (factorWithin_complete signs nameless _) passage passage.length_lt_budget form stop

/-- An expression is read if no operator follows it. -/
theorem expr_complete (full : g.Full) (bound : Nat) :
    Complete g.lexis bound g.expr (DerivesExpr .sum) NoOperator := by
  intro r s ms e passage short form stop
  have named : g.holes = true → ∀ {m s}, (fun _ : Mark => True) m → m.lexeme ≠ .name s := by
    intro holes
    rw [full.holes] at holes
    cases holes
  exact exprAmong_complete full.signs named bound passage short ⟨form, fun _ _ => trivial⟩ stop

/-! ## Statements -/

/-- What the arguments of a call read are arguments. -/
theorem arguments_sound (full : g.Full) : Sound g.lexis g.arguments DerivesArguments := by
  intro r s es h
  rw [arguments, kind_bind] at h
  split at h
  · cases h
    exact ⟨[], .nil r, .none⟩
  · obtain ⟨ms, passage, forms⟩ := separated_sound (expr_sound full) h
    exact ⟨ms, passage, .some forms⟩

/-- An expression does not begin with a closing parenthesis. -/
theorem derivesExpr_opens {level : Level} {ms : List Mark} {e : Expr}
    (h : DerivesExpr level ms e) :
    ∃ m ns, ms = m :: ns ∧ m.lexeme ≠ .punctuation .rightParen := by
  induction h with
  | literal mark | var mark => exact ⟨_, [], rfl, by rw [mark]; exact Lexeme.noConfusion⟩
  | signed mark | parens mark => exact ⟨_, _, rfl, by rw [mark]; simp⟩
  | factor _ ih | product _ ih => exact ih
  | multiplied _ _ _ _ ih | added _ _ _ _ ih =>
    obtain ⟨m, ns, rfl, other⟩ := ih
    exact ⟨m, _, rfl, other⟩

/-- The arguments of a call are read if the closing parenthesis follows them. -/
theorem arguments_complete (full : g.Full) (bound : Nat) :
    Complete g.lexis bound g.arguments DerivesArguments
      (fun t => t.kind = .punctuation .rightParen) := by
  intro r s ms es passage short forms stop
  rw [arguments, kind_bind]
  cases forms with
  | none =>
    obtain rfl := Passage.nil_iff.mp passage
    rw [if_pos stop]
    rfl
  | some forms =>
    -- the rule takes a closing parenthesis for an empty list, and no expression begins with one
    have opens : r.token.kind ≠ .punctuation .rightParen := by
      obtain ⟨us, vs, e, rest, rfl, rfl, form, _⟩ := separated_iff.mp forms
      obtain ⟨m, ns, rfl, other⟩ := derivesExpr_opens form
      rw [passage.token_eq, Mark.token, Token.kind, ne_eq, Lexeme.kind_eq_iff rfl]
      exact other
    have noOperator : ∀ {t : Token} {q}, t.kind = .punctuation q → NoOperator t := by
      intro t q kind o
      rw [kind]
      exact Kind.noConfusion
    rw [if_neg opens]
    refine separated_complete noOperator (expr_complete full bound) passage short forms
      ⟨noOperator stop, ?_⟩
    rw [stop]
    exact fun same => by cases same

/-- What an assignment reads is one. -/
theorem assignment_sound (full : g.Full) : Sound g.lexis g.assignment (DerivesStmt g) := by
  intro r s statement h
  obtain ⟨id, t, read, h⟩ := Work.bind_eq_ok.mp h
  obtain ⟨ms, passage, ⟨name⟩⟩ := ident_sound read
  rw [current_bind] at h
  obtain ⟨rest, chosen, h⟩ := Work.exists_chosen h
  split at chosen
  · rename_i place token
    subst chosen
    obtain ⟨_, u, step, h⟩ := Work.bind_eq_ok.mp h
    obtain ⟨value, v, read', h⟩ := Work.bind_eq_ok.mp h
    cases h
    obtain ⟨ns, passage', form⟩ := expr_sound full read'
    exact ⟨_, passage.step ((passage_of_next token step).step passage'), .assign name rfl form⟩
  · subst chosen
    cases h

/-- An assignment is read if no operator follows it. -/
theorem assignment_of_passage (full : g.Full) {r s : Reading} {m n : Mark} {ms : List Mark}
    {name : String} {e : Expr} (passage : Passage g.lexis r (m :: n :: ms) s)
    (target : m.lexeme = .name name) (mark : n.lexeme = .punctuation .assign)
    (form : DerivesExpr .sum ms e) (stop : NoOperator s.token) :
    g.assignment r = .ok (.assign ⟨name, m.place⟩ n.place e) s := by
  obtain ⟨t, first, rest⟩ := Passage.step_iff.mp passage
  obtain ⟨u, second, rest⟩ := Passage.step_iff.mp rest
  have token : t.token = .lexeme (.punctuation .assign) n.place := by
    rw [second.token_eq, Mark.token, mark]
  rw [assignment, Work.bind_of_ok (ident_of_passage target first), current_bind]
  simp only [token]
  rw [Work.bind_of_ok (next_of_passage second),
    Work.bind_of_ok (expr_complete full _ rest (Nat.lt_succ_self _) form stop)]
  rfl

/-- What a call reads is one, if it starts where a parenthesis directly follows. -/
theorem call_sound (full : g.Full) (calls : g.calls = true) {r s : Reading} {statement : Stmt}
    (paren : r.cursor.char? = some '(') (h : g.call r = .ok statement s) :
    ∃ ms, Passage g.lexis r ms s ∧ DerivesStmt g ms statement := by
  obtain ⟨id, t, read, h⟩ := Work.bind_eq_ok.mp h
  obtain ⟨_, u, opened, h⟩ := Work.bind_eq_ok.mp h
  obtain ⟨es, v, read', h⟩ := Work.bind_eq_ok.mp h
  obtain ⟨_, w, closed, h⟩ := Work.bind_eq_ok.mp h
  cases h
  obtain ⟨ms, passage, ⟨name⟩⟩ := ident_sound read
  obtain ⟨n, left, passage₁⟩ := (expect_eq_ok rfl).mp opened
  obtain ⟨ns, passage₂, forms⟩ := arguments_sound full read'
  obtain ⟨k, right, passage₃⟩ := (expect_eq_ok rfl).mp closed
  refine ⟨_, passage.step (passage₁.step (passage₂.append passage₃)),
    .call calls name ?_ left forms right⟩
  rw [← passage.behind_eq]
  exact paren

/-- A call is read, whatever follows it. -/
theorem call_of_passage (full : g.Full) {r s : Reading} {m n k : Mark} {ms : List Mark}
    {name : String} {es : List Expr} (passage : Passage g.lexis r (m :: n :: (ms ++ [k])) s)
    (procedure : m.lexeme = .name name) (left : n.lexeme = .punctuation .leftParen)
    (forms : DerivesArguments ms es) (right : k.lexeme = .punctuation .rightParen) :
    g.call r = .ok (.call ⟨name, m.place⟩ es) s := by
  obtain ⟨t, first, rest⟩ := Passage.step_iff.mp passage
  obtain ⟨u, second, rest⟩ := Passage.step_iff.mp rest
  obtain ⟨v, third, last⟩ := Passage.append_iff.mp rest
  have stop : v.token.kind = .punctuation .rightParen := by
    rw [last.token_eq, Mark.token, right]
    rfl
  rw [call, Work.bind_of_ok (ident_of_passage procedure first),
    Work.bind_of_ok (expect_of_passage (by rw [left]; rfl) second),
    Work.bind_of_ok (arguments_complete full _ third (Nat.lt_succ_self _) forms stop),
    Work.bind_of_ok (expect_of_passage (by rw [right]; rfl) last)]
  rfl

/-- Without a guard, statements are a list with semicolons. -/
theorem statementsOf_eq (full : g.Full) (statement : Parse Stmt) :
    g.statementsOf statement = separated g.lexis (.punctuation .semicolon) statement := by
  funext r
  unfold statementsOf
  cases read : separated g.lexis (.punctuation .semicolon) statement r with
  | ok statements s =>
    rw [Work.bind_of_ok read, kind_bind, full.guardsNames]
    rfl
  | error fault s => rw [Work.bind_of_error read]

/-- What a compound statement reads is one, if its children are statements. -/
theorem compoundOf_sound (full : g.Full) {rule : Parse Stmt}
    (sound : Sound g.lexis rule (DerivesStmt g)) :
    Sound g.lexis (g.compoundOf rule) (fun ms children => DerivesStmt g ms (.compound children)) := by
  intro r s children h
  obtain ⟨_, t, opened, h⟩ := Work.bind_eq_ok.mp h
  obtain ⟨statements, u, read, h⟩ := Work.bind_eq_ok.mp h
  obtain ⟨_, v, closed, h⟩ := Work.bind_eq_ok.mp h
  cases h
  rw [statementsOf_eq full] at read
  obtain ⟨m, word, passage⟩ := (expect_eq_ok rfl).mp opened
  obtain ⟨ms, passage₁, forms⟩ := separated_sound sound read
  obtain ⟨n, word', passage₂⟩ := (expect_eq_ok rfl).mp closed
  exact ⟨_, passage.step (passage₁.append passage₂), .compound word forms word'⟩

/-- A token that ends a statement. -/
def EndsStmt (t : Token) : Prop :=
  t.kind = .punctuation .semicolon ∨ t.kind = .reserved .endBlock

/-- A compound statement is read, whatever follows it, if its children are. -/
theorem compoundOf_complete (full : g.Full) {bound : Nat} {rule : Parse Stmt}
    (complete : Complete g.lexis bound rule (DerivesStmt g) EndsStmt) {r s : Reading}
    {ms : List Mark} {children : List Stmt} (passage : Passage g.lexis r ms s)
    (short : ms.length ≤ bound) (form : DerivesStmt g ms (.compound children)) :
    g.compoundOf rule r = .ok children s := by
  cases form with
  | @compound m n ms _ word forms word' =>
    obtain ⟨t, first, rest⟩ := Passage.step_iff.mp passage
    obtain ⟨u, middle, last⟩ := Passage.append_iff.mp rest
    rw [List.length_cons, List.length_append] at short
    have stop : u.token.kind = .reserved .endBlock := by
      rw [last.token_eq, Mark.token, word']
      rfl
    have read : g.statementsOf rule t = .ok children u := by
      rw [statementsOf_eq full]
      refine separated_complete .inl complete middle (by omega) forms ⟨.inr stop, ?_⟩
      rw [stop]
      exact fun same => by cases same
    rw [compoundOf, Work.bind_of_ok (expect_of_passage (by rw [word]; rfl) first),
      Work.bind_of_ok read, Work.bind_of_ok (expect_of_passage (by rw [word']; rfl) last)]
    rfl

/-- The choice between a call and an assignment. -/
theorem startsCall_bind {call assignment : Parse Stmt} {r : Reading} :
    (do if ← g.startsCall then call else assignment : Parse Stmt) r =
      if g.calls = true ∧ r.cursor.char? = some '(' then call r else assignment r := by
  rw [startsCall, bind_assoc, Work.get_bind]
  simp only [pure_bind, Bool.and_eq_true, decide_eq_true_eq]
  split <;> rfl

/-- What a statement reads is one, at every level of nesting. -/
theorem statementWithin_sound (full : g.Full) (n : Nat) :
    Sound g.lexis (g.statementWithin n) (DerivesStmt g) := by
  induction n with
  | zero =>
    intro r s statement h
    cases h
  | succ n ih =>
    intro r s statement h
    rw [statementWithin, kind_bind] at h
    obtain ⟨rule, chosen, h⟩ := Work.exists_chosen h
    split at chosen
    · subst chosen
      obtain ⟨children, t, read, h⟩ := Work.bind_eq_ok.mp h
      cases h
      exact compoundOf_sound full ih read
    · subst chosen
      rw [startsCall_bind] at h
      split at h
      · rename_i starts
        exact call_sound full starts.1 starts.2 h
      · exact assignment_sound full h
    · subst chosen
      cases h
      exact ⟨[], .nil r, .empty⟩

/-- Where calls are possible, the token behind one that a parenthesis directly follows is that
parenthesis. -/
theorem Full.token_behind (full : g.Full) (calls : g.calls = true) {r t : Reading} {u : Unit}
    (paren : r.cursor.char? = some '(') (step : Parse.next g.lexis r = .ok u t) :
    t.token = .lexeme (.punctuation .leftParen) r.cursor.place := by
  have read := Parse.next_ok step
  rw [full.paren calls _ paren] at read
  injection read with same
  exact same.symm

/-- So the mark behind a name that touches a parenthesis is that of the parenthesis. -/
theorem Full.lexeme_behind (full : g.Full) (calls : g.calls = true) {r s : Reading} {m n : Mark}
    {ms : List Mark} (passage : Passage g.lexis r (m :: n :: ms) s) (paren : m.behind = some '(') :
    n.lexeme = .punctuation .leftParen := by
  obtain ⟨t, first, rest⟩ := Passage.step_iff.mp passage
  have token := full.token_behind calls (first.behind_eq.trans paren) (next_of_passage first)
  rw [rest.token_eq] at token
  injection token

/-- A statement is read if a token that ends statements follows it and there are levels of nesting
for its marks. -/
theorem statementWithin_complete (full : g.Full) (n : Nat) :
    Complete g.lexis n (g.statementWithin n) (DerivesStmt g) EndsStmt := by
  induction n with
  | zero =>
    intro r s ms statement _ short
    exact absurd short (Nat.not_lt_zero _)
  | succ n ih =>
    intro r s ms statement passage short form stop
    cases form with
    | @compound m k ms children word forms word' =>
      have kind : r.token.kind = .reserved .beginBlock := by
        rw [passage.token_eq, Mark.token, word]
        rfl
      simp only [statementWithin, kind_bind, kind]
      rw [Work.bind_of_ok (compoundOf_complete full ih passage (by omega)
        (.compound word forms word'))]
      rfl
    | @call m k l ms name es calls procedure paren left forms right =>
      have kind : r.token.kind = .name := by
        rw [passage.token_eq, Mark.token, procedure]
        rfl
      simp only [statementWithin, kind_bind, kind]
      rw [startsCall_bind, if_pos ⟨calls, passage.behind_eq.trans paren⟩]
      exact call_of_passage full passage procedure left forms right
    | @assign m k ms name e target mark form =>
      have kind : r.token.kind = .name := by
        rw [passage.token_eq, Mark.token, target]
        rfl
      -- behind the name of an assignment there is no parenthesis
      have noCall : ¬(g.calls = true ∧ r.cursor.char? = some '(') := by
        rintro ⟨calls, paren⟩
        have left := full.lexeme_behind calls passage (passage.behind_eq.symm.trans paren)
        rw [mark] at left
        cases left
      have noOperator : NoOperator s.token := by
        intro o same
        rcases stop with stop | stop <;> · rw [stop] at same; cases same
      simp only [statementWithin, kind_bind, kind]
      rw [startsCall_bind, if_neg noCall]
      exact assignment_of_passage full passage target mark form noOperator
    | empty =>
      obtain rfl := Passage.nil_iff.mp passage
      rcases stop with stop | stop <;> · simp only [statementWithin, kind_bind, stop]; rfl

/-- What a compound statement reads is one. -/
theorem compound_sound (full : g.Full) :
    Sound g.lexis g.compound (fun ms children => DerivesStmt g ms (.compound children)) := by
  intro r s children h
  rw [compound, budget_bind] at h
  exact compoundOf_sound full (statementWithin_sound full _) h

/-- A compound statement is read, whatever follows it. -/
theorem compound_complete (full : g.Full) {r s : Reading} {ms : List Mark} {children : List Stmt}
    (passage : Passage g.lexis r ms s) (form : DerivesStmt g ms (.compound children)) :
    g.compound r = .ok children s := by
  rw [compound, budget_bind]
  exact compoundOf_complete full (statementWithin_complete full _) passage
    (Nat.le_of_lt passage.length_lt_budget) form

/-! ## Declarations -/

/-- What a type reads is one. -/
theorem typeRef_sound : Sound g.lexis g.typeRef DerivesType := by
  intro r s type h
  rw [typeRef, current_bind] at h
  obtain ⟨rule, chosen, h⟩ := Work.exists_chosen h
  split at chosen
  · rename_i place token
    subst chosen
    obtain ⟨_, t, step, h⟩ := Work.bind_eq_ok.mp h
    cases h
    exact ⟨_, passage_of_next token step, .word rfl⟩
  · rename_i place token
    subst chosen
    obtain ⟨_, t, step, h⟩ := Work.bind_eq_ok.mp h
    cases h
    exact ⟨_, passage_of_next token step, .word rfl⟩
  · subst chosen
    cases h

/-- A type is read, whatever follows it. -/
theorem typeRef_of_passage {r s : Reading} {ms : List Mark} {type : TypeRef}
    (passage : Passage g.lexis r ms s) (form : DerivesType ms type) : g.typeRef r = .ok type s := by
  obtain @⟨m, base, mark⟩ := form
  have token : r.token = .lexeme (.reserved base.word) m.place := by
    rw [passage.token_eq, Mark.token, mark]
  cases base with
  | integer | real =>
    simp only [BaseType.word] at token
    simp only [typeRef, current_bind, token]
    exact Work.bind_of_ok (next_of_passage passage)

/-- What names with a type read are names with a type. -/
theorem bindings_sound : Sound g.lexis g.bindings DerivesBindings := by
  intro r s group h
  obtain ⟨names, t, read, h⟩ := Work.bind_eq_ok.mp h
  obtain ⟨_, u, colon, h⟩ := Work.bind_eq_ok.mp h
  obtain ⟨type, v, read', h⟩ := Work.bind_eq_ok.mp h
  cases h
  obtain ⟨ms, passage, forms⟩ := separated_sound ident_sound read
  obtain ⟨m, mark, passage₁⟩ := (expect_eq_ok rfl).mp colon
  obtain ⟨ns, passage₂, form⟩ := typeRef_sound read'
  exact ⟨_, passage.append (passage₁.step passage₂), .group forms mark form⟩

/-- Names with a type are read, whatever follows them. -/
theorem bindings_complete (bound : Nat) (Stop : Token → Prop) :
    Complete g.lexis bound g.bindings DerivesBindings Stop := by
  rintro r s ms group passage - form -
  obtain @⟨m, us, vs, ids, type, forms, mark, form⟩ := form
  obtain ⟨t, first, rest⟩ := Passage.append_iff.mp passage
  obtain ⟨u, second, last⟩ := Passage.step_iff.mp rest
  have stop : t.token.kind ≠ .punctuation .comma := by
    rw [second.token_eq, Mark.token, mark]
    exact fun same => by cases same
  have names := separated_complete (fun _ => trivial) (ident_complete _ fun _ => True) first
    (Nat.lt_succ_self _) forms ⟨trivial, stop⟩
  rw [bindings, Work.bind_of_ok names, Work.bind_of_ok (expect_of_passage (by rw [mark]; rfl) second),
    Work.bind_of_ok (typeRef_of_passage last form)]
  rfl

/-- Names with a type begin with a name. -/
theorem derivesBindings_opens {ms : List Mark} {group : List Binding} (h : DerivesBindings ms group) :
    ∃ m ns, ms = m :: ns ∧ m.lexeme.kind = .name := by
  obtain ⟨forms, _, _⟩ := h
  obtain ⟨us, vs, id, rest, rfl, rfl, ⟨name⟩, _⟩ := separated_iff.mp forms
  exact ⟨_, _, rfl, by rw [name]; rfl⟩

/-- What the parameters of a procedure read are parameters. -/
theorem parameterSection_sound (full : g.Full) :
    Sound g.lexis g.parameterSection DerivesParameters := by
  intro r s parameters h
  rw [parameterSection, kind_bind, full.parameters, Bool.true_and] at h
  split at h
  · rename_i opened
    rw [decide_eq_true_eq] at opened
    obtain ⟨p, token⟩ := (Token.kind_eq_iff rfl).mp opened
    obtain ⟨_, t, step, h⟩ := Work.bind_eq_ok.mp h
    obtain ⟨found, u, read, h⟩ := Work.bind_eq_ok.mp h
    obtain ⟨_, v, closed, h⟩ := Work.bind_eq_ok.mp h
    cases h
    obtain ⟨m, right, passage⟩ := (expect_eq_ok rfl).mp closed
    rw [parameterList, kind_bind] at read
    split at read
    · obtain ⟨groups, w, read, h⟩ := Work.bind_eq_ok.mp read
      cases h
      obtain ⟨ms, passage', forms⟩ := separated_sound bindings_sound read
      exact ⟨_, (passage_of_next token step).step (passage'.append passage), .some rfl forms right⟩
    · cases read
      exact ⟨_, (passage_of_next token step).step passage, .none rfl right⟩
  · cases h
    exact ⟨[], .nil r, .absent⟩

/-- The parameters of a procedure are read if no parenthesis follows them. -/
theorem parameterSection_of_passage (full : g.Full) {r s : Reading} {ms : List Mark}
    {parameters : List Binding} (passage : Passage g.lexis r ms s)
    (form : DerivesParameters ms parameters) (stop : s.token.kind ≠ .punctuation .leftParen) :
    g.parameterSection r = .ok parameters s := by
  rw [parameterSection, kind_bind, full.parameters, Bool.true_and]
  cases form with
  | absent =>
    obtain rfl := Passage.nil_iff.mp passage
    rw [decide_eq_false stop]
    rfl
  | @none m n left right =>
    obtain ⟨t, first, last⟩ := Passage.step_iff.mp passage
    have opened : r.token.kind = .punctuation .leftParen := by
      rw [first.token_eq, Mark.token, left]
      rfl
    have closed : t.token.kind ≠ .name := by
      rw [last.token_eq, Mark.token, right]
      exact fun same => by cases same
    have read : g.parameterList t = .ok [] t := by
      rw [parameterList, kind_bind, if_neg closed]
      rfl
    rw [if_pos (decide_eq_true opened), Work.bind_of_ok (next_of_passage first),
      Work.bind_of_ok read, Work.bind_of_ok (expect_of_passage (by rw [right]; rfl) last)]
    rfl
  | @some m n ms groups left forms right =>
    obtain ⟨t, first, rest⟩ := Passage.step_iff.mp passage
    obtain ⟨u, middle, last⟩ := Passage.append_iff.mp rest
    have opened : r.token.kind = .punctuation .leftParen := by
      rw [first.token_eq, Mark.token, left]
      rfl
    -- the rule looks for a name to tell parameters from an empty pair of parentheses
    have named : t.token.kind = .name := by
      obtain ⟨us, vs, group, rest, rfl, rfl, form, _⟩ := separated_iff.mp forms
      obtain ⟨k, ks, rfl, kind⟩ := derivesBindings_opens form
      rw [middle.token_eq]
      exact kind
    have closed : u.token.kind ≠ .punctuation .semicolon := by
      rw [last.token_eq, Mark.token, right]
      exact fun same => by cases same
    have read : g.parameterList t = .ok groups.flatten u := by
      rw [parameterList, kind_bind, if_pos named, Work.bind_of_ok
        (separated_complete (fun _ => trivial) (bindings_complete _ fun _ => True) middle
          (Nat.lt_succ_self _) forms ⟨trivial, closed⟩)]
      rfl
    rw [if_pos (decide_eq_true opened), Work.bind_of_ok (next_of_passage first),
      Work.bind_of_ok read, Work.bind_of_ok (expect_of_passage (by rw [right]; rfl) last)]
    rfl

/-- What the section of variables reads are variables, behind the word that opens it. -/
theorem variableSection_sound :
    Sound g.lexis g.variableSection (fun ms declarations => DerivesVariables ms declarations ∧ ms ≠ []) := by
  have groups : Sound g.lexis g.variableDecls DerivesGroup := by
    intro r s declarations h
    obtain ⟨group, t, read, h⟩ := Work.bind_eq_ok.mp h
    obtain ⟨_, u, mark, h⟩ := Work.bind_eq_ok.mp h
    cases h
    obtain ⟨ms, passage, form⟩ := bindings_sound read
    obtain ⟨m, semicolon, passage'⟩ := (expect_eq_ok rfl).mp mark
    exact ⟨_, passage.append passage', .group form semicolon⟩
  intro r s declarations h
  obtain ⟨_, t, word, h⟩ := Work.bind_eq_ok.mp h
  obtain ⟨found, u, read, h⟩ := Work.bind_eq_ok.mp h
  cases h
  obtain ⟨m, var, passage⟩ := (expect_eq_ok rfl).mp word
  obtain ⟨ms, passage', forms⟩ := many_sound groups read
  exact ⟨_, passage.step passage', .some var forms, List.cons_ne_nil _ _⟩

/-- A section of variables is read if no name follows it. -/
theorem variableSection_of_passage {r s : Reading} {m : Mark} {ms : List Mark}
    {groups : List (List Decl)} (passage : Passage g.lexis r (m :: ms) s)
    (word : m.lexeme = .reserved .var) (forms : Repeated DerivesGroup ms groups)
    (stop : s.token.kind ≠ .name) : g.variableSection r = .ok groups.flatten s := by
  have opens : ∀ {ms declarations}, DerivesGroup ms declarations →
      ∃ m ns, ms = m :: ns ∧ m.lexeme.kind = .name := by
    rintro _ _ ⟨form, _⟩
    obtain ⟨m, ns, rfl, kind⟩ := derivesBindings_opens form
    exact ⟨m, _, rfl, kind⟩
  have complete : Complete g.lexis (ms.length + 1) g.variableDecls DerivesGroup fun _ => True := by
    rintro r s ms declarations passage - ⟨form, semicolon⟩ -
    obtain ⟨t, first, last⟩ := Passage.append_iff.mp passage
    rw [variableDecls, Work.bind_of_ok (bindings_complete _ (fun _ => True) first
      (Nat.lt_succ_self _) form trivial),
      Work.bind_of_ok (expect_of_passage (by rw [semicolon]; rfl) last)]
    rfl
  obtain ⟨t, first, rest⟩ := Passage.step_iff.mp passage
  rw [variableSection, Work.bind_of_ok (expect_of_passage (by rw [word]; rfl) first),
    Work.bind_of_ok (many_complete opens (fun _ => trivial) complete rest (Nat.lt_succ_self _) forms
      ⟨trivial, stop⟩)]
  rfl

/-! ## Blocks -/

/-- What a procedure reads is one, if its block is a block. -/
theorem procedureOf_sound (full : g.Full) {block : Parse Block}
    (sound : Sound g.lexis block (DerivesBlock g)) :
    Sound g.lexis (g.procedureOf block) (DerivesProcedure g) := by
  intro r s procedure h
  obtain ⟨_, t, word, h⟩ := Work.bind_eq_ok.mp h
  obtain ⟨id, t₁, read, h⟩ := Work.bind_eq_ok.mp h
  obtain ⟨parameters, t₂, read₁, h⟩ := Work.bind_eq_ok.mp h
  obtain ⟨_, t₃, mark, h⟩ := Work.bind_eq_ok.mp h
  obtain ⟨inner, t₄, read₂, h⟩ := Work.bind_eq_ok.mp h
  obtain ⟨_, t₅, mark', h⟩ := Work.bind_eq_ok.mp h
  cases h
  obtain ⟨m, reserved, passage⟩ := (expect_eq_ok rfl).mp word
  obtain ⟨_, passage₁, ⟨name⟩⟩ := ident_sound read
  obtain ⟨ms, passage₂, form⟩ := parameterSection_sound full read₁
  obtain ⟨k, semicolon, passage₃⟩ := (expect_eq_ok rfl).mp mark
  obtain ⟨ns, passage₄, form'⟩ := sound read₂
  obtain ⟨l, semicolon', passage₅⟩ := (expect_eq_ok rfl).mp mark'
  exact ⟨_, passage.step (passage₁.step (passage₂.append (passage₃.step
    (passage₄.append passage₅)))), .procedure reserved name form semicolon form' semicolon'⟩

/-- A procedure is read, whatever follows it, if its block is. -/
theorem procedureOf_complete (full : g.Full) {bound : Nat} {block : Parse Block}
    (complete : Complete g.lexis bound block (DerivesBlock g) fun _ => True) :
    Complete g.lexis bound (g.procedureOf block) (DerivesProcedure g) fun _ => True := by
  rintro r s _ _ passage short ⟨reserved, name, form, semicolon, form', semicolon'⟩ -
  obtain ⟨t, first, rest⟩ := Passage.step_iff.mp passage
  obtain ⟨t₁, second, rest⟩ := Passage.step_iff.mp rest
  obtain ⟨t₂, third, rest⟩ := Passage.append_iff.mp rest
  obtain ⟨t₃, fourth, rest⟩ := Passage.step_iff.mp rest
  obtain ⟨t₄, fifth, last⟩ := Passage.append_iff.mp rest
  simp only [List.length_cons, List.length_append] at short
  have stop : t₂.token.kind ≠ .punctuation .leftParen := by
    rw [fourth.token_eq, Mark.token, semicolon]
    exact fun same => by cases same
  rw [procedureOf, Work.bind_of_ok (expect_of_passage (by rw [reserved]; rfl) first),
    Work.bind_of_ok (ident_of_passage name second),
    Work.bind_of_ok (parameterSection_of_passage full third form stop),
    Work.bind_of_ok (expect_of_passage (by rw [semicolon]; rfl) fourth),
    Work.bind_of_ok (complete fifth (by omega) form' trivial),
    Work.bind_of_ok (expect_of_passage (by rw [semicolon']; rfl) last)]
  rfl

/-- A procedure begins with its word. -/
theorem derivesProcedure_opens {ms : List Mark} {procedure : Decl}
    (h : DerivesProcedure g ms procedure) :
    ∃ m ns, ms = m :: ns ∧ m.lexeme.kind = .reserved .procedure := by
  obtain ⟨reserved, _⟩ := h
  exact ⟨_, _, rfl, by rw [reserved]; rfl⟩

/-- The section of variables, which may be left out. -/
def vars (g : Grammar) : Parse (List Decl) := do
  if (← kind) = .reserved .var then g.variableSection else return []

/-- Declarations in a fixed order are variables and then procedures. -/
theorem declarationsOf_eq (ordered : g.interleaved = false) (block : Parse Block) :
    g.declarationsOf block =
      g.vars >>= fun vars => many (.reserved .procedure) (g.procedureOf block) >>=
        fun procedures => pure (vars ++ procedures) := by
  funext r
  rw [declarationsOf, ordered, vars, bind_assoc, kind_bind]
  simp only [Bool.false_eq_true, if_false, kind_bind]
  split <;> rfl

/-- What is read as variables are variables. -/
theorem vars_sound : Sound g.lexis g.vars DerivesVariables := by
  intro r s declarations h
  rw [vars, kind_bind] at h
  split at h
  · obtain ⟨ms, passage, form, _⟩ := variableSection_sound h
    exact ⟨ms, passage, form⟩
  · cases h
    exact ⟨[], .nil r, .absent⟩

/-- Variables are read if procedures or statements follow them. -/
theorem vars_of_passage {r s : Reading} {ms : List Mark} {declarations : List Decl}
    (passage : Passage g.lexis r ms s) (form : DerivesVariables ms declarations)
    (follows : s.token.kind = .reserved .procedure ∨ s.token.kind = .reserved .beginBlock) :
    g.vars r = .ok declarations s := by
  rw [vars, kind_bind]
  cases form with
  | absent =>
    obtain rfl := Passage.nil_iff.mp passage
    have other : r.token.kind ≠ .reserved .var := by
      rcases follows with kind | kind <;> · rw [kind]; exact fun same => by cases same
    rw [if_neg other]
    rfl
  | @some m ms groups word forms =>
    have kind : r.token.kind = .reserved .var := by
      rw [passage.token_eq, Mark.token, word]
      rfl
    have other : s.token.kind ≠ .name := by
      rcases follows with kind | kind <;> · rw [kind]; exact fun same => by cases same
    rw [if_pos kind]
    exact variableSection_of_passage passage word forms other

/-- Where procedures stand before statements, either of the two follows. -/
theorem follows_of_repeated {r s : Reading} {ms : List Mark} {procedures : List Decl}
    (passage : Passage g.lexis r ms s) (forms : Repeated (DerivesProcedure g) ms procedures)
    (begins : s.token.kind = .reserved .beginBlock) :
    r.token.kind = .reserved .procedure ∨ r.token.kind = .reserved .beginBlock := by
  cases forms with
  | nil =>
    obtain rfl := Passage.nil_iff.mp passage
    exact .inr begins
  | cons form _ =>
    obtain ⟨m, ms, rfl, kind⟩ := derivesProcedure_opens form
    rw [passage.token_eq]
    exact .inl kind

/-- What declarations read are variables and then procedures, if the blocks in them are blocks. -/
theorem declarationsOf_sound (full : g.Full) {block : Parse Block}
    (sound : Sound g.lexis block (DerivesBlock g)) :
    Sound g.lexis (g.declarationsOf block) (fun us declarations => ∃ ms ns vars procedures,
      us = ms ++ ns ∧ declarations = vars ++ procedures ∧ DerivesVariables ms vars ∧
        Repeated (DerivesProcedure g) ns procedures) := by
  intro r s declarations h
  rw [declarationsOf_eq full.interleaved] at h
  obtain ⟨vars, t, readVars, h⟩ := Work.bind_eq_ok.mp h
  obtain ⟨procedures, u, readProcedures, h⟩ := Work.bind_eq_ok.mp h
  cases h
  obtain ⟨ms, passage, form⟩ := vars_sound readVars
  obtain ⟨ns, passage', forms⟩ := many_sound (procedureOf_sound full sound) readProcedures
  exact ⟨_, passage.append passage', ms, ns, vars, procedures, rfl, rfl, form, forms⟩

/-- What a block reads is one, at every level of nesting. -/
theorem blockWithin_sound (full : g.Full) (n : Nat) :
    Sound g.lexis (g.blockWithin n) (DerivesBlock g) := by
  induction n with
  | zero =>
    intro r s b h
    cases h
  | succ n ih =>
    intro r s b h
    obtain ⟨declarations, t, read, h⟩ := Work.bind_eq_ok.mp h
    obtain ⟨body, u, read₁, h⟩ := Work.bind_eq_ok.mp h
    cases h
    obtain ⟨_, passage, ms, ns, vars, procedures, rfl, rfl, form, forms⟩ :=
      declarationsOf_sound full ih read
    obtain ⟨ks, passage', form'⟩ := compound_sound full read₁
    have whole := passage.append passage'
    rw [List.append_assoc] at whole
    exact ⟨_, whole, .block form forms form'⟩

/-- Declarations are read if statements follow them and the blocks in them are read. -/
theorem declarationsOf_of_passage (full : g.Full) {bound : Nat} {block : Parse Block}
    (complete : Complete g.lexis bound block (DerivesBlock g) fun _ => True) {r s t : Reading}
    {ms ns : List Mark} {vars procedures : List Decl} (first : Passage g.lexis r ms s)
    (second : Passage g.lexis s ns t) (short : ns.length < bound)
    (form : DerivesVariables ms vars) (forms : Repeated (DerivesProcedure g) ns procedures)
    (begins : t.token.kind = .reserved .beginBlock) :
    g.declarationsOf block r = .ok (vars ++ procedures) t := by
  have none : t.token.kind ≠ .reserved .procedure := by
    rw [begins]
    exact fun same => by cases same
  rw [declarationsOf_eq full.interleaved,
    Work.bind_of_ok (vars_of_passage first form (follows_of_repeated second forms begins)),
    Work.bind_of_ok (many_complete derivesProcedure_opens (fun _ => trivial)
      (procedureOf_complete full complete) second short forms ⟨trivial, none⟩)]
  rfl

/-- A block is read, whatever follows it, if there are levels of nesting for its marks. -/
theorem blockWithin_complete (full : g.Full) (n : Nat) :
    Complete g.lexis n (g.blockWithin n) (DerivesBlock g) fun _ => True := by
  induction n with
  | zero =>
    intro r s ms b _ short
    exact absurd short (Nat.not_lt_zero _)
  | succ n ih =>
    intro r s ms b passage short form _
    obtain @⟨ms, ns, ks, vars, procedures, body, form, forms, form'⟩ := form
    obtain ⟨t, first, rest⟩ := Passage.append_iff.mp passage
    obtain ⟨u, second, last⟩ := Passage.append_iff.mp rest
    simp only [List.length_append] at short
    -- the statements behind the declarations begin with their word
    have begins : u.token.kind = .reserved .beginBlock ∧ 0 < ks.length := by
      cases form' with
      | compound word _ _ =>
        rw [last.token_eq, Mark.token, word]
        exact ⟨rfl, Nat.succ_pos _⟩
    have read := declarationsOf_of_passage full ih first second (by omega) form forms begins.1
    rw [blockWithin, Work.bind_of_ok read, Work.bind_of_ok (compound_complete full last form')]
    rfl

/-! ## Programs -/

/-- What a program reads is one. -/
theorem program_sound (full : g.Full) : Sound g.lexis g.program g.Derives := by
  intro r s p h
  obtain ⟨_, t, word, h⟩ := Work.bind_eq_ok.mp h
  obtain ⟨id, t₁, read, h⟩ := Work.bind_eq_ok.mp h
  obtain ⟨_, t₂, mark, h⟩ := Work.bind_eq_ok.mp h
  obtain ⟨b, t₃, read₁, h⟩ := Work.bind_eq_ok.mp h
  obtain ⟨_, t₄, mark', h⟩ := Work.bind_eq_ok.mp h
  cases h
  rw [block, budget_bind] at read₁
  obtain ⟨m, reserved, passage⟩ := (expect_eq_ok rfl).mp word
  obtain ⟨_, passage₁, ⟨name⟩⟩ := ident_sound read
  obtain ⟨k, semicolon, passage₂⟩ := (expect_eq_ok rfl).mp mark
  obtain ⟨ms, passage₃, form⟩ := blockWithin_sound full _ read₁
  obtain ⟨l, dot, passage₄⟩ := (expect_eq_ok rfl).mp mark'
  exact ⟨_, passage.step (passage₁.step (passage₂.step (passage₃.append passage₄))),
    .program reserved name semicolon form dot⟩

/-- A program is read if its block is. -/
theorem program_of_block {r s : Reading} {m n k l : Mark} {ms : List Mark} {name : String} {b : Block}
    (passage : Passage g.lexis r (m :: n :: k :: (ms ++ [l])) s) (reserved : m.lexeme = .reserved .program)
    (named : n.lexeme = .name name) (semicolon : k.lexeme = .punctuation .semicolon)
    (read : ∀ {t u : Reading}, Passage g.lexis t ms u → g.block t = .ok b u)
    (dot : l.lexeme = .punctuation .dot) : g.program r = .ok ⟨name, b⟩ s := by
  obtain ⟨t, first, rest⟩ := Passage.step_iff.mp passage
  obtain ⟨t₁, second, rest⟩ := Passage.step_iff.mp rest
  obtain ⟨t₂, third, rest⟩ := Passage.step_iff.mp rest
  obtain ⟨t₃, fourth, last⟩ := Passage.append_iff.mp rest
  rw [program, Work.bind_of_ok (expect_of_passage (by rw [reserved]; rfl) first),
    Work.bind_of_ok (ident_of_passage named second),
    Work.bind_of_ok (expect_of_passage (by rw [semicolon]; rfl) third), Work.bind_of_ok (read fourth),
    Work.bind_of_ok (expect_of_passage (by rw [dot]; rfl) last)]
  rfl

/-- A program is read, whatever follows it. -/
theorem program_complete (full : g.Full) {r s : Reading} {ms : List Mark} {p : Program}
    (passage : Passage g.lexis r ms s) (form : g.Derives ms p) : g.program r = .ok p s := by
  obtain @⟨_, _, _, _, _, _, b, reserved, name, semicolon, form, dot⟩ := form
  refine program_of_block passage reserved name semicolon (fun inner => ?_) dot
  rw [block, budget_bind]
  exact blockWithin_complete full _ inner inner.length_lt_budget form trivial

/-- With a header the largest rule is that of programs. -/
theorem whole_headed (holes : g.holes = false) (header : g.header = true) :
    g.whole = g.program >>= fun p => pure (.program p) := by
  rw [whole, holes, header]
  rfl

/-- Without one it is that of compound statements with a point behind them. -/
theorem whole_bare (holes : g.holes = false) (header : g.header = false) :
    g.whole = g.bareProgram >>= fun s => pure (.stmt s) := by
  rw [whole, holes, header]
  rfl

/-- A whole text is a program with the end of the text behind it. -/
theorem parse_eq (full : g.Full) (r : Reading) :
    g.parse r =
      match g.program r with
      | .ok p s =>
        if s.token = .endOfText then .ok (.program p) s else .error (.unexpected s.token) s
      | .error fault s => .error fault s := by
  rw [parse, whole_headed full.holes full.header, full.holes, bind_assoc]
  cases read : g.program r with
  | error fault s => rw [Work.bind_of_error read]
  | ok p s =>
    rw [Work.bind_of_ok read, pure_bind, kind_bind]
    by_cases last : s.token = .endOfText
    · simp only [last, if_true]
      rfl
    · have kind : s.token.kind ≠ .endOfText := fun same => last (Token.kind_eq_endOfText_iff.mp same)
      simp only [last, if_false]
      rw [decide_eq_true kind]
      rfl

/-- A whole text is read exactly if a program leads to its end. -/
theorem parse_eq_ok (full : g.Full) {r s : Reading} {node : Node} :
    g.parse r = .ok node s ↔
      s.token = .endOfText ∧
        ∃ ms p, Passage g.lexis r ms s ∧ node = .program p ∧ g.Derives ms p := by
  rw [parse_eq full]
  constructor
  · intro h
    cases read : g.program r with
    | error fault u =>
      rw [read] at h
      cases h
    | ok p u =>
      obtain ⟨ms, passage, form⟩ := program_sound full read
      rw [read] at h
      dsimp only at h
      split at h
      · rename_i last
        cases h
        exact ⟨last, ms, p, passage, rfl, form⟩
      · cases h
  · rintro ⟨last, ms, p, passage, rfl, form⟩
    rw [program_complete full passage form]
    exact if_pos last

end Grammar

/-! ## The last editions -/

namespace Edition

/-- Every edition with words and parentheses reads a parenthesis where one stands. -/
theorem token_leftParen {e : Edition} {limit : DigitLimit}
    (mark : e.mark '(' = some (.punctuation .leftParen)) {c : Cursor} (h : c.char? = some '(') :
    (e.lexis limit).token c = .ok (.lexeme (.punctuation .leftParen) c.place) c.advance := by
  obtain ⟨rest, left⟩ := List.head?_eq_some_iff.mp h
  have layout : (e.lexis limit).opensLayout '(' = false := by
    rw [Lexis.opensLayout, show ('(' == '\x7b') = false from rfl, Bool.and_false]
    rfl
  exact (Lexis.spells_mark layout rfl rfl mark (fun colon => by cases colon)).2 c left

/-- The last edition, with calls. -/
theorem full_calls {limit : DigitLimit} : (Edition.calls.grammar limit).Full where
  signs := rfl
  holes := rfl
  header := rfl
  interleaved := rfl
  parameters := rfl
  guardsNames := rfl
  paren _ _ h := token_leftParen (by decide) h

/-- The edition before the last, which has no calls. -/
theorem full_places {limit : DigitLimit} : (Edition.places.grammar limit).Full where
  signs := rfl
  holes := rfl
  header := rfl
  interleaved := rfl
  parameters := rfl
  guardsNames := rfl
  paren calls := by cases calls

end Edition

section Attempts

variable {α : Type} {lx : Lexis} {rule : Parse α} {text : String} {r s : Reading}

/-- A rule that succeeds from the first token on. -/
theorem Lexis.attempt_of_ok (opened : lx.openReading text = .ok r) {a : α} (h : rule r = .ok a s) :
    lx.attempt rule text = .done a s := by
  rw [attempt, opened]
  simp only [h]

/-- A rule that fails from the first token on. -/
theorem Lexis.attempt_of_error (opened : lx.openReading text = .ok r) {fault : Fault}
    (h : rule r = .error fault s) : lx.attempt rule text = .failed fault s := by
  rw [attempt, opened]
  simp only [h]

/-- A text has a result exactly if the rule succeeds from its first token on. -/
theorem Lexis.attempt_eq_done {a : α} :
    lx.attempt rule text = .done a s ↔ ∃ r, lx.openReading text = .ok r ∧ rule r = .ok a s := by
  constructor
  · intro h
    cases opened : lx.openReading text with
    | error fault => simp [attempt, opened] at h
    | ok r =>
      cases read : rule r with
      | error fault t =>
        rw [attempt_of_error opened read] at h
        cases h
      | ok b t =>
        rw [attempt_of_ok opened read] at h
        cases h
        exact ⟨r, rfl, read⟩
  · rintro ⟨r, opened, read⟩
    exact attempt_of_ok opened read

/-- A text fails exactly if the rule fails from its first token on. -/
theorem Lexis.attempt_eq_failed (opened : lx.openReading text = .ok r) {fault : Fault} :
    lx.attempt rule text = .failed fault s ↔ rule r = .error fault s := by
  cases read : rule r with
  | ok a t =>
    rw [attempt_of_ok opened read]
    simp
  | error fault' t =>
    rw [attempt_of_error opened read]
    simp

/-- The result of reading a text is that of the rule from the first token on. -/
theorem Lexis.attempt_result_eq_ok (opened : lx.openReading text = .ok r) {a : α} :
    (lx.attempt rule text).result = .ok a ↔ ∃ s, rule r = .ok a s := by
  cases read : rule r with
  | ok b t =>
    rw [attempt_of_ok opened read, Attempt.result]
    simp
  | error fault t =>
    rw [attempt_of_error opened read, Attempt.result]
    simp

end Attempts

/-- A text that yields a tree can be read to its end, and its marks derive the tree. -/
theorem Grammar.reads_of_attempt {g : Grammar} (full : g.Full) {text : String} {node : Node}
    {s : Reading} (h : g.lexis.attempt g.parse text = .done node s) :
    ∃ ms p, g.lexis.Reads text ms ∧ node = .program p ∧ g.Derives ms p := by
  obtain ⟨r, opened, h⟩ := Lexis.attempt_eq_done.mp h
  obtain ⟨last, ms, p, passage, same, form⟩ := (parse_eq_ok full).mp h
  exact ⟨ms, p, ⟨r, s, opened, passage, last⟩, same, form⟩

/-- A text whose marks derive a tree yields that tree. -/
theorem Grammar.attempt_of_derives {g : Grammar} (full : g.Full) {text : String} {ms : List Mark}
    (reads : g.lexis.Reads text ms) {p : Program} (form : g.Derives ms p) :
    ∃ reading, g.lexis.attempt g.parse text = .done (.program p) reading := by
  obtain ⟨r, s, opened, passage, last⟩ := reads
  have read := (parse_eq_ok full).mpr ⟨last, ms, p, passage, rfl, form⟩
  exact ⟨s, Lexis.attempt_of_ok opened read⟩

/-- A text that can be read to its end yields a tree exactly if its marks derive that tree. -/
theorem Grammar.attempt_parse_iff {g : Grammar} (full : g.Full) {text : String} {ms : List Mark}
    (reads : g.lexis.Reads text ms) {node : Node} :
    (g.lexis.attempt g.parse text).result = .ok node ↔ ∃ p, node = .program p ∧ g.Derives ms p := by
  obtain ⟨r, s, opened, passage, last⟩ := reads
  rw [Lexis.attempt_result_eq_ok opened]
  constructor
  · rintro ⟨t, h⟩
    obtain ⟨last', ns, p, passage', same, form⟩ := (parse_eq_ok full).mp h
    obtain rfl := passage.unique_of_end last passage' last'
    exact ⟨p, same, form⟩
  · rintro ⟨p, same, form⟩
    exact ⟨s, (parse_eq_ok full).mpr ⟨last, ms, p, passage, same, form⟩⟩

/-- In the last edition, a text that can be read to its end yields a tree exactly if its marks derive
that tree, and they derive no other. -/
theorem parse_iff_derives {text : String} {ms : List Mark}
    (reads : Edition.calls.lexis.Reads text ms) :
    (∀ node, (Edition.calls.lexis.attempt Edition.calls.grammar.parse text).result = .ok node ↔
      ∃ p, node = .program p ∧ Edition.calls.grammar.Derives ms p) ∧
    ∀ p q, Edition.calls.grammar.Derives ms p → Edition.calls.grammar.Derives ms q → p = q := by
  have trees := @Grammar.attempt_parse_iff _ Edition.full_calls text ms reads
  refine ⟨fun _ => trees, fun p q first second => ?_⟩
  -- both trees are the result of the one reading
  have left := trees.mpr ⟨p, rfl, first⟩
  have right := trees.mpr ⟨q, rfl, second⟩
  rw [left] at right
  cases right
  rfl

set_option maxRecDepth 10000 in
/-- A call with an argument, and a chain of differences, which leans to the left. -/
theorem parse_iff_derives_call_and_chain :
    let text := "PROGRAM p; BEGIN f(2); x := 7 - 2 - y END."
    let marks : List Mark :=
      [⟨.reserved .program, ⟨1, 1⟩, ' '⟩, ⟨.name "p", ⟨1, 9⟩, ';'⟩,
       ⟨.punctuation .semicolon, ⟨1, 10⟩, ' '⟩, ⟨.reserved .beginBlock, ⟨1, 12⟩, ' '⟩,
       ⟨.name "f", ⟨1, 18⟩, '('⟩, ⟨.punctuation .leftParen, ⟨1, 19⟩, '2'⟩,
       ⟨.literal (.whole 2), ⟨1, 20⟩, ')'⟩, ⟨.punctuation .rightParen, ⟨1, 21⟩, ';'⟩,
       ⟨.punctuation .semicolon, ⟨1, 22⟩, ' '⟩, ⟨.name "x", ⟨1, 24⟩, ' '⟩,
       ⟨.punctuation .assign, ⟨1, 26⟩, ' '⟩, ⟨.literal (.whole 7), ⟨1, 29⟩, ' '⟩,
       ⟨.operator .minus, ⟨1, 31⟩, ' '⟩, ⟨.literal (.whole 2), ⟨1, 33⟩, ' '⟩,
       ⟨.operator .minus, ⟨1, 35⟩, ' '⟩, ⟨.name "y", ⟨1, 37⟩, ' '⟩,
       ⟨.reserved .endBlock, ⟨1, 39⟩, '.'⟩, ⟨.punctuation .dot, ⟨1, 42⟩, none⟩]
    let tree : Program := ⟨"p", ⟨[],
      [.call ⟨"f", ⟨1, 18⟩⟩ [.literal (.whole 2) ⟨1, 20⟩],
       .assign ⟨"x", ⟨1, 24⟩⟩ ⟨1, 26⟩
        (.binary .minus ⟨1, 35⟩
          (.binary .minus ⟨1, 31⟩ (.literal (.whole 7) ⟨1, 29⟩) (.literal (.whole 2) ⟨1, 33⟩))
          (.var ⟨"y", ⟨1, 37⟩⟩))]⟩⟩
    Edition.calls.lexis.Reads text marks ∧
      (Edition.calls.lexis.attempt Edition.calls.grammar.parse text).result =
        .ok (.program tree) := by
  intro text marks tree
  have reads : Edition.calls.lexis.Reads text marks := by decide
  have call : DerivesStmt Edition.calls.grammar ((marks.drop 4).take 4) _ :=
    .call rfl rfl rfl rfl (.some (.one (.product (.factor (.literal rfl))))) rfl
  have seven : DerivesExpr .factor [marks[11]] _ := .literal rfl
  have two : DerivesExpr .factor [marks[13]] _ := .literal rfl
  have y : DerivesExpr .factor [marks[15]] _ := .var rfl
  have chain : DerivesExpr .sum ((marks.drop 11).take 5) _ :=
    .added (.added (.product (.factor seven)) rfl (by decide) (.factor two)) rfl (by decide)
      (.factor y)
  have assign : DerivesStmt Edition.calls.grammar ((marks.drop 9).take 7) _ :=
    .assign rfl rfl chain
  have body : DerivesStmt Edition.calls.grammar ((marks.drop 3).take 14) _ :=
    .compound rfl (.more call rfl (.one assign)) rfl
  have derives : Edition.calls.grammar.Derives marks tree :=
    .program rfl rfl rfl (.block .absent .nil body) rfl
  exact ⟨reads, ((parse_iff_derives reads).1 _).mpr ⟨tree, rfl, derives⟩⟩

end LittlePascal
