import LittlePascal.Proofs.Prediction
import LittlePascal.Proofs.Recognition

/-! # Refusal

A reading of a grammar without calls refuses the first wrong token. Each rule takes an empty statement, an
absent section or the end of a list by default, whatever token stands there, so a wrong token is often
found by a later rule than the one that met it first. Still no token is passed that begins nothing: every
rule predicts the language of its form, before the tokens that may stand behind that form.

Main definitions: `Grammar.Sentence`, `Grammar.FirstWrong`.

Main statements: `Grammar.program_predicts`, assembled rule by rule, and `places_refuse_first_wrong`: a
token that the edition without calls refuses is the current one, the tokens before it are the beginning
of a program's tokens, and with it they are not. -/

namespace LittlePascal

open scoped Computability

/-- A form that is another one in other words. -/
theorem language_congr {α β : Type} {Form : List Mark → α → Prop} {Form' : List Mark → β → Prop}
    (h : ∀ ms, (∃ a, Form ms a) ↔ ∃ b, Form' ms b) : language Form = language Form' :=
  Language.ext h

/-- There are texts of two languages in sequence. -/
theorem exists_mem_mul {L M : Language Mark} (first : ∃ v, v ∈ L) (second : ∃ v, v ∈ M) :
    ∃ v, v ∈ L * M := by
  obtain ⟨u, inL⟩ := first
  obtain ⟨v, inM⟩ := second
  exact ⟨u ++ v, Language.append_mem_mul inL inM⟩

namespace Grammar

open Parse

variable {g : Grammar} {lx : Lexis}

/-! ## Expressions -/

/-- What begins like a factor. -/
theorem cons_mem_factor {m : Mark} {ms : List Mark} :
    m :: ms ∈ language (DerivesExpr .factor) ↔
      (m.lexeme.kind = .whole ∨ m.lexeme.kind = .real ∨ m.lexeme.kind = .name) ∧ ms = [] ∨
      m.lexeme.kind = .punctuation .leftParen ∧
        ms ∈ language (DerivesExpr .sum) * ofKind (.punctuation .rightParen) ∨
      (m.lexeme.kind = .operator .plus ∨ m.lexeme.kind = .operator .minus) ∧
        ms ∈ language (DerivesExpr .factor) := by
  constructor
  · rintro ⟨e, form⟩
    cases form with
    | @literal _ l mark =>
      rw [mark]
      cases l <;> simp [Lexeme.kind]
    | var mark =>
      rw [mark]
      simp [Lexeme.kind]
    | @signed _ _ sign e mark form =>
      rw [mark]
      have member : ms ∈ language (DerivesExpr .factor) := ⟨e, form⟩
      cases sign <;> simp [Lexeme.kind, Sign.operator, member]
    | @parens _ n us e mark form mark' =>
      rw [mark]
      have member : us ++ [n] ∈ language (DerivesExpr .sum) * ofKind (.punctuation .rightParen) :=
        Language.append_mem_mul ⟨e, form⟩ (mem_ofKind_of_lexeme mark')
      simp [Lexeme.kind, member]
  · rintro (⟨kind, rfl⟩ | ⟨kind, us, ⟨e, form⟩, _, ⟨n, rfl, kind'⟩, rfl⟩ | ⟨kind, e, form⟩)
    · -- only literals and names are of these kinds
      cases lexeme : m.lexeme with
      | literal l => exact ⟨_, .literal lexeme⟩
      | name s => exact ⟨_, .var lexeme⟩
      | operator | reserved | punctuation => simp [lexeme, Lexeme.kind] at kind
    · exact ⟨e, .parens ((Lexeme.kind_eq_iff rfl).mp kind) form ((Lexeme.kind_eq_iff rfl).mp kind')⟩
    · rcases kind with kind | kind
      · exact ⟨_, @DerivesExpr.signed m ms .plus e ((Lexeme.kind_eq_iff rfl).mp kind) form⟩
      · exact ⟨_, @DerivesExpr.signed m ms .minus e ((Lexeme.kind_eq_iff rfl).mp kind) form⟩

/-- Nothing is no factor. -/
theorem nil_not_mem_factor : [] ∉ language (DerivesExpr .factor) := by
  rintro ⟨e, ⟨⟩⟩

/-- There are factors. -/
theorem exists_mem_factor : ∃ v, v ∈ language (DerivesExpr .factor) :=
  ⟨[⟨.name "", ⟨1, 1⟩, none⟩], _, .var rfl⟩

/-- There are sums. -/
theorem exists_mem_sum : ∃ v, v ∈ language (DerivesExpr .sum) := by
  obtain ⟨v, e, form⟩ := exists_mem_factor
  exact ⟨v, e, .product (.factor form)⟩

/-- A chain is foreseen if its operands are, each of them before an operator of the chain or before what
is behind it, which is no such operator. -/
theorem chain_predicts {operators : List Operator} {operand : Parse Expr} {L : Language Mark}
    {F G : Kind → Prop} (predicts : Predicts g.lexis L G operand) (inhabited : ∃ v, v ∈ L)
    (again : ∀ {o}, o ∈ operators → G (.operator o))
    (ends : ∀ {k}, F k → G k ∧ ∀ o ∈ operators, k ≠ .operator o) :
    Predicts g.lexis (L * (ofOperators operators * L)∗) F (g.chain operators operand) := by
  intro r
  refine Foreseen.bind (predicts r) (fun first s => ?_) (leads_chain again ends)
    ⟨[], Language.nil_mem_kstar _⟩
  rw [budget_bind]
  exact foldLeft_predicts predicts inhabited again ends _ first s

/-- A product is foreseen if its factors are. -/
theorem product_predicts {rule : Parse Expr}
    (predicts : Predicts g.lexis (language (DerivesExpr .factor)) (fun _ => True) rule) :
    Predicts g.lexis (language (DerivesExpr .product))
      (fun k => ∀ o ∈ [Operator.times, .div, .slash], k ≠ .operator o) (g.product rule) := by
  rw [language_congr fun ms => exists_congr fun e => derivesProduct_iff, language_leftChain]
  exact chain_predicts predicts exists_mem_factor (fun _ => trivial) fun follow => ⟨trivial, follow⟩

/-- A sum is foreseen if its factors are and no operator follows it. -/
theorem sum_predicts {rule : Parse Expr}
    (predicts : Predicts g.lexis (language (DerivesExpr .factor)) (fun _ => True) rule) :
    Predicts g.lexis (language (DerivesExpr .sum)) (fun k => ∀ o, k ≠ .operator o) (g.sum rule) := by
  rw [language_congr fun ms => exists_congr fun e => derivesSum_iff, language_leftChain]
  refine chain_predicts (product_predicts predicts) ?_ ?_ fun follow =>
    ⟨fun o _ => follow o, fun o _ => follow o⟩
  · obtain ⟨v, e, form⟩ := exists_mem_factor
    exact ⟨v, e, .factor form⟩
  · -- no operator is one of sums and one of products
    intro o member o' member' same
    cases same
    revert member'
    revert member
    cases o <;> decide

/-- Where no other factor begins, a name is expected. -/
theorem lastFactor_foreseen (full : g.Full) {r : Reading}
    (other : r.token.kind ∉ [.whole, .real, .punctuation .leftParen, .operator .plus,
      .operator .minus]) :
    Foreseen g.lexis (language (DerivesExpr .factor)) (fun _ => True) r (g.lastFactor r) := by
  have outcome : Foreseen g.lexis (ofKind .name) (fun _ => True) r (g.lastFactor r) := by
    rw [lastFactor, full.holes]
    exact (ident_predicts r).map _
  refine outcome.widen ?_ (fun member same => ?_) fun member _ => absurd member nil_not_mem_factor
  · rintro _ ⟨m, rfl, kind⟩
    exact cons_mem_factor.mpr (.inl ⟨.inr (.inr kind), rfl⟩)
  · rw [← same] at other
    rw [cons_mem_factor] at member
    rw [cons_mem_ofKind]
    grind

/-- All outcomes of an operand are foreseen, at every level of nesting. -/
theorem factorWithin_predicts (full : g.Full) (n : Nat) :
    Predicts g.lexis (language (DerivesExpr .factor)) (fun _ => True) (g.factorWithin n) := by
  induction n with
  | zero =>
    -- too deep a nesting is no fault of a token
    exact fun r => .broken fun t => Fault.noConfusion
  | succ n ih =>
    intro r
    have nil : [] ∈ language (DerivesExpr .factor) → ¬True :=
      fun member => absurd member nil_not_mem_factor
    rw [factorWithin, current_bind]
    cases token : r.token with
    | endOfText => exact lastFactor_foreseen full (by simp [token, Token.kind])
    | lexeme l p =>
      cases l with
      | literal v =>
        refine next_bind_foreseen token (pure_predicts _) ⟨[], rfl⟩ (fun kind => ?_) nil
        rw [cons_mem_factor, kind]
        cases v <;> simp [Lexeme.kind]
      | name | reserved => exact lastFactor_foreseen full (by simp [token, Token.kind, Lexeme.kind])
      | operator o =>
        cases o with
        | plus | minus =>
          simp only [full.signs, if_true]
          refine next_bind_foreseen token (fun s => (ih s).map _) exists_mem_factor (fun kind => ?_) nil
          rw [cons_mem_factor, kind]
          simp [Lexeme.kind]
        | times | slash | div =>
          exact lastFactor_foreseen full (by simp [token, Token.kind, Lexeme.kind])
      | punctuation q =>
        cases q with
        | leftParen =>
          have close := exists_mem_ofKind (l := .punctuation .rightParen) rfl
          -- the parenthesis that closes the sum is no operator, so the sum ends there
          refine next_bind_foreseen token (fun s => (sum_predicts ih s).bind
              (fun inner t => (expect_predicts (l := .punctuation .rightParen) rfl t).map _)
              (.ofKind fun o => Kind.noConfusion) close)
            (exists_mem_mul exists_mem_sum close) (fun kind => ?_) nil
          rw [cons_mem_factor, kind]
          simp [Lexeme.kind]
        | rightParen | semicolon | dot | colon | comma | assign =>
          exact lastFactor_foreseen full (by simp [token, Token.kind, Lexeme.kind])

/-- All outcomes of an expression are foreseen if no operator follows it. -/
theorem expr_predicts (full : g.Full) :
    Predicts g.lexis (language (DerivesExpr .sum)) (fun k => ∀ o, k ≠ .operator o) g.expr := by
  intro r
  rw [expr, budget_bind]
  exact sum_predicts (factorWithin_predicts full _) r

/-! ## Statements -/

/-- All outcomes of an assignment are foreseen if no operator follows it. -/
theorem assignment_predicts (full : g.Full) :
    Predicts g.lexis (ofKind .name * (ofKind (.punctuation .assign) * language (DerivesExpr .sum)))
      (fun k => ∀ o, k ≠ .operator o) g.assignment := by
  have inhabited : ∃ v, v ∈ ofKind (.punctuation .assign) * language (DerivesExpr .sum) :=
    exists_mem_mul (exists_mem_ofKind (l := .punctuation .assign) rfl) exists_mem_sum
  intro r
  refine Foreseen.bind (ident_predicts r) (fun target s => ?_) .any inhabited
  rw [current_bind]
  refine Foreseen.of_chosen fun chosen same => ?_
  split at same
  · rename_i place token
    subst same
    exact (next_foreseen token).bind (fun _ t => (expr_predicts full t).map _) .any exists_mem_sum
  · rename_i other
    subst same
    refine reject_foreseen inhabited (.mul (.ofKind fun assign => ?_) .any)
    obtain ⟨p, token⟩ := (Token.kind_eq_iff rfl).mp assign.symm
    exact other p token

/-- The texts of statements with semicolons between them. -/
def statementList (g : Grammar) : Language Mark := language (Separated .semicolon (DerivesStmt g))

/-- What begins like a statement of a grammar without calls. -/
theorem cons_mem_statement (none : g.calls = false) {m : Mark} {ms : List Mark} :
    m :: ms ∈ language (DerivesStmt g) ↔
      m.lexeme.kind = .reserved .beginBlock ∧ ms ∈ g.statementList * ofKind (.reserved .endBlock) ∨
      m.lexeme.kind = .name ∧ ms ∈ ofKind (.punctuation .assign) * language (DerivesExpr .sum) := by
  constructor
  · rintro ⟨s, form⟩
    cases form with
    | compound mark forms mark' =>
      exact .inl ⟨congrArg Lexeme.kind mark,
        Language.append_mem_mul ⟨_, forms⟩ (mem_ofKind_of_lexeme mark')⟩
    | call calls =>
      rw [none] at calls
      cases calls
    | assign name mark form =>
      exact .inr ⟨congrArg Lexeme.kind name, cons_mem_of_lexeme mark ⟨_, form⟩⟩
  · rintro (⟨kind, us, ⟨children, forms⟩, _, ⟨n, rfl, kind'⟩, rfl⟩ |
      ⟨kind, _, ⟨n, rfl, kind'⟩, us, ⟨e, form⟩, rfl⟩)
    · exact ⟨_, .compound ((Lexeme.kind_eq_iff rfl).mp kind) forms ((Lexeme.kind_eq_iff rfl).mp kind')⟩
    · obtain ⟨s, name⟩ := Lexeme.kind_eq_name_iff.mp kind
      exact ⟨_, .assign name ((Lexeme.kind_eq_iff rfl).mp kind') form⟩

/-- Nothing is a statement. -/
theorem nil_mem_statement : [] ∈ language (DerivesStmt g) := ⟨.empty, .empty⟩

/-- The kinds of tokens that stand behind a statement. -/
def EndsStatement (k : Kind) : Prop := k = .punctuation .semicolon ∨ k = .reserved .endBlock

/-- The texts of compound statements. -/
def compoundText (g : Grammar) : Language Mark :=
  ofKind (.reserved .beginBlock) * (g.statementList * ofKind (.reserved .endBlock))

/-- Nothing is a list of statements. -/
theorem nil_mem_statementList : [] ∈ g.statementList := ⟨_, .one .empty⟩

/-- There are compound statements. -/
theorem exists_mem_compound : ∃ v, v ∈ g.compoundText :=
  exists_mem_mul (exists_mem_ofKind (l := .reserved .beginBlock) rfl)
    (exists_mem_mul ⟨[], nil_mem_statementList⟩ (exists_mem_ofKind (l := .reserved .endBlock) rfl))

/-- Statements are foreseen before the word that ends them if each of them is before a semicolon and
before that word. -/
theorem statementsOf_predicts (full : g.Full) {rule : Parse Stmt}
    (predicts : Predicts g.lexis (language (DerivesStmt g)) EndsStatement rule) :
    Predicts g.lexis g.statementList (· = .reserved .endBlock) (g.statementsOf rule) := by
  rw [statementsOf_eq full, statementList, language_separated]
  refine separated_predicts predicts ⟨[], nil_mem_statement⟩ (.inl rfl) ?_
  rintro _ rfl
  exact ⟨.inr rfl, Kind.noConfusion⟩

/-- A compound statement is foreseen if its statements are. -/
theorem compoundOf_predicts (full : g.Full) {rule : Parse Stmt}
    (predicts : Predicts g.lexis (language (DerivesStmt g)) EndsStatement rule) {F : Kind → Prop} :
    Predicts g.lexis g.compoundText F (g.compoundOf rule) := by
  have word := exists_mem_ofKind (l := .reserved .endBlock) rfl
  intro r
  refine Foreseen.bind (expect_predicts (l := .reserved .beginBlock) rfl r) (fun _ s => ?_) .any
    (exists_mem_mul ⟨[], nil_mem_statementList⟩ word)
  exact (statementsOf_predicts full predicts s).bind (fun _ t => (expect_predicts (l := .reserved .endBlock) rfl t).map _)
    (.ofKind rfl) word

/-- All outcomes of a statement are foreseen, at every level of nesting. -/
theorem statementWithin_predicts (full : g.Full) (none : g.calls = false) (n : Nat) :
    Predicts g.lexis (language (DerivesStmt g)) EndsStatement (g.statementWithin n) := by
  induction n with
  | zero => exact fun r => .broken fun t => Fault.noConfusion
  | succ n ih =>
    intro r
    rw [statementWithin, kind_bind]
    refine Foreseen.of_chosen fun chosen same => ?_
    split at same
    · rename_i here
      subst same
      refine Foreseen.branch ((compoundOf_predicts full ih r).map _) here (fun kind => ?_) ?_
      · rw [cons_mem_statement none, kind]
        simp
      · rintro _ (follow | follow) <;> cases follow
    · rename_i here
      subst same
      rw [startsCall_bind, if_neg (by simp [none])]
      refine Foreseen.branch ((assignment_predicts full r).mono ?_) here (fun kind => ?_) ?_
      · rintro _ (rfl | rfl) o <;> exact Kind.noConfusion
      · rw [cons_mem_statement none, kind]
        simp
      · rintro _ (follow | follow) <;> cases follow
    · -- the empty statement, which is left to others to end
      rename_i word name
      subst same
      refine Foreseen.skip _ nil_mem_statement fun member same => ?_
      rw [cons_mem_statement none, same] at member
      rcases member with ⟨here, _⟩ | ⟨here, _⟩
      · exact word here
      · exact name here

/-- All outcomes of a compound statement are foreseen. -/
theorem compound_predicts (full : g.Full) (none : g.calls = false) {F : Kind → Prop} :
    Predicts g.lexis g.compoundText F g.compound := by
  intro r
  rw [compound, budget_bind]
  exact compoundOf_predicts full (statementWithin_predicts full none _) r

/-! ## Names, types and parameters -/

/-- Names are marks of their kind. -/
theorem language_ident : language DerivesIdent = ofKind .name := by
  ext w
  constructor
  · rintro ⟨_, ⟨name⟩⟩
    exact mem_ofKind_of_lexeme name
  · rintro ⟨m, rfl, kind⟩
    obtain ⟨s, name⟩ := Lexeme.kind_eq_name_iff.mp kind
    exact ⟨_, .name name⟩

/-- What begins like a type. -/
theorem cons_mem_type {m : Mark} {ms : List Mark} :
    m :: ms ∈ language DerivesType ↔
      (m.lexeme.kind = .reserved .integerType ∨ m.lexeme.kind = .reserved .realType) ∧ ms = [] := by
  constructor
  · rintro ⟨_, @⟨_, type, mark⟩⟩
    rw [mark]
    cases type <;> simp [Lexeme.kind, BaseType.word]
  · rintro ⟨kind | kind, rfl⟩
    · exact ⟨_, @DerivesType.word m .integer ((Lexeme.kind_eq_iff rfl).mp kind)⟩
    · exact ⟨_, @DerivesType.word m .real ((Lexeme.kind_eq_iff rfl).mp kind)⟩

/-- There are types. -/
theorem exists_mem_type : ∃ v, v ∈ language DerivesType :=
  ⟨[⟨.reserved .realType, ⟨1, 1⟩, none⟩], cons_mem_type.mpr ⟨.inr rfl, rfl⟩⟩

/-- All outcomes of a type are foreseen. -/
theorem typeRef_predicts {F : Kind → Prop} : Predicts g.lexis (language DerivesType) F g.typeRef := by
  have nil : [] ∉ language DerivesType := by rintro ⟨_, ⟨⟩⟩
  intro r
  rw [typeRef, current_bind]
  refine Foreseen.of_chosen fun chosen same => ?_
  split at same
  · rename_i place token
    subst same
    refine next_bind_foreseen token (pure_predicts _) ⟨[], rfl⟩ (fun kind => ?_) (absurd · nil)
    rw [cons_mem_type, kind]
    simp [Lexeme.kind]
  · rename_i place token
    subst same
    refine next_bind_foreseen token (pure_predicts _) ⟨[], rfl⟩ (fun kind => ?_) (absurd · nil)
    rw [cons_mem_type, kind]
    simp [Lexeme.kind]
  · rename_i integer real
    subst same
    refine reject_foreseen exists_mem_type ⟨fun member same => ?_, (absurd · nil)⟩
    rw [cons_mem_type, same, Token.kind_eq_iff rfl, Token.kind_eq_iff rfl] at member
    rcases member with ⟨⟨p, token⟩ | ⟨p, token⟩, _⟩
    · exact integer p token
    · exact real p token

/-- Names with a type are names, a colon and a type. -/
theorem language_bindings : language DerivesBindings =
    language (Separated .comma DerivesIdent) *
      (ofKind (.punctuation .colon) * language DerivesType) := by
  ext w
  constructor
  · rintro ⟨_, forms, mark, form⟩
    exact Language.append_mem_mul ⟨_, forms⟩ (cons_mem_of_lexeme mark ⟨_, form⟩)
  · rintro ⟨us, ⟨ids, forms⟩, _, ⟨_, ⟨m, rfl, kind⟩, vs, ⟨type, form⟩, rfl⟩, rfl⟩
    exact ⟨_, .group forms ((Lexeme.kind_eq_iff rfl).mp kind) form⟩

/-- There are names with a type. -/
theorem exists_mem_bindings : ∃ v, v ∈ language DerivesBindings := by
  rw [language_bindings]
  exact exists_mem_mul ⟨[⟨.name "", ⟨1, 1⟩, none⟩], _, .one (.name rfl)⟩
    (exists_mem_mul (exists_mem_ofKind (l := .punctuation .colon) rfl) exists_mem_type)

/-- All outcomes of names with a type are foreseen. -/
theorem bindings_predicts {F : Kind → Prop} :
    Predicts g.lexis (language DerivesBindings) F g.bindings := by
  have colon := exists_mem_ofKind (l := .punctuation .colon) rfl
  have names : Predicts g.lexis (language (Separated .comma DerivesIdent))
      (· = .punctuation .colon) (separated g.lexis (.punctuation .comma) (ident g.lexis)) := by
    rw [language_separated, language_ident]
    refine separated_predicts (G := fun _ => True) ident_predicts
      (exists_mem_ofKind (l := .name "") rfl) trivial ?_
    rintro _ rfl
    exact ⟨trivial, by decide⟩
  rw [language_bindings]
  intro r
  refine (names r).bind (fun ids s => ?_) (.mul (.ofKind rfl) .any)
    (exists_mem_mul colon exists_mem_type)
  exact Foreseen.bind (expect_predicts (l := .punctuation .colon) rfl s)
    (fun _ t => (typeRef_predicts t).map _) .any exists_mem_type

/-- Groups of names with a type begin with a name. -/
theorem kind_of_mem_groups {m : Mark} {ms : List Mark}
    (h : m :: ms ∈ language (Separated .semicolon DerivesBindings)) : m.lexeme.kind = .name := by
  obtain ⟨_, forms⟩ := h
  obtain ⟨us, vs, _, _, whole, _, form, _⟩ := separated_iff.mp forms
  obtain ⟨_, _, rfl, kind⟩ := derivesBindings_opens form
  cases whole
  exact kind

/-- All outcomes of a list of parameters are foreseen before the parenthesis that closes it. -/
theorem parameterList_predicts :
    Predicts g.lexis (1 + language (Separated .semicolon DerivesBindings))
      (· = .punctuation .rightParen) g.parameterList := by
  intro r
  rw [parameterList, kind_bind]
  split
  · rename_i here
    have groups : Foreseen g.lexis (language (Separated .semicolon DerivesBindings))
        (· = .punctuation .rightParen) r
        (separated g.lexis (.punctuation .semicolon) g.bindings r) := by
      rw [language_separated]
      refine separated_predicts (G := fun _ => True) bindings_predicts exists_mem_bindings trivial ?_ r
      rintro _ rfl
      exact ⟨trivial, by decide⟩
    refine (groups.map _).widen .inr (fun member _ => ?_) fun _ follow => ?_
    · rcases member with ⟨⟨⟩⟩ | member
      exact member
    · rw [here] at follow
      cases follow
  · rename_i other
    refine Foreseen.skip [] (.inl rfl) fun member same => other ?_
    rcases member with ⟨⟨⟩⟩ | member
    rw [← same]
    exact kind_of_mem_groups member

/-- What begins like the parameters of a procedure. -/
theorem cons_mem_parameters {m : Mark} {ms : List Mark} :
    m :: ms ∈ language DerivesParameters ↔
      m.lexeme.kind = .punctuation .leftParen ∧
        ms ∈ (1 + language (Separated .semicolon DerivesBindings)) *
          ofKind (.punctuation .rightParen) := by
  constructor
  · rintro ⟨_, form⟩
    cases form with
    | none left right =>
      exact ⟨congrArg Lexeme.kind left, [], .inl rfl, _, mem_ofKind_of_lexeme right, rfl⟩
    | some left forms right =>
      exact ⟨congrArg Lexeme.kind left, _, .inr ⟨_, forms⟩, _, mem_ofKind_of_lexeme right, rfl⟩
  · rintro ⟨kind, us, member, _, ⟨n, rfl, kind'⟩, rfl⟩
    have left := (Lexeme.kind_eq_iff rfl).mp kind
    have right := (Lexeme.kind_eq_iff rfl).mp kind'
    rcases member with ⟨⟨⟩⟩ | ⟨groups, forms⟩
    · exact ⟨_, .none left right⟩
    · exact ⟨_, .some left forms right⟩

/-- All outcomes of the parameters of a procedure are foreseen before a semicolon. -/
theorem parameterSection_predicts (full : g.Full) :
    Predicts g.lexis (language DerivesParameters) (· = .punctuation .semicolon) g.parameterSection := by
  have paren := exists_mem_ofKind (l := .punctuation .rightParen) rfl
  intro r
  rw [parameterSection, kind_bind, full.parameters, Bool.true_and]
  split
  · rename_i opened
    obtain ⟨p, token⟩ := (Token.kind_eq_iff rfl).mp (of_decide_eq_true opened)
    refine next_bind_foreseen token (fun s => (parameterList_predicts s).bind
        (fun _ t => (expect_predicts (l := .punctuation .rightParen) rfl t).map _) (.ofKind rfl) paren)
      (exists_mem_mul ⟨[], .inl rfl⟩ paren) (fun kind => ?_) ?_
    · rw [cons_mem_parameters, kind]
      exact and_iff_right rfl
    · rintro _ ⟨⟩
  · rename_i other
    refine Foreseen.skip [] ⟨_, .absent⟩ fun member same => other ?_
    rw [← same]
    exact decide_eq_true (cons_mem_parameters.mp member).1

/-! ## Declarations and programs -/

/-- A group of variables is names with a type and a semicolon. -/
theorem language_group :
    language DerivesGroup = language DerivesBindings * ofKind (.punctuation .semicolon) := by
  ext w
  constructor
  · rintro ⟨_, form, mark⟩
    exact Language.append_mem_mul ⟨_, form⟩ (mem_ofKind_of_lexeme mark)
  · rintro ⟨us, ⟨bindings, form⟩, _, ⟨m, rfl, kind⟩, rfl⟩
    exact ⟨_, .group form ((Lexeme.kind_eq_iff rfl).mp kind)⟩

/-- What begins like the variables of a block. -/
theorem cons_mem_variables {m : Mark} {ms : List Mark} :
    m :: ms ∈ language DerivesVariables ↔
      m.lexeme.kind = .reserved .var ∧ ms ∈ (language DerivesGroup)∗ := by
  rw [← language_repeated]
  constructor
  · rintro ⟨_, ⟨⟩ | ⟨word, forms⟩⟩
    exact ⟨congrArg Lexeme.kind word, _, forms⟩
  · rintro ⟨kind, groups, forms⟩
    exact ⟨_, .some ((Lexeme.kind_eq_iff rfl).mp kind) forms⟩

/-- The kinds of tokens that stand behind the variables of a block. -/
def EndsVariables (k : Kind) : Prop := k = .reserved .procedure ∨ k = .reserved .beginBlock

/-- All outcomes of a group of variables are foreseen. -/
theorem variableDecls_predicts {F : Kind → Prop} :
    Predicts g.lexis (language DerivesGroup) F g.variableDecls := by
  rw [language_group]
  intro r
  exact Foreseen.bind (bindings_predicts r)
    (fun _ s => (expect_predicts (l := .punctuation .semicolon) rfl s).map _) .any
    (exists_mem_ofKind (l := .punctuation .semicolon) rfl)

/-- All outcomes of the variables of a block are foreseen. -/
theorem vars_predicts : Predicts g.lexis (language DerivesVariables) EndsVariables g.vars := by
  have opens : ∀ {w}, w ∈ language DerivesGroup → ∃ m ms, w = m :: ms ∧ m.lexeme.kind = .name := by
    rintro _ ⟨_, form, _⟩
    obtain ⟨m, ms, rfl, kind⟩ := derivesBindings_opens form
    exact ⟨m, _, rfl, kind⟩
  intro r
  rw [vars, kind_bind]
  split
  · rename_i here
    have outcome : Foreseen g.lexis (ofKind (.reserved .var) * (language DerivesGroup)∗) EndsVariables r
        (g.variableSection r) := by
      refine Foreseen.bind (expect_predicts (l := .reserved .var) rfl r) (fun _ s => ?_) .any
        ⟨[], Language.nil_mem_kstar _⟩
      refine (many_predicts (G := fun _ => True) variableDecls_predicts opens trivial ?_ s).map _
      rintro _ (rfl | rfl) <;> exact ⟨trivial, by decide⟩
    refine outcome.branch here (fun kind => ?_) ?_
    · rw [cons_mem_variables, kind]
      exact and_iff_right rfl
    · rintro _ (follow | follow) <;> cases follow
  · rename_i other
    refine Foreseen.skip [] ⟨_, .absent⟩ fun member same => other ?_
    rw [← same]
    exact (cons_mem_variables.mp member).1

/-- A procedure part by part. -/
theorem language_procedure : language (DerivesProcedure g) =
    ofKind (.reserved .procedure) * (ofKind .name * (language DerivesParameters *
      (ofKind (.punctuation .semicolon) * (language (DerivesBlock g) *
        ofKind (.punctuation .semicolon))))) := by
  ext w
  constructor
  · rintro ⟨_, form⟩
    cases form with
    | procedure word name parameters first form last =>
      refine cons_mem_of_lexeme word (cons_mem_of_lexeme name
        (Language.append_mem_mul ⟨_, parameters⟩ (cons_mem_of_lexeme first ?_)))
      exact Language.append_mem_mul ⟨_, form⟩ (mem_ofKind_of_lexeme last)
  · rintro ⟨_, ⟨m, rfl, kind₁⟩, _, ⟨_, ⟨n, rfl, kind₂⟩, _, ⟨ms, ⟨_, parameters⟩, _,
      ⟨_, ⟨k, rfl, kind₃⟩, _, ⟨ns, ⟨b, form⟩, _, ⟨l, rfl, kind₄⟩, rfl⟩, rfl⟩, rfl⟩, rfl⟩, rfl⟩
    obtain ⟨s, name⟩ := Lexeme.kind_eq_name_iff.mp kind₂
    exact ⟨_, .procedure ((Lexeme.kind_eq_iff rfl).mp kind₁) name parameters
      ((Lexeme.kind_eq_iff rfl).mp kind₃) form ((Lexeme.kind_eq_iff rfl).mp kind₄)⟩

/-- A block is variables, procedures and a compound statement. -/
theorem language_block : language (DerivesBlock g) =
    language DerivesVariables * ((language (DerivesProcedure g))∗ * g.compoundText) := by
  rw [← language_repeated]
  ext w
  constructor
  · rintro ⟨_, form⟩
    cases form with
    | block vars procedures body =>
      refine Language.append_mem_mul ⟨_, vars⟩ (Language.append_mem_mul ⟨_, procedures⟩ ?_)
      cases body with
      | compound first forms last =>
        exact cons_mem_of_lexeme first
          (Language.append_mem_mul ⟨_, forms⟩ (mem_ofKind_of_lexeme last))
  · rintro ⟨us, ⟨_, vars⟩, _, ⟨vs, ⟨_, procedures⟩, _, ⟨_, ⟨m, rfl, kind₁⟩, _, ⟨ks, ⟨_, forms⟩, _,
      ⟨n, rfl, kind₂⟩, rfl⟩, rfl⟩, rfl⟩, rfl⟩
    exact ⟨_, .block vars procedures (.compound ((Lexeme.kind_eq_iff rfl).mp kind₁) forms
      ((Lexeme.kind_eq_iff rfl).mp kind₂))⟩

/-- A program part by part. -/
theorem language_program : language g.Derives =
    ofKind (.reserved .program) * (ofKind .name * (ofKind (.punctuation .semicolon) *
      (language (DerivesBlock g) * ofKind (.punctuation .dot)))) := by
  ext w
  constructor
  · rintro ⟨_, word, name, first, form, last⟩
    refine cons_mem_of_lexeme word (cons_mem_of_lexeme name (cons_mem_of_lexeme first ?_))
    exact Language.append_mem_mul ⟨_, form⟩ (mem_ofKind_of_lexeme last)
  · rintro ⟨_, ⟨m, rfl, kind₁⟩, _, ⟨_, ⟨n, rfl, kind₂⟩, _, ⟨_, ⟨k, rfl, kind₃⟩, _,
      ⟨ms, ⟨b, form⟩, _, ⟨l, rfl, kind₄⟩, rfl⟩, rfl⟩, rfl⟩, rfl⟩
    obtain ⟨s, name⟩ := Lexeme.kind_eq_name_iff.mp kind₂
    exact ⟨_, .program ((Lexeme.kind_eq_iff rfl).mp kind₁) name ((Lexeme.kind_eq_iff rfl).mp kind₃)
      form ((Lexeme.kind_eq_iff rfl).mp kind₄)⟩

/-- There are blocks. -/
theorem exists_mem_block : ∃ v, v ∈ language (DerivesBlock g) := by
  rw [language_block]
  exact exists_mem_mul ⟨[], _, .absent⟩
    (exists_mem_mul ⟨[], Language.nil_mem_kstar _⟩ exists_mem_compound)

/-- A procedure is foreseen if its block is. -/
theorem procedureOf_predicts (full : g.Full) {rule : Parse Block}
    (predicts : Predicts g.lexis (language (DerivesBlock g)) (fun _ => True) rule) {F : Kind → Prop} :
    Predicts g.lexis (language (DerivesProcedure g)) F (g.procedureOf rule) := by
  have semicolon := exists_mem_ofKind (l := .punctuation .semicolon) rfl
  have block := exists_mem_mul (exists_mem_block (g := g)) semicolon
  have behind := exists_mem_mul semicolon block
  have absent : ∃ v, v ∈ language DerivesParameters := ⟨[], _, .absent⟩
  have parameters := exists_mem_mul absent behind
  have name := exists_mem_mul (exists_mem_ofKind (l := .name "") rfl) parameters
  rw [language_procedure]
  intro r
  refine Foreseen.bind (expect_predicts (l := .reserved .procedure) rfl r) (fun _ s => ?_) .any name
  refine Foreseen.bind (ident_predicts s) (fun id t => ?_) .any parameters
  refine (parameterSection_predicts full t).bind (fun _ u => ?_) (.mul (.ofKind rfl) .any) behind
  refine Foreseen.bind (expect_predicts (l := .punctuation .semicolon) rfl u) (fun _ v => ?_) .any block
  exact (predicts v).bind (fun _ w => (expect_predicts (l := .punctuation .semicolon) rfl w).map _) .any
    semicolon

/-- Declarations are foreseen if the blocks in them are. -/
theorem declarationsOf_predicts (full : g.Full) {rule : Parse Block}
    (predicts : Predicts g.lexis (language (DerivesBlock g)) (fun _ => True) rule) :
    Predicts g.lexis (language DerivesVariables * (language (DerivesProcedure g))∗)
      (· = .reserved .beginBlock) (g.declarationsOf rule) := by
  have opens : ∀ {w}, w ∈ language (DerivesProcedure g) →
      ∃ m ms, w = m :: ms ∧ m.lexeme.kind = .reserved .procedure := by
    rintro _ ⟨_, form⟩
    exact derivesProcedure_opens form
  -- behind the variables stands a procedure, or what stands behind all declarations
  have leads : Leads ((language (DerivesProcedure g))∗) (· = .reserved .beginBlock) EndsVariables := by
    refine .kstar (fun member => ?_) .inr
    obtain ⟨_, _, ⟨⟩, kind⟩ := opens member
    exact .inl kind
  rw [declarationsOf_eq full.interleaved]
  intro r
  refine (vars_predicts r).bind (fun vars s => ?_) leads ⟨[], Language.nil_mem_kstar _⟩
  have procedures := procedureOf_predicts (F := fun _ => True) full predicts
  refine (many_predicts procedures opens trivial ?_ s).map _
  rintro _ rfl
  exact ⟨trivial, by decide⟩

/-- All outcomes of a block are foreseen, at every level of nesting. -/
theorem blockWithin_predicts (full : g.Full) (none : g.calls = false) (n : Nat) :
    Predicts g.lexis (language (DerivesBlock g)) (fun _ => True) (g.blockWithin n) := by
  induction n with
  | zero => exact fun r => .broken fun t => Fault.noConfusion
  | succ n ih =>
    intro r
    -- one rule reads variables and procedures
    rw [language_block, ← mul_assoc]
    exact (declarationsOf_predicts full ih r).bind (fun _ s => (compound_predicts full none s).map _)
      (.mul (.ofKind rfl) .any) exists_mem_compound

/-- All outcomes of a program are foreseen. -/
theorem program_predicts (full : g.Full) (none : g.calls = false) {F : Kind → Prop} :
    Predicts g.lexis (language g.Derives) F g.program := by
  have dot := exists_mem_ofKind (l := .punctuation .dot) rfl
  have block := exists_mem_mul (exists_mem_block (g := g)) dot
  have semicolon := exists_mem_mul (exists_mem_ofKind (l := .punctuation .semicolon) rfl) block
  have name := exists_mem_mul (exists_mem_ofKind (l := .name "") rfl) semicolon
  rw [language_program]
  intro r
  refine Foreseen.bind (expect_predicts (l := .reserved .program) rfl r) (fun _ s => ?_) .any name
  refine Foreseen.bind (ident_predicts s) (fun id t => ?_) .any semicolon
  refine Foreseen.bind (expect_predicts (l := .punctuation .semicolon) rfl t) (fun _ u => ?_) .any block
  refine Foreseen.bind (G := fun _ => True) ?_
    (fun _ v => (expect_predicts (l := .punctuation .dot) rfl v).map _) .any dot
  rw [Grammar.block, budget_bind]
  exact blockWithin_predicts full none _ u

/-! ## Sentences -/

/-- The tokens of a program, with the end of the text behind them. -/
def Sentence (g : Grammar) (ts : List Token) : Prop :=
  ∃ ms p, g.Derives ms p ∧ ts = ms.map Mark.token ++ [.endOfText]

/-- A token is the first wrong one behind others. Without it they are the beginning of a sentence, short
of its end, and with it they are the beginning of none, whatever the names and literals are. -/
structure FirstWrong (g : Grammar) (ts : List Token) (t : Token) : Prop where
  viable : ∃ ns, ns ≠ [] ∧ g.Sentence (ts ++ ns)
  never : ∀ us, g.Sentence us → ¬(ts ++ [t]).map Token.kind <+: us.map Token.kind

/-- A token that is refused is the current one, and the first wrong one behind those passed. -/
theorem firstWrong_of_parse (full : g.Full) (none : g.calls = false) {r s : Reading} {t : Token}
    (h : g.parse r = .error (.unexpected t) s) :
    t = s.token ∧ ∃ ms, Passage g.lexis r ms s ∧ g.FirstWrong (ms.map Mark.token) t := by
  have kinds_eq : ∀ ms : List Mark, (ms.map Mark.token).map Token.kind = kinds ms := by
    intro ms
    rw [List.map_map]
    rfl
  have outcome : Foreseen g.lexis (language g.Derives) (fun _ => True) r (g.program r) :=
    program_predicts full none r
  rw [parse_eq full] at h
  cases read : g.program r with
  | error fault u =>
    rw [read] at h outcome
    cases h
    cases outcome with
    | @refused _ ms passage viable never =>
      obtain ⟨ns, p, form⟩ := viable
      refine ⟨rfl, ms, passage, ⟨ns.map Mark.token ++ [.endOfText], ?_, ms ++ ns, p, form, ?_⟩, ?_⟩
      · simp
      · rw [List.map_append, List.append_assoc]
      · rintro _ ⟨ws, q, form', rfl⟩ agrees
        rw [List.map_append, List.map_append, kinds_eq, kinds_eq] at agrees
        exact never ws ⟨⟨q, form'⟩, .endOfText, [], trivial, agrees⟩
    | broken other => exact absurd rfl (other t)
  | ok p u =>
    rw [read] at h outcome
    dsimp only at h
    split at h
    · cases h
    · rename_i last
      cases h
      cases outcome with
      | @read _ _ ms passage inL only =>
        obtain ⟨p', form⟩ := inL
        refine ⟨rfl, ms, passage, ⟨[.endOfText], by simp, ms, p', form, rfl⟩, ?_⟩
        rintro _ ⟨ws, q, form', rfl⟩ agrees
        rw [List.map_append, List.map_append, kinds_eq, kinds_eq] at agrees
        -- a program with these tokens ends where this one does, and the end of the text is behind it
        have same : kinds ws = kinds ms := only ws ⟨⟨q, form'⟩, .endOfText, [], trivial, agrees⟩
        rw [same, List.prefix_append_right_inj] at agrees
        exact last (Token.kind_eq_endOfText_iff.mp (List.cons_prefix_cons.mp agrees).1)

end Grammar

/-- Opening a text finds fault with no token. -/
theorem Lexis.openReading_ne_unexpected {lx : Lexis} {text : String} {t : Token} :
    lx.openReading text ≠ .error (.unexpected t) := by
  intro h
  rcases fault_of_openReading h with empty | ⟨c, d, failed⟩
  · cases empty
  · exact token_not_unexpected failed t rfl

/-- A token that the edition without calls refuses is the current one of the reading, and the first from
which on the text can be no program: the tokens passed are the beginning of a program's tokens, and with
the current one they no longer are. -/
theorem places_refuse_first_wrong {text : String} {t : Token}
    (refused : (Edition.places.lexis.attempt Edition.places.grammar.parse text).result =
      .error (.unexpected t)) :
    ∃ r ms s, Edition.places.lexis.openReading text = .ok r ∧ Passage Edition.places.lexis r ms s ∧
      Edition.places.lexis.attempt Edition.places.grammar.parse text = .failed (.unexpected t) s ∧
      t = s.token ∧
      Fault.message Edition.places.wording (.unexpected t) =
        "ParserError: Unexpected token -> " ++ t.text .qualified ∧
      Edition.places.grammar.FirstWrong (ms.map Mark.token) t := by
  cases opened : Edition.places.lexis.openReading text with
  | error fault =>
    rw [Lexis.attempt, opened] at refused
    cases refused
    exact absurd opened Lexis.openReading_ne_unexpected
  | ok r =>
    cases read : Edition.places.grammar.parse r with
    | ok node s =>
      rw [Lexis.attempt_of_ok opened read] at refused
      cases refused
    | error fault s =>
      have failed := Lexis.attempt_of_error opened read
      rw [failed] at refused
      cases refused
      obtain ⟨current, ms, passage, wrong⟩ := Grammar.firstWrong_of_parse Edition.full_places rfl read
      exact ⟨r, ms, s, rfl, passage, failed, current, rfl, wrong⟩

/-- A number cannot begin a statement, so the empty statement is taken there, and the number is refused
where the word behind the statements is due. -/
theorem places_refuse_first_wrong_behind_empty_statement :
    let text := "PROGRAM p; BEGIN 1 END."
    let one : Token := .lexeme (.literal (.whole 1)) ⟨1, 18⟩
    (Edition.places.lexis.attempt Edition.places.grammar.parse text).result = .error (.unexpected one) ∧
      ∃ r ms s, Edition.places.lexis.openReading text = .ok r ∧
        Passage Edition.places.lexis r ms s ∧
        Edition.places.lexis.attempt Edition.places.grammar.parse text = .failed (.unexpected one) s ∧
        one = s.token ∧
        Fault.message Edition.places.wording (.unexpected one) =
          "ParserError: Unexpected token -> Token(TokenType.INTEGER_CONST, 1, position=1:18)" ∧
        Edition.places.grammar.FirstWrong (ms.map Mark.token) one := by
  intro text one
  have fault : (match (Edition.places.lexis.attempt Edition.places.grammar.parse text).result with
      | .error fault => some fault
      | .ok _ => none) = some (.unexpected one) := by decide +kernel
  have refused : (Edition.places.lexis.attempt Edition.places.grammar.parse text).result =
      .error (.unexpected one) := by
    split at fault
    · rename_i found
      cases fault
      exact found
    · cases fault
  obtain ⟨r, ms, s, opened, passage, failed, current, message, wrong⟩ :=
    places_refuse_first_wrong refused
  exact ⟨refused, r, ms, s, opened, passage, failed, current, message.trans (by decide +kernel), wrong⟩

end LittlePascal
