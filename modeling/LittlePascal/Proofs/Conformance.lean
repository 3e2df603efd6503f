import LittlePascal.Proofs.Descent
import LittlePascal.Proofs.FrontEnd

/-! # Routines and rules

The routines of a grammar come to what its rules come to, tree apart, unless one of the two runs out of its
bound: they end at the same reading, or fail with the same fault. The routines are bounded by how deep they may
be nested, the rules by budgets that exceed what is left of the text, so the two bounds have nothing to do with
each other.

Main definitions:
* `Routine.Alike`, `Routine.Follows`: outcomes that agree, and acts that follow a rule;
* `Routine.Conforms`: every routine follows its rule, and every round what is left of its list.

Main statements:
* `Routine.Follows.bind`, `Routine.Follows.many`: sequences and loops;
* `Routine.conforms`: routines follow their rules at every depth;
* `parsing_ends`: the parser of the last edition ends, and what is known of its course. -/

namespace LittlePascal

namespace Routine

variable {α β : Type} {lx : Lexis} {act act' yes no : Act} {c : Course} {frames : List Frame}
  {carry : List Frame → Steps → Act}

/-! ## Outcomes that agree -/

/-- A rule and an act come to the same, or one of them runs out of its bound. -/
inductive Alike : EStateM.Result Fault Reading α → EStateM.Result Fault Course Unit → Prop where
  | ok {a : α} {c : Course} : Alike (.ok a c.reading) (.ok () c)
  | error {fault : Fault} {c : Course} : Alike (.error fault c.reading) (.error fault c)
  | ruleEnds {r : Reading} {outcome : EStateM.Result Fault Course Unit} : Alike (.error .exhausted r) outcome
  | actEnds {outcome : EStateM.Result Fault Reading α} {c : Course} : Alike outcome (.error .exhausted c)

/-- An act follows a rule wherever they begin. -/
def Follows (rule : Parse α) (act : Act) : Prop := ∀ c, Alike (rule c.reading) (act c)

variable {rule : Parse α} {further : α → Parse β}

/-- Nothing is done behind the last act. -/
theorem perform_last : (do act; pure ()) = act := bind_pure act

/-- Of two ways to end one is performed, which the test decides. -/
theorem perform_either {test : Test} {one other : Steps} :
    (Steps.either test one other).perform lx carry frames =
      whether test (one.perform lx carry frames) (other.perform lx carry frames) :=
  perform_last

/-- A token that is eaten last is eaten. -/
theorem perform_eat {kind : Kind} : (Steps.eat kind .done).perform lx carry frames = eat lx kind := perform_last

/-- A decision before an act is one between two acts. -/
theorem whether_bind {test : Test} :
    (do whether test yes no; act : Act) c =
      if test.holds c.reading then (do yes; act : Act) c else (do no; act : Act) c := by
  by_cases holds : test.holds c.reading = true
  · rw [if_pos holds]
    exact Work.bind_congr (if_pos holds)
  · rw [if_neg holds]
    exact Work.bind_congr (if_neg holds)

/-- Rules and acts in sequence come to the same, from one reading. -/
theorem Alike.bind (first : Alike (rule c.reading) (act c)) (second : ∀ a, Follows (further a) act') :
    Alike ((rule >>= further) c.reading) ((do act; act') c) := by
  -- the later parts matter only where both sides have come through
  cases done : act c with
  | error fault d =>
    rw [Work.bind_of_error done]
    rw [done] at first
    cases read : rule c.reading with
    | error fault' r =>
      rw [Work.bind_of_error read]
      rw [read] at first
      cases first with
      | error => exact .error
      | ruleEnds => exact .ruleEnds
      | actEnds => exact .actEnds
    | ok a r =>
      rw [read] at first
      cases first with
      | actEnds => exact .actEnds
  | ok u d =>
    rw [Work.bind_of_ok done]
    rw [done] at first
    cases read : rule c.reading with
    | error fault' r =>
      rw [Work.bind_of_error read]
      rw [read] at first
      cases first with
      | ruleEnds => exact .ruleEnds
    | ok a r =>
      rw [Work.bind_of_ok read]
      rw [read] at first
      cases first with
      | ok => exact second a d

/-- What is made of a result changes nothing. -/
theorem Alike.map (h : Alike (rule c.reading) (act c)) (f : α → β) :
    Alike ((do return f (← rule)) c.reading) (act c) := by
  have same : Alike ((do return f (← rule)) c.reading) ((do act; pure () : Act) c) := h.bind fun a c => .ok
  rwa [perform_last] at same

namespace Follows

/-- Acts in sequence follow rules in sequence. -/
theorem bind (first : Follows rule act) (second : ∀ a, Follows (further a) act') :
    Follows (rule >>= further) (do act; act') :=
  fun c => (first c).bind second

/-- Doing nothing follows a result without reading. -/
theorem pure {a : α} : Follows (Pure.pure a) (Pure.pure ()) := fun _ => .ok

/-- Every act follows a rule that is out of budget. -/
theorem exhausted : Follows (Parse.exhausted : Parse α) act := fun _ => .ruleEnds

/-- Nothing is done behind the last act. -/
theorem last (h : Follows rule act) : Follows rule (do act; Pure.pure ()) := by
  have same := h.bind (fun a => pure (a := a))
  rwa [bind_pure] at same

/-- The budget makes no difference. -/
theorem budget {further : Nat → Parse β} (h : ∀ n, Follows (further n) act) :
    Follows (Parse.budget >>= further) act :=
  fun c => h _ c

/-- A decision follows one by the kind of the current token. -/
theorem whether {further : Kind → Parse β} {test : Test}
    (one : ∀ c, test.holds c.reading = true → Alike (further c.reading.token.kind c.reading) (yes c))
    (other : ∀ c, test.holds c.reading = false → Alike (further c.reading.token.kind c.reading) (no c)) :
    Follows (Parse.kind >>= further) (Routine.whether test yes no) := by
  intro c
  rw [Parse.kind_bind, Routine.whether]
  by_cases holds : test.holds c.reading = true
  · rw [if_pos holds]
    exact one c holds
  · rw [if_neg holds]
    exact other c (Bool.not_eq_true _ ▸ holds)

/-- An act follows a rule that looks at the current token first, if it does for each token. -/
theorem current {further : Token → Parse β}
    (h : ∀ t c, c.reading.token = t → Alike (further t c.reading) (act c)) :
    Follows (Parse.current >>= further) act :=
  fun c => h _ c rfl

/-- A part follows a rule if its steps do. -/
theorem begun {p : Part} (h : ∀ {frames}, Follows rule (carry frames p.steps)) :
    Follows rule (Routine.begun carry frames p) :=
  fun c => h { c with openings := (⟨p, c.eaten⟩ :: frames) :: c.openings }

end Follows

/-- A token of the kind that is asked for is passed. -/
theorem next_alike {kind : Kind} (same : c.reading.token.kind = kind) :
    Alike (Parse.next lx c.reading) (eat lx kind c) := by
  rw [eat, if_pos same]
  cases Parse.next lx c.reading with
  | ok u r => exact .ok (c := { c with reading := r, eaten := c.eaten + 1 })
  | error fault r => exact .error (c := { c with reading := r })

/-- A token of another kind is refused, whatever comes next. -/
theorem reject_alike {kind : Kind} (other : c.reading.token.kind ≠ kind) :
    Alike (Parse.reject c.reading : EStateM.Result Fault Reading α) ((do eat lx kind; act) c) := by
  have refused : eat lx kind c = .error (.unexpected c.reading.token) c := if_neg other
  rw [Work.bind_of_error refused]
  exact .error

/-- Eating a token follows the rule for a token of its kind. -/
theorem expect_follows {kind : Kind} : Follows (Parse.expect lx kind) (eat lx kind) := by
  intro c
  rw [Parse.expect, Parse.current_bind]
  split
  · exact next_alike ‹_›
  · rw [← @perform_last (eat lx kind)]
    exact reject_alike ‹_›

/-- Eating a name follows the rule for names. -/
theorem ident_follows : Follows (Parse.ident lx) (eat lx .name) := by
  refine .current fun t => ?_
  split
  · intro c token
    exact (next_alike (by rw [token]; rfl)).map fun _ => _
  · rename_i other
    intro c token
    rw [← @perform_last (eat lx .name)]
    refine reject_alike fun same => ?_
    obtain ⟨s, place, named⟩ := Token.kind_eq_name_iff.mp same
    exact other s place (token.symm.trans named)

/-- A further round of a list: an item, and what is left of the list. -/
def round (announced : Kind → Bool) (item : Parse α) (n : Nat) : Parse (List α) := do
  let first ← item
  return first :: (← Parse.manyWhile announced item n)

/-- A list is read by a loop whose rounds read an item each. -/
theorem Follows.many {l : Loop} {kind : Kind} {item : Parse α} (test : l.test = .among [kind])
    (h : ∀ {n frames}, Follows (round (· == kind) item n) (carry frames (ofLoop l))) {n : Nat} :
    Follows (Parse.manyWhile (· == kind) item n)
      (Routine.whether l.test (Routine.begun carry frames (.round l)) (Pure.pure ())) := by
  cases n with
  | zero => exact .exhausted
  | succ n =>
    have same : ∀ r : Reading, l.test.holds r = (r.token.kind == kind) := by
      intro r
      rw [test, Test.holds, List.contains_cons, List.contains_nil, Bool.or_false]
    refine .whether (fun c announced => ?_) fun c silent => ?_
    · rw [same] at announced
      rw [if_pos announced]
      exact Follows.begun h c
    · rw [same] at silent
      rw [if_neg (Bool.eq_false_iff.mp silent)]
      exact Follows.pure c

/-- A separator and an act follow a round of a list with separators. -/
theorem Follows.preceded {announced : Kind → Bool} {separator : Kind} {n : Nat} (item : Follows rule act)
    (more : Follows (Parse.manyWhile announced (do Parse.expect lx separator; rule) n) act') :
    Follows (round announced (do Parse.expect lx separator; rule) n)
      (do eat lx separator; act; act'; Pure.pure ()) := by
  rw [round, bind_assoc]
  exact expect_follows.bind fun _ => item.bind fun _ => more.bind fun _ => .pure

/-- Items with separators are read by an act and a loop, whatever comes next. -/
theorem Follows.separated {l : Loop} {separator : Kind} {further : List α → Parse β}
    (test : l.test = .among [separator]) (item : Follows rule act)
    (more : ∀ {n frames}, Follows (round (· == separator) (do Parse.expect lx separator; rule) n)
      (carry frames (ofLoop l)))
    (h : ∀ items, Follows (further items) act') :
    Follows (Parse.separated lx separator rule >>= further)
      (do act; Routine.whether l.test (Routine.begun carry frames (.round l)) (Pure.pure ()); act') := by
  have list : Follows (Parse.many separator (do Parse.expect lx separator; rule))
      (Routine.whether l.test (Routine.begun carry frames (.round l)) (Pure.pure ())) :=
    .budget fun _ => .many test more
  rw [Parse.separated, bind_assoc]
  refine item.bind fun first => ?_
  rw [bind_assoc]
  exact list.bind fun rest => h (first :: rest)

/-- A further operator with its right operand, and what is left of the chain. -/
def operation (g : Grammar) (operators : List Operator) (operand : Parse Expr) (n : Nat) (o : Operator)
    (place : Place) (left : Expr) : Parse Expr := do
  Parse.next g.lexis
  let right ← operand
  Parse.foldLeft g.lexis (Parse.operatorAmong operators)
    (fun operator place left right => return .binary operator place left right) operand n
    (.binary o place left right)

variable {g : Grammar} {n : Nat}

/-- A test for operators finds them. -/
theorem holds_operators {operators : List Operator} {r : Reading} :
    (Test.among (operators.map .operator)).holds r = (Parse.operatorAmong operators r.token).isSome := by
  rw [Test.holds]
  cases found : Parse.operatorAmong operators r.token with
  | some operator =>
    obtain ⟨o, place⟩ := operator
    obtain ⟨token, member⟩ := Parse.operatorAmong_eq_some.mp found
    rw [token]
    simpa [Token.kind, Lexeme.kind] using member
  | none =>
    rw [Option.isSome_none, List.contains_eq_mem, decide_eq_false_iff_not, List.mem_map]
    rintro ⟨o, member, same⟩
    obtain ⟨place, token⟩ := (Token.kind_eq_iff rfl).mp same.symm
    rw [Parse.operatorAmong_eq_some.mpr ⟨token, member⟩] at found
    cases found

/-- A chain is read by a loop whose rounds read an operator and an operand each. -/
theorem Follows.foldLeft {l : Loop} {operators : List Operator} {operand : Parse Expr}
    (test : l.test = .among (operators.map .operator))
    (h : ∀ {n frames c o place left}, c.reading.token = .lexeme (.operator o) place → o ∈ operators →
      Alike (operation g operators operand n o place left c.reading) (carry frames (ofLoop l) c)) {left : Expr} :
    Follows
      (Parse.foldLeft g.lexis (Parse.operatorAmong operators)
        (fun operator place left right => return .binary operator place left right) operand n left)
      (Routine.whether l.test (Routine.begun carry frames (.round l)) (Pure.pure ())) := by
  cases n with
  | zero => exact .exhausted
  | succ n =>
    intro c
    rw [Routine.whether, test, holds_operators]
    cases found : Parse.operatorAmong operators c.reading.token with
    | none =>
      rw [Parse.foldLeft_stop found]
      exact .ok
    | some operator =>
      obtain ⟨o, place⟩ := operator
      obtain ⟨token, member⟩ := Parse.operatorAmong_eq_some.mp found
      rw [Parse.foldLeft_step found]
      -- that the round is noted changes neither the token nor the reading
      exact @h n _ { c with openings := (⟨.round l, c.eaten⟩ :: frames) :: c.openings } o place left token member

/-- A round of a chain: the operator, the operand and the rest of the chain. -/
theorem operation_alike {operators : List Operator} {operand : Parse Expr} {o : Operator} {place : Place}
    {left : Expr} {first : Act} (passed : Alike (Parse.next g.lexis c.reading) (first c)) (h : Follows operand act)
    (more : ∀ {left}, Follows
      (Parse.foldLeft g.lexis (Parse.operatorAmong operators)
        (fun operator place left right => return .binary operator place left right) operand n left) act') :
    Alike (operation g operators operand n o place left c.reading) ((do first; act; act'; pure ()) c) :=
  passed.bind fun _ => h.bind fun _ => more.last

/-! ## Routines that follow their rules -/

/-- What carries out routines follows the rules of a grammar, whatever the bounds of the rules are. A round of a
loop follows what is left of the list. -/
structure Conforms (g : Grammar) (carry : List Frame → Steps → Act) : Prop where
  factor : ∀ {n frames}, Follows (g.factorWithin n) (carry frames (ofRule .factor))
  term : ∀ {n frames}, Follows (g.product (g.factorWithin n)) (carry frames (ofRule .term))
  expr : ∀ {n frames}, Follows (g.sum (g.factorWithin n)) (carry frames (ofRule .expr))
  var : ∀ {frames}, Follows (Parse.ident g.lexis) (carry frames (ofRule .var))
  assignment : ∀ {frames}, Follows g.assignment (carry frames (ofRule .assignment))
  call : ∀ {frames}, Follows g.call (carry frames (ofRule .call))
  empty : ∀ {frames}, Follows (pure Stmt.empty) (carry frames (ofRule .empty))
  statement : ∀ {n frames}, Follows (g.statementWithin n) (carry frames (ofRule .statement))
  statements : ∀ {n frames}, Follows (g.statementsOf (g.statementWithin n)) (carry frames (ofRule .statements))
  compound : ∀ {n frames}, Follows (g.compoundOf (g.statementWithin n)) (carry frames (ofRule .compound))
  typeRef : ∀ {frames}, Follows g.typeRef (carry frames (ofRule .typeRef))
  bindings : ∀ {frames}, Follows g.bindings (carry frames (ofRule .bindings))
  parameters : ∀ {frames}, Follows g.bindings (carry frames (ofRule .parameters))
  parameterList : ∀ {frames}, Follows g.parameterList (carry frames (ofRule .parameterList))
  procedure : ∀ {n frames}, Follows (g.procedureOf (g.blockWithin n)) (carry frames (ofRule .procedure))
  declarations : ∀ {n frames}, Follows (g.declarationsOf (g.blockWithin n)) (carry frames (ofRule .declarations))
  block : ∀ {n frames}, Follows (g.blockWithin n) (carry frames (ofRule .block))
  program : ∀ {frames}, Follows g.program (carry frames (ofRule .program))
  parse : ∀ {frames}, Follows g.parse (carry frames (ofRule .parse))
  moreVariables : ∀ {n frames}, Follows (round (· == .name) g.variableDecls n) (carry frames (ofLoop .variables))
  moreProcedures : ∀ {m n frames}, Follows
    (round (· == .reserved .procedure) (g.procedureOf (g.blockWithin m)) n) (carry frames (ofLoop .procedures))
  moreVariableNames : ∀ {n frames}, Follows
    (round (· == .punctuation .comma)
      (do Parse.expect g.lexis (.punctuation .comma); Parse.ident g.lexis) n)
    (carry frames (ofLoop .variableNames))
  moreParameterNames : ∀ {n frames}, Follows
    (round (· == .punctuation .comma)
      (do Parse.expect g.lexis (.punctuation .comma); Parse.ident g.lexis) n)
    (carry frames (ofLoop .parameterNames))
  moreParameterGroups : ∀ {n frames}, Follows
    (round (· == .punctuation .semicolon) (do Parse.expect g.lexis (.punctuation .semicolon); g.bindings) n)
    (carry frames (ofLoop .parameterGroups))
  moreStatements : ∀ {m n frames}, Follows
    (round (· == .punctuation .semicolon)
      (do Parse.expect g.lexis (.punctuation .semicolon); g.statementWithin m) n)
    (carry frames (ofLoop .statements))
  moreArguments : ∀ {n frames}, Follows
    (round (· == .punctuation .comma) (do Parse.expect g.lexis (.punctuation .comma); g.expr) n)
    (carry frames (ofLoop .arguments))
  moreSums : ∀ {m n frames c o place left}, c.reading.token = .lexeme (.operator o) place →
    o ∈ [Operator.plus, .minus] →
    Alike (operation g [.plus, .minus] (g.product (g.factorWithin m)) n o place left c.reading)
      (carry frames (ofLoop .sums) c)
  moreProducts : ∀ {m n frames c o place left}, c.reading.token = .lexeme (.operator o) place →
    o ∈ [Operator.times, .div, .slash] →
    Alike (operation g [.times, .div, .slash] (g.factorWithin m) n o place left c.reading)
      (carry frames (ofLoop .products) c)

namespace Conforms

/-- The part for expressions follows their rule with its own bound. -/
theorem wholeExpr (h : Conforms g carry) : Follows g.expr (carry frames (ofRule .expr)) :=
  .budget fun _ => h.expr

/-- The part for factors follows their rule. -/
theorem perform_factor (full : g.Full) (h : Conforms g carry) :
    Follows (g.factorWithin n) ((ofRule .factor).perform g.lexis carry frames) := by
  cases n with
  | zero => exact .exhausted
  | succ n =>
    intro c
    simp only [ofRule, perform_either]
    have last : Alike (g.lastFactor c.reading) ((Steps.call .var .done).perform g.lexis carry frames c) := by
      rw [Grammar.lastFactor, full.holes]
      exact (Follows.begun h.var).bind (fun id => .pure) c
    obtain ⟨⟨token, cursor⟩, eaten, openings⟩ := c
    rw [Grammar.factorWithin, Parse.current_bind, full.signs]
    -- both sides decide by the token; what no way is there for is left to the last one, a variable
    rcases token with ⟨⟨k | x⟩ | s | o | r | p, place⟩ | _
    · exact (next_alike rfl).bind fun _ => .pure
    · exact (next_alike rfl).bind fun _ => .pure
    · exact last
    · cases o with
      | plus => exact (next_alike rfl).bind fun _ => (Follows.begun h.factor).bind fun _ => .pure
      | minus => exact (next_alike rfl).bind fun _ => (Follows.begun h.factor).bind fun _ => .pure
      | times | slash | div => exact last
    · cases r <;> exact last
    · cases p with
      | leftParen =>
        exact (next_alike rfl).bind fun _ => (Follows.begun h.expr).bind fun _ =>
          expect_follows.bind fun _ => .pure
      | _ => exact last
    · exact last

/-- The part for products follows their rule. -/
theorem perform_term (h : Conforms g carry) :
    Follows (g.product (g.factorWithin n)) ((ofRule .term).perform g.lexis carry frames) :=
  (Follows.begun h.factor).bind fun _ => .budget fun _ =>
    (Follows.foldLeft (l := .products) rfl h.moreProducts).last

/-- The part for sums follows their rule. -/
theorem perform_expr (h : Conforms g carry) :
    Follows (g.sum (g.factorWithin n)) ((ofRule .expr).perform g.lexis carry frames) :=
  (Follows.begun h.term).bind fun _ => .budget fun _ => (Follows.foldLeft (l := .sums) rfl h.moreSums).last

/-- The part for assignments follows their rule. -/
theorem perform_assignment (h : Conforms g carry) :
    Follows g.assignment ((ofRule .assignment).perform g.lexis carry frames) := by
  refine (Follows.begun h.var).bind fun target => .current fun t => ?_
  split
  · intro c token
    exact (next_alike (by rw [token]; rfl)).bind fun _ => (Follows.begun h.wholeExpr).bind fun _ => .pure
  · rename_i other
    intro c token
    refine reject_alike fun same => ?_
    obtain ⟨place, assign⟩ := (Token.kind_eq_iff rfl).mp same
    exact other place (token.symm.trans assign)

/-- Arguments. Where there are none, the loop behind them has no round. -/
theorem perform_arguments (h : Conforms g carry) {further : List Expr → Parse β}
    (later : ∀ arguments, Follows (further arguments) act) :
    Follows (g.arguments >>= further)
      (do
        whether (.among [.punctuation .rightParen]) (pure ())
          ((Steps.call .expr .done).perform g.lexis carry frames)
        whether Loop.arguments.test (begun carry frames (.round .arguments)) (pure ())
        act) := by
  intro c
  rw [Grammar.arguments, bind_assoc, Parse.kind_bind]
  by_cases none : c.reading.token.kind = .punctuation .rightParen
  · have closing : (Test.among [.punctuation .rightParen]).holds c.reading = true := by
      simp [Test.holds, none]
    have silent : Loop.arguments.test.holds c.reading = false := by
      simp [Test.holds, Loop.test, none]
    have skipped : (do whether Loop.arguments.test (begun carry frames (.round .arguments)) (pure ()); act : Act) c =
        act c := by
      rw [whether_bind, silent]
      rfl
    rw [if_pos none, whether_bind, if_pos closing]
    show Alike (further [] c.reading) ((do whether Loop.arguments.test _ _; act : Act) c)
    rw [skipped]
    exact later [] c
  · have going : (Test.among [.punctuation .rightParen]).holds c.reading = false := by
      simpa [Test.holds] using none
    rw [if_neg none, whether_bind, going]
    exact Follows.separated rfl (Follows.begun h.wholeExpr).last h.moreArguments later c

/-- The part for calls follows their rule. -/
theorem perform_call (h : Conforms g carry) : Follows g.call ((ofRule .call).perform g.lexis carry frames) :=
  ident_follows.bind fun _ => expect_follows.bind fun _ => h.perform_arguments fun _ =>
    expect_follows.bind fun _ => .pure

/-- The part for statements follows their rule. -/
theorem perform_statement (calls : g.calls = true) (h : Conforms g carry) :
    Follows (g.statementWithin n) ((ofRule .statement).perform g.lexis carry frames) := by
  cases n with
  | zero => exact .exhausted
  | succ n =>
    intro c
    simp only [ofRule, perform_either]
    have nothing : Alike ((pure .empty : Parse Stmt) c.reading)
        ((Steps.call .empty .done).perform g.lexis carry frames c) :=
      (Follows.begun h.empty).last c
    obtain ⟨⟨token, cursor⟩, eaten, openings⟩ := c
    rw [Grammar.statementWithin, Parse.kind_bind]
    rcases token with ⟨⟨k | x⟩ | s | o | r | p, place⟩ | _
    · exact nothing
    · exact nothing
    · -- a name: what follows it directly tells a call from an assignment
      show Alike ((do if ← g.startsCall then g.call else g.assignment : Parse Stmt) _) _
      rw [Grammar.startsCall_bind, calls]
      show Alike _ (whether .call ((Steps.call .call .done).perform g.lexis carry frames) _
        ⟨⟨.lexeme (.name s) place, cursor⟩, eaten, openings⟩)
      by_cases paren : cursor.char? = some '('
      · have holds : Test.call.holds ⟨.lexeme (.name s) place, cursor⟩ = true := by
          simp [Test.holds, Token.kind, Lexeme.kind, paren]
        rw [if_pos ⟨rfl, paren⟩, whether, if_pos holds]
        exact (Follows.begun h.call).last ⟨⟨.lexeme (.name s) place, cursor⟩, eaten, openings⟩
      · have fails : ¬Test.call.holds ⟨.lexeme (.name s) place, cursor⟩ = true := by
          simp [Test.holds, paren]
        rw [if_neg fun both => paren both.2, whether, if_neg fails]
        exact (Follows.begun h.assignment).last ⟨⟨.lexeme (.name s) place, cursor⟩, eaten, openings⟩
    · exact nothing
    · cases r with
      | beginBlock => exact ((Follows.begun h.compound).bind fun _ => .pure) _
      | _ => exact nothing
    · exact nothing
    · exact nothing

/-- The part for statements with semicolons between them follows their rule. -/
theorem perform_statements (full : g.Full) (h : Conforms g carry) :
    Follows (g.statementsOf (g.statementWithin n)) ((ofRule .statements).perform g.lexis carry frames) := by
  refine Follows.separated rfl (Follows.begun h.statement) h.moreStatements fun statements c => ?_
  rw [Parse.kind_bind, full.guardsNames]
  exact .ok

/-- The part for compound statements follows their rule. -/
theorem perform_compound (h : Conforms g carry) :
    Follows (g.compoundOf (g.statementWithin n)) ((ofRule .compound).perform g.lexis carry frames) :=
  expect_follows.bind fun _ => (Follows.begun h.statements).bind fun _ => expect_follows.bind fun _ => .pure

/-- The part for types follows their rule. -/
theorem perform_typeRef : Follows g.typeRef ((ofRule .typeRef).perform g.lexis carry frames) := by
  intro c
  simp only [ofRule, perform_either]
  obtain ⟨⟨token, cursor⟩, eaten, openings⟩ := c
  rw [Grammar.typeRef, Parse.current_bind]
  rcases token with ⟨⟨k | x⟩ | s | o | r | p, place⟩ | _
  · exact reject_alike Kind.noConfusion
  · exact reject_alike Kind.noConfusion
  · exact reject_alike Kind.noConfusion
  · exact reject_alike Kind.noConfusion
  · cases r with
    | integerType | realType => exact (next_alike rfl).bind fun _ => .pure
    | _ => exact reject_alike fun same => by cases same
  · exact reject_alike Kind.noConfusion
  · exact reject_alike Kind.noConfusion

/-- The part for variables that share a type follows their rule. -/
theorem perform_bindings (h : Conforms g carry) :
    Follows g.bindings ((ofRule .bindings).perform g.lexis carry frames) :=
  Follows.separated rfl ident_follows h.moreVariableNames fun _ => expect_follows.bind fun _ =>
    (Follows.begun h.typeRef).bind fun _ => .pure

/-- The part for parameters that share a type follows their rule. -/
theorem perform_parameters (h : Conforms g carry) :
    Follows g.bindings ((ofRule .parameters).perform g.lexis carry frames) :=
  Follows.separated rfl ident_follows h.moreParameterNames fun _ => expect_follows.bind fun _ =>
    (Follows.begun h.typeRef).bind fun _ => .pure

/-- The part for lists of parameters follows their rule. -/
theorem perform_parameterList (h : Conforms g carry) :
    Follows g.parameterList ((ofRule .parameterList).perform g.lexis carry frames) := by
  rw [ofRule, perform_either]
  refine .whether (fun c named => ?_) fun c other => ?_
  · have name : c.reading.token.kind = .name := by simpa [Test.holds] using named
    rw [if_pos name]
    exact Follows.separated rfl (Follows.begun h.parameters) h.moreParameterGroups (fun _ => .pure) c
  · have name : c.reading.token.kind ≠ .name := by simpa [Test.holds] using other
    rw [if_neg name]
    exact .ok

/-- The part for procedures follows their rule. -/
theorem perform_procedure (full : g.Full) (h : Conforms g carry) :
    Follows (g.procedureOf (g.blockWithin n)) ((ofRule .procedure).perform g.lexis carry frames) := by
  have parameters : Follows g.parameterSection
      (whether (.among [.punctuation .leftParen])
        ((Steps.eat (.punctuation .leftParen) <| .call .parameterList <|
          .eat (.punctuation .rightParen) .done).perform g.lexis carry frames)
        (pure ())) := by
    refine .whether (fun c opened => ?_) fun c other => ?_
    · have paren : c.reading.token.kind = .punctuation .leftParen := by simpa [Test.holds] using opened
      rw [if_pos (by simp [full.parameters, paren])]
      exact (next_alike paren).bind fun _ => (Follows.begun h.parameterList).bind fun _ =>
        expect_follows.bind fun _ => .pure
    · have paren : c.reading.token.kind ≠ .punctuation .leftParen := by simpa [Test.holds] using other
      rw [if_neg (by simp [paren])]
      exact .ok
  exact expect_follows.bind fun _ => ident_follows.bind fun _ => parameters.bind fun _ =>
    expect_follows.bind fun _ => (Follows.begun h.block).bind fun _ => expect_follows.bind fun _ => .pure

/-- The part for declarations follows their rule. -/
theorem perform_declarations (full : g.Full) (h : Conforms g carry) :
    Follows (g.declarationsOf (g.blockWithin n)) ((ofRule .declarations).perform g.lexis carry frames) := by
  have vars : Follows g.vars
      (whether (.among [.reserved .var])
        ((Steps.eat (.reserved .var) <| .loop .variables .done).perform g.lexis carry frames) (pure ())) := by
    refine .whether (fun c opened => ?_) fun c other => ?_
    · have var : c.reading.token.kind = .reserved .var := by simpa [Test.holds] using opened
      rw [if_pos var]
      refine (expect_follows.bind fun _ => ?_) c
      exact Follows.bind (.budget fun _ => .many rfl h.moreVariables) fun _ => .pure
    · have var : c.reading.token.kind ≠ .reserved .var := by simpa [Test.holds] using other
      rw [if_neg var]
      exact .ok
  rw [Grammar.declarationsOf_eq full.interleaved]
  exact vars.bind fun _ => Follows.bind (.budget fun _ => .many rfl h.moreProcedures) fun _ => .pure

/-- The part for blocks follows their rule. -/
theorem perform_block (h : Conforms g carry) :
    Follows (g.blockWithin n) ((ofRule .block).perform g.lexis carry frames) := by
  cases n with
  | zero => exact .exhausted
  | succ n =>
    exact (Follows.begun h.declarations).bind fun _ =>
      (Follows.begun (.budget fun _ => h.compound)).bind fun _ => .pure

/-- The part for programs follows their rule. -/
theorem perform_program (h : Conforms g carry) :
    Follows g.program ((ofRule .program).perform g.lexis carry frames) :=
  expect_follows.bind fun _ => (Follows.begun h.var).bind fun _ => expect_follows.bind fun _ =>
    (Follows.begun (.budget fun _ => h.block)).bind fun _ => expect_follows.bind fun _ => .pure

/-- The part for whole texts follows their rule. -/
theorem perform_parse (full : g.Full) (h : Conforms g carry) :
    Follows g.parse ((ofRule .parse).perform g.lexis carry frames) := by
  rw [Grammar.parse, Grammar.whole_headed full.holes full.header, full.holes, bind_assoc]
  refine (Follows.begun h.program).bind fun p => ?_
  rw [perform_either, pure_bind]
  refine Follows.whether (fun c ended => ?_) fun c other => ?_
  · have last : c.reading.token.kind = .endOfText := by simpa [Test.holds] using ended
    rw [if_neg (by simp [last])]
    exact .ok
  · have more : c.reading.token.kind ≠ .endOfText := by simpa [Test.holds] using other
    rw [if_pos (by simp [more])]
    exact .error

/-- A round of the loop over variables follows a round of their list. -/
theorem perform_moreVariables (h : Conforms g carry) :
    Follows (round (· == .name) g.variableDecls n) ((ofLoop .variables).perform g.lexis carry frames) := by
  rw [round, Grammar.variableDecls, bind_assoc]
  refine (Follows.begun h.bindings).bind fun group => ?_
  rw [bind_assoc]
  exact expect_follows.bind fun _ => (Follows.many rfl h.moreVariables).bind fun _ => .pure

/-- A round of sums. The operator is eaten in the way that it decides for. -/
theorem perform_moreSums (h : Conforms g carry) {m : Nat} {o : Operator} {place : Place} {left : Expr}
    (token : c.reading.token = .lexeme (.operator o) place) (member : o ∈ [Operator.plus, .minus]) :
    Alike (operation g [.plus, .minus] (g.product (g.factorWithin m)) n o place left c.reading)
      ((ofLoop .sums).perform g.lexis carry frames c) := by
  obtain ⟨⟨_, cursor⟩, eaten, openings⟩ := c
  cases token
  refine operation_alike ?_ (Follows.begun h.term) (Follows.foldLeft rfl h.moreSums)
  simp only [perform_eat]
  cases o with
  | plus | minus => exact next_alike (c := ⟨⟨_, cursor⟩, eaten, openings⟩) rfl
  | times | slash | div => simp at member

/-- A round of the loop over products follows a round of their chain. -/
theorem perform_moreProducts (h : Conforms g carry) {m : Nat} {o : Operator} {place : Place} {left : Expr}
    (token : c.reading.token = .lexeme (.operator o) place) (member : o ∈ [Operator.times, .div, .slash]) :
    Alike (operation g [.times, .div, .slash] (g.factorWithin m) n o place left c.reading)
      ((ofLoop .products).perform g.lexis carry frames c) := by
  obtain ⟨⟨_, cursor⟩, eaten, openings⟩ := c
  cases token
  refine operation_alike ?_ (Follows.begun h.factor) (Follows.foldLeft rfl h.moreProducts)
  simp only [perform_either, perform_eat]
  cases o with
  | times | slash | div => exact next_alike (c := ⟨⟨_, cursor⟩, eaten, openings⟩) rfl
  | plus | minus => simp at member

end Conforms

/-- Routines follow their rules, however deep they may be nested. -/
theorem conforms (full : g.Full) (calls : g.calls = true) (depth : Nat) : Conforms g (execute g.lexis depth) := by
  induction depth with
  | zero =>
    -- with no level left every act is cut off
    constructor
    case moreSums | moreProducts => exact fun _ _ => .actEnds
    all_goals exact fun _ => .actEnds
  | succ depth h =>
    exact {
      factor := h.perform_factor full
      term := h.perform_term
      expr := h.perform_expr
      var := ident_follows.last
      assignment := h.perform_assignment
      call := h.perform_call
      empty := .pure
      statement := h.perform_statement calls
      statements := h.perform_statements full
      compound := h.perform_compound
      typeRef := Conforms.perform_typeRef
      bindings := h.perform_bindings
      parameters := h.perform_parameters
      parameterList := h.perform_parameterList
      procedure := h.perform_procedure full
      declarations := h.perform_declarations full
      block := h.perform_block
      program := h.perform_program
      parse := h.perform_parse full
      moreVariables := h.perform_moreVariables
      moreProcedures := (Follows.begun h.procedure).bind fun _ =>
        (Follows.many rfl h.moreProcedures).bind fun _ => .pure
      moreVariableNames := .preceded ident_follows (.many rfl h.moreVariableNames)
      moreParameterNames := .preceded ident_follows (.many rfl h.moreParameterNames)
      moreParameterGroups := .preceded (.begun h.parameters) (.many rfl h.moreParameterGroups)
      moreStatements := .preceded (.begun h.statement) (.many rfl h.moreStatements)
      moreArguments := .preceded (.begun h.wholeExpr) (.many rfl h.moreArguments)
      moreSums := h.perform_moreSums
      moreProducts := h.perform_moreProducts }

/-! ## Whole texts -/

/-- The routine for whole texts, from the first token on. -/
def parsing (lx : Lexis) (depth : Nat) (r : Reading) : EStateM.Result Fault Course Unit :=
  execute lx depth [] (.call .parse .done) (.start r)

/-- How far the routines came, whether they failed or not. -/
def course : EStateM.Result Fault Course Unit → Course
  | .ok _ c => c
  | .error _ c => c

/-- What the routines came to, with the reading alone. -/
def reached : EStateM.Result Fault Course Unit → EStateM.Result Fault Reading Unit
  | .ok _ c => .ok () c.reading
  | .error fault c => .error fault c.reading

/-- Where neither runs out of its bound a rule and an act come to the same. -/
theorem Alike.reached_eq {r : Reading} {outcome : EStateM.Result Fault Course Unit} (h : Alike (rule r) outcome)
    (bound : ∀ s, rule r ≠ .error .exhausted s) (bound' : ∀ c, outcome ≠ .error .exhausted c) :
    reached outcome = (do let _ ← rule : Parse Unit) r := by
  cases read : rule r with
  | ok a s =>
    rw [Work.bind_of_ok read]
    rw [read] at h
    cases h with
    | ok => rfl
    | actEnds => exact absurd rfl (bound' _)
  | error fault s =>
    rw [Work.bind_of_error read]
    rw [read] at h
    cases h with
    | error => rfl
    | ruleEnds => exact absurd read (bound s)
    | actEnds => exact absurd rfl (bound' _)

/-- Openings are in order all the way, and no more tokens are eaten than are left. -/
theorem parsing_fares (full : lx.Full) (depth : Nat) (r : Reading) :
    (course (parsing lx depth r)).Orderly ∧ (course (parsing lx depth r)).eaten ≤ lx.left r ∧
      (4 * (lx.left r + 1) ≤ depth → ∀ c, parsing lx depth r ≠ .error .exhausted c) := by
  -- the routine for whole texts has rank one, so it leads to parts of a rank below two
  have fares : Fares lx _ (4 * lx.left r + 2 < depth) (.start r) (parsing lx depth r) :=
    execute_fares full depth [] (.call .parse .done) (.start r) rfl .nil (List.forall_mem_nil _)
      (List.forall_mem_nil _)
  cases outcome : parsing lx depth r with
  | ok u c =>
    rw [outcome] at fares
    cases fares with
    | ok before =>
      have total : c.eaten + lx.left c.reading ≤ 0 + lx.left r := before.total
      refine ⟨before.orderly, ?_, fun _ _ same => by cases same⟩
      show c.eaten ≤ lx.left r
      omega
  | error fault c =>
    rw [outcome] at fares
    cases fares with
    | error orderly bound known =>
      refine ⟨orderly, ?_, fun enough c' same => ?_⟩
      · show c.eaten ≤ lx.left r
        rwa [Course.start, Nat.zero_add] at bound
      · cases same
        exact known (by omega) rfl

/-- The routine for whole texts follows its rule. -/
theorem parsing_alike (full : g.Full) (calls : g.calls = true) (depth : Nat) (r : Reading) :
    Alike (g.parse r) (parsing g.lexis depth r) := by
  cases depth with
  | zero => exact .actEnds
  | succ depth => exact (Follows.begun (conforms full calls depth).parse).last (.start r)

end Routine

/-! ## Texts of the last edition -/

/-- Comments are closed in what is left of a text, and no fault comes from a bound or an open comment. -/
def Watch.closed : Watch where
  fine r := commentsClosed false r.cursor.rest = true
  known fault := fault ≠ .exhausted ∧ fault ≠ .unclosedComment
  names _ := True

namespace Lexis

variable {lx : Lexis}

/-- Where comments are closed a call ends. -/
theorem Full.known_of_error (full : lx.Full) {c d : Cursor} {fault : Fault}
    (closed : commentsClosed false c.rest = true) (failed : lx.token c = .error fault d) :
    Watch.closed.known fault := by
  obtain ⟨_, _, _, _, _, blames⟩ := full.token_error closed failed
  cases blames <;> exact ⟨Fault.noConfusion, Fault.noConfusion⟩

/-- The reader keeps comments closed. -/
theorem Full.kept_closed (full : lx.Full) : Watch.closed.Kept lx where
  next {r s u} closed read := by
    have behind := full.commentsClosed_behind closed
    rwa [Parse.next_ok read] at behind
  fails {r s fault} closed failed := by
    obtain ⟨d, error⟩ := Parse.next_error failed
    exact full.known_of_error closed error
  refuses t := ⟨Fault.noConfusion, Fault.noConfusion⟩
  names _ _ := trivial

/-- Where comments are closed the parser of the last edition comes to a tree, or to a fault that is known. -/
theorem Full.parse_known (full : Edition.calls.lexis.Full) {r : Reading} (closed : Watch.closed.fine r) :
    (∃ node s, Edition.calls.grammar.parse r = .ok node s) ∨
      ∃ fault s, Edition.calls.grammar.parse r = .error fault s ∧ Watch.closed.known fault := by
  have contained :=
    Grammar.parse_contained (g := Edition.calls.grammar) full.kept_closed rfl rfl closed (Nat.lt_succ_self _)
  cases outcome : Edition.calls.grammar.parse r with
  | ok node s => exact .inl ⟨node, s, rfl⟩
  | error fault s =>
    rw [outcome] at contained
    cases contained with
    | failed known => exact .inr ⟨fault, s, rfl, known⟩

end Lexis

/-- The parser of the last edition on a text that is not empty and has closed comments. If the first token
cannot be read, the reader fails. Otherwise, whatever the text is and however deep the routines of the parser
may be nested: they eat no more tokens than there are lexemes up to the end of the text or to the first one that
cannot be read, and of two openings of the same routine, or two rounds of the same loop, of which one is nested in
the other, the inner one stands behind more eaten tokens. If they may be nested four levels deep for each of the
lexemes and once more, they come to what the parser comes to, tree apart. This is a tree or a fault, and the fault
comes neither from a bound nor from an open comment. -/
theorem parsing_ends {text : String} (nonempty : text ≠ "") (closed : commentsClosed false text.toList = true) :
    let lx := Edition.calls.lexis
    let g := Edition.calls.grammar
    let lexemes := lx.count (.start text.toList)
    (∀ fault, lx.openReading text = .error fault → fault ≠ .exhausted ∧ fault ≠ .unclosedComment) ∧
    ∀ r, lx.openReading text = .ok r →
      (∀ depth, (Routine.course (Routine.parsing lx depth r)).eaten ≤ lexemes ∧
        ∀ frames ∈ (Routine.course (Routine.parsing lx depth r)).openings,
          frames.Pairwise fun inner outer => inner.part = outer.part → outer.since < inner.since) ∧
      (∀ depth, 4 * (lexemes + 1) ≤ depth →
        Routine.reached (Routine.parsing lx depth r) = (do let _ ← g.parse : Parse Unit) r) ∧
      ((∃ node s, g.parse r = .ok node s) ∨
        ∃ fault s, g.parse r = .error fault s ∧ fault ≠ .exhausted ∧ fault ≠ .unclosedComment) := by
  intro lx g lexemes
  have full : lx.Full := Edition.full_lexis rfl
  -- the first token is read when the text is opened, before any routine is begun
  have opened := @Lexis.openReading_of_ne lx text nonempty
  cases read : lx.token (.start text.toList) with
  | error fault d =>
    rw [read] at opened
    refine ⟨fun fault' failed => ?_, fun r begun => ?_⟩
    · cases opened.symm.trans failed
      exact full.known_of_error closed read
    · cases opened.symm.trans begun
  | ok t d =>
    rw [read] at opened
    refine ⟨fun fault failed => (by cases opened.symm.trans failed), fun r begun => ?_⟩
    cases opened.symm.trans begun
    have count : lx.left ⟨t, d⟩ = lexemes := Lexis.left_of_token read
    have behind : Watch.closed.fine ⟨t, d⟩ := by
      have kept := full.commentsClosed_behind (c := .start text.toList) closed
      rwa [read] at kept
    have ends := full.parse_known behind
    have unbounded : ∀ s, g.parse ⟨t, d⟩ ≠ .error .exhausted s := by
      intro s failed
      rcases ends with ⟨node, s', done⟩ | ⟨fault, s', failed', known⟩
      · cases done.symm.trans failed
      · cases failed'.symm.trans failed
        exact known.1 rfl
    refine ⟨fun depth => ?_, fun depth enough => ?_, ends⟩
    · obtain ⟨orderly, eaten, _⟩ := Routine.parsing_fares full depth ⟨t, d⟩
      exact ⟨count ▸ eaten, fun frames member => (orderly frames member).since_lt⟩
    · obtain ⟨_, _, bound⟩ := Routine.parsing_fares full depth ⟨t, d⟩
      exact (Routine.parsing_alike Edition.full_calls rfl depth _).reached_eq unbounded (bound (count ▸ enough))

/-- A parenthesis that is not closed, in a nested statement. -/
theorem parsing_ends_at_open_parenthesis :
    let text := "PROGRAM p; BEGIN BEGIN x := (1 END END."
    let lx := Edition.calls.lexis
    text ≠ "" ∧ commentsClosed false text.toList = true ∧
    ∃ r, lx.openReading text = .ok r ∧
      (∀ depth, 4 * (lx.count (.start text.toList) + 1) ≤ depth →
        Routine.reached (Routine.parsing lx depth r) = (do let _ ← Edition.calls.grammar.parse : Parse Unit) r) ∧
      ∀ depth, (Routine.course (Routine.parsing lx depth r)).eaten ≤ lx.count (.start text.toList) := by
  intro text lx
  have nonempty : text ≠ "" := by decide
  have closed : commentsClosed false text.toList = true := by decide
  have begun : (lx.openReading text).isOk = true := by decide +kernel
  obtain ⟨_, parsed⟩ := parsing_ends nonempty closed
  cases opened : lx.openReading text with
  | error fault =>
    rw [opened] at begun
    cases begun
  | ok r =>
    obtain ⟨course, same, _⟩ := parsed r opened
    exact ⟨nonempty, closed, r, rfl, same, fun depth => (course depth).1⟩

end LittlePascal
