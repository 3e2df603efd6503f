import LittlePascal.Proofs.Lockstep
import LittlePascal.Proofs.Recognition

/-! # Rules and the layout of a text

What a rule makes of two texts with the same lexemes. Rules for expressions and declarations see
nothing but tokens, so they come to the same trees up to places. A statement that begins with a name
is told to be a call by the character behind the name, and that is the only point at which two
readings can part. `OpensStmt`, `OpensBlock` and `Grammar.Opens` describe how a text leads to such a
point: they are derivations that break off where a statement begins.

Main statements:
* `Expr.unplaced`, `Stmt.unplaced`, `Program.unplaced`: trees without their places;
* `Grammar.Opens`: the marks before a statement of a program;
* `Grammar.statementWithin_parallel`, `Grammar.blockWithin_parallel`, `Grammar.program_parallel`: two
  readings come to the same, or lead to a statement at which they part. -/

namespace LittlePascal

/-! ## Trees without places -/

/-- A name without its place. -/
def Ident.unplaced (id : Ident) : Ident := ⟨id.name, ⟨0, 0⟩⟩

/-- An expression without its places. -/
def Expr.unplaced : Expr → Expr
  | .literal l _ => .literal l ⟨0, 0⟩
  | .var id => .var id.unplaced
  | .signed sign _ operand => .signed sign ⟨0, 0⟩ operand.unplaced
  | .binary operator _ left right => .binary operator ⟨0, 0⟩ left.unplaced right.unplaced
  | .hole => .hole

/-- A type without its place. -/
def TypeRef.unplaced (type : TypeRef) : TypeRef := ⟨type.type, ⟨0, 0⟩⟩

/-- A name with its type without their places. -/
def Binding.unplaced (binding : Binding) : Binding := ⟨binding.id.unplaced, binding.type.unplaced⟩

namespace Stmt

mutual

/-- A statement without its places. -/
def unplaced : Stmt → Stmt
  | .compound children => .compound (unplacedAll children)
  | .assign target _ value => .assign target.unplaced ⟨0, 0⟩ value.unplaced
  | .call procedure arguments => .call procedure.unplaced (arguments.map Expr.unplaced)
  | .empty => .empty

/-- Statements without their places. -/
def unplacedAll : List Stmt → List Stmt
  | [] => []
  | statement :: rest => statement.unplaced :: unplacedAll rest

end

/-- Statements lose their places one by one. -/
theorem unplacedAll_eq_map (statements : List Stmt) :
    unplacedAll statements = statements.map unplaced := by
  induction statements with
  | nil => rfl
  | cons statement rest ih => rw [unplacedAll, List.map_cons, ih]

end Stmt

namespace Decl

mutual

/-- A declaration without its places. -/
def unplaced : Decl → Decl
  | .var binding => .var binding.unplaced
  | .procedure name parameters declarations body =>
    .procedure name (parameters.map Binding.unplaced) (unplacedAll declarations)
      (Stmt.unplacedAll body)

/-- Declarations without their places. -/
def unplacedAll : List Decl → List Decl
  | [] => []
  | declaration :: rest => declaration.unplaced :: unplacedAll rest

end

/-- Declarations lose their places one by one. -/
theorem unplacedAll_eq_map (declarations : List Decl) :
    unplacedAll declarations = declarations.map unplaced := by
  induction declarations with
  | nil => rfl
  | cons declaration rest ih => rw [unplacedAll, List.map_cons, ih]

end Decl

/-- A block without its places. -/
def Block.unplaced (b : Block) : Block :=
  ⟨Decl.unplacedAll b.declarations, Stmt.unplacedAll b.body⟩

/-- A program without its places. -/
def Program.unplaced (p : Program) : Program := ⟨p.name, p.block.unplaced⟩

/-- A tree without its places. -/
def Node.unplaced : Node → Node
  | .expr e => .expr e.unplaced
  | .stmt s => .stmt s.unplaced
  | .type t => .type t.unplaced
  | .parameter binding => .parameter binding.unplaced
  | .decl d => .decl d.unplaced
  | .block b => .block b.unplaced
  | .program p => .program p.unplaced

/-! ## Where statements begin -/

section Openings

variable (g : Grammar)

mutual

/-- From the beginning of a statement to the beginning of a statement in it, or of itself. -/
inductive OpensStmt : List Mark → Prop where
  | here : OpensStmt []
  | inside {ms : List Mark} : OpensCompound ms → OpensStmt ms

/-- From the beginning of a compound statement to the beginning of a statement in it. -/
inductive OpensCompound : List Mark → Prop where
  | compound {m : Mark} {ms : List Mark} :
      m.lexeme = .reserved .beginBlock → OpensStatements ms → OpensCompound (m :: ms)

/-- From the beginning of a list of statements to the beginning of a statement in it. -/
inductive OpensStatements : List Mark → Prop where
  | first {ms : List Mark} : OpensStmt ms → OpensStatements ms
  | later {m : Mark} {ms ns : List Mark} {s : Stmt} :
      DerivesStmt g ms s → m.lexeme = .punctuation .semicolon → OpensStatements ns →
      OpensStatements (ms ++ m :: ns)

end

mutual

/-- From the beginning of a procedure to the beginning of a statement in it. -/
inductive OpensProcedure : List Mark → Prop where
  | procedure {m n k : Mark} {ms ns : List Mark} {s : String} {parameters : List Binding} :
      m.lexeme = .reserved .procedure → n.lexeme = .name s → DerivesParameters ms parameters →
      k.lexeme = .punctuation .semicolon → OpensBlock ns →
      OpensProcedure (m :: n :: (ms ++ k :: ns))

/-- From the beginning of a list of procedures to the beginning of a statement in it. -/
inductive OpensProcedures : List Mark → Prop where
  | first {ms : List Mark} : OpensProcedure ms → OpensProcedures ms
  | later {ms ns : List Mark} {procedure : Decl} :
      DerivesProcedure g ms procedure → OpensProcedures ns → OpensProcedures (ms ++ ns)

/-- From the beginning of a block to the beginning of a statement in it. -/
inductive OpensBlock : List Mark → Prop where
  | procedures {ms ns : List Mark} {vars : List Decl} :
      DerivesVariables ms vars → OpensProcedures ns → OpensBlock (ms ++ ns)
  | body {ms ns ks : List Mark} {vars procedures : List Decl} :
      DerivesVariables ms vars → Repeated (DerivesProcedure g) ns procedures →
      OpensCompound g ks → OpensBlock (ms ++ (ns ++ ks))

end

/-- From the beginning of a program to the beginning of a statement in it. -/
inductive Grammar.Opens : List Mark → Prop where
  | program {m n k : Mark} {ms : List Mark} {s : String} :
      m.lexeme = .reserved .program → n.lexeme = .name s → k.lexeme = .punctuation .semicolon →
      OpensBlock g ms → Opens (m :: n :: k :: ms)

end Openings

/-! ## Where readings part -/

/-- A reading stands at a name, and the token behind it is a left parenthesis. -/
structure AtCall (lx : Lexis) (r t : Reading) : Prop where
  name : r.token.kind = .name
  step : Parse.next lx r = .ok () t
  paren : t.token.kind = .punctuation .leftParen

/-- Two readings part at a name with a left parenthesis behind it, which is the next character in one
of the texts only. -/
structure Parts (lx : Lexis) (r s : Reading) : Prop where
  ahead : ∃ n, Ahead lx n r s
  site : ∃ t, AtCall lx r t
  apart : ¬(r.cursor.char? = some '(' ↔ s.cursor.char? = some '(')

/-- Which of the two readings is the first does not matter. -/
theorem Parts.symm {lx : Lexis} {r s : Reading} (h : Parts lx r s) : Parts lx s r := by
  obtain ⟨⟨n, ahead⟩, ⟨t, site⟩, apart⟩ := h
  refine ⟨⟨n, ahead.symm⟩, ?_, fun same => apart same.symm⟩
  have name : s.token.kind = .name := by rw [← ahead.kind_eq, site.name]
  cases ahead with
  | done _ last =>
    rw [last] at name
    cases name
  | @step _ _ _ _ _ _ r' s' _ _ step step' rest =>
    have same := site.step
    rw [step] at same
    cases same
    exact ⟨s', name, step', by rw [← rest.kind_eq, site.paren]⟩

/-- Two readings lead over openings to readings that part. -/
def PartBehind (lx : Lexis) (Opening : List Mark → Prop) (r s : Reading) : Prop :=
  ∃ us vs r' s', Opening us ∧ Opening vs ∧ Passage lx r us r' ∧ Passage lx s vs s' ∧ Parts lx r' s'

/-- Openings of one form are openings of another. -/
theorem PartBehind.mono {lx : Lexis} {Opening Wider : List Mark → Prop} {r s : Reading}
    (wider : ∀ {ms}, Opening ms → Wider ms) (h : PartBehind lx Opening r s) :
    PartBehind lx Wider r s := by
  obtain ⟨us, vs, r', s', opens, opens', passage, passage', parts⟩ := h
  exact ⟨us, vs, r', s', wider opens, wider opens', passage, passage', parts⟩

/-- Readings that part behind what a rule has read part behind what stands before it. -/
theorem Parse.Sound.partBehind {α : Type} {lx : Lexis} {x y : Parse α}
    {Form : List Mark → α → Prop} {Opening Wider : List Mark → Prop} (sound : Sound lx x Form)
    (sound' : Sound lx y Form)
    (extend : ∀ {us a ws}, Form us a → Opening ws → Wider (us ++ ws)) ⦃a b : α⦄
    ⦃r r' s s' : Reading⦄ (read : x r = .ok a r') (read' : y s = .ok b s')
    (h : PartBehind lx Opening r' s') : PartBehind lx Wider r s := by
  obtain ⟨ms, before, form⟩ := sound read
  obtain ⟨ns, before', form'⟩ := sound' read'
  obtain ⟨us, vs, r'', s'', opens, opens', passage, passage', parts⟩ := h
  exact ⟨ms ++ us, ns ++ vs, r'', s'', extend form opens, extend form' opens',
    before.append passage, before'.append passage', parts⟩

/-- What has a form, and then an opening. -/
inductive Followed {α : Type} (Form : List Mark → α → Prop) (Opening : List Mark → Prop) :
    List Mark → Prop where
  | mk {us ws : List Mark} {a : α} : Form us a → Opening ws → Followed Form Opening (us ++ ws)

/-- Behind a rule that sees nothing but tokens and reads what has a form, readings part behind that
form. -/
theorem Parallel.led {α β γ δ : Type} {lx : Lexis} {bound d : Nat} {view : α → γ} {view' : β → δ}
    {Form : List Mark → α → Prop} {Opening : List Mark → Prop} {x : Parse α} {f g : α → Parse β}
    (first : Parallel lx bound d view Never x x) (sound : Parse.Sound lx x Form)
    (second : ∀ a b, view a = view b →
      Parallel lx (bound - d) 0 view' (PartBehind lx Opening) (f a) (g b)) :
    Parallel lx bound d view' (PartBehind lx (Followed Form Opening)) (x >>= f) (x >>= g) :=
  first.behind second (sound.partBehind sound .mk)

namespace Grammar

open Parse

variable {g : Grammar} {bound : Nat}

/-! ## Expressions side by side -/

/-- Chains are read in parallel if their operands are. -/
theorem chain_parallel {operators : List Operator} {x y : Parse Expr}
    (operand : Parallel g.lexis bound 1 Expr.unplaced Never x y) :
    Parallel g.lexis bound 1 Expr.unplaced Never (g.chain operators x) (g.chain operators y) := by
  refine operand.before fun a b same n r s ahead short => ?_
  obtain ⟨enough, enough'⟩ := ahead.lt_budget
  rw [budget_bind, budget_bind]
  refine foldLeft_parallel (fun same same' => ?_) operand.loosen
    (n + 1) (by omega) enough enough' same ahead (Nat.lt_succ_self n)
  rw [Expr.unplaced, Expr.unplaced, same, same']

/-- Sums are read in parallel if their factors are. -/
theorem sum_parallel {x y : Parse Expr}
    (factor : Parallel g.lexis bound 1 Expr.unplaced Never x y) :
    Parallel g.lexis bound 1 Expr.unplaced Never (g.sum x) (g.sum y) :=
  chain_parallel (chain_parallel factor)

/-- Operands that are names are read in parallel. -/
theorem lastFactor_parallel (full : g.Full) :
    Parallel g.lexis bound 1 Expr.unplaced Never g.lastFactor g.lastFactor := by
  rw [lastFactor, full.holes]
  refine ident_parallel.map fun a b same => ?_
  rw [Expr.unplaced, Expr.unplaced, Ident.unplaced, Ident.unplaced, same]

/-- Operands are read in parallel, at every level of nesting. -/
theorem factorWithin_parallel (full : g.Full) (k : Nat) :
    ∀ {m m' : Nat}, k ≤ m → k ≤ m' →
      Parallel g.lexis k 1 Expr.unplaced Never (g.factorWithin m) (g.factorWithin m') := by
  induction k with
  | zero =>
    intro m m' _ _
    exact .zero
  | succ k ih =>
    intro m m' more more' n r s ahead short
    obtain ⟨m, rfl⟩ : ∃ j, m = j + 1 := ⟨m - 1, by omega⟩
    obtain ⟨m', rfl⟩ : ∃ j, m' = j + 1 := ⟨m' - 1, by omega⟩
    have last := @lastFactor_parallel g (k + 1) full n r s ahead short
    have inner := @ih m m' (by omega) (by omega)
    rw [factorWithin, factorWithin, current_bind, current_bind]
    cases ahead with
    | done ends ends' =>
      rw [ends, ends']
      exact last
    | @step n l p q _ _ r' s' token token' next next' rest =>
      -- behind the first token the operand goes on with rules that are parallel
      have signed : ∀ sign : Sign, Together g.lexis Expr.unplaced (Never r s) (n + 1) 1 r s
          ((do Parse.next g.lexis; return .signed sign p (← g.factorWithin m) : Parse Expr) r)
          ((do Parse.next g.lexis; return .signed sign q (← g.factorWithin m') : Parse Expr) s) := by
        intro sign
        have operand : Parallel g.lexis k 1 Expr.unplaced Never
            (do return .signed sign p (← g.factorWithin m))
            (do return .signed sign q (← g.factorWithin m')) :=
          inner.map fun a b same => by rw [Expr.unplaced, Expr.unplaced, same]
        exact operand.next_bind token token' next next' rest (by omega) (by omega)
      rw [token, token']
      cases l with
      | literal l =>
        have literal : Parallel g.lexis (n + 1) 0 Expr.unplaced Never (return .literal l p)
            (return .literal l q) := .pure rfl
        exact literal.next_bind token token' next next' rest (by omega) (by omega)
      | punctuation mark =>
        cases mark with
        | leftParen =>
          have parens : Parallel g.lexis k 2 Expr.unplaced Never
              (do
                let inner ← g.sum (g.factorWithin m)
                expect g.lexis (.punctuation .rightParen)
                return inner)
              (do
                let inner ← g.sum (g.factorWithin m')
                expect g.lexis (.punctuation .rightParen)
                return inner) :=
            (sum_parallel inner).seq fun a b same =>
              (expect_parallel Kind.noConfusion).map fun _ _ _ => same
          exact parens.next_bind token token' next next' rest (by omega) (by omega)
        | _ => exact last
      | operator o =>
        cases o with
        | plus | minus =>
          simp only [full.signs, if_true]
          exact signed _
        | _ => exact last
      | name | reserved => exact last

/-- Expressions are read in parallel, up to places. -/
theorem expr_parallel (full : g.Full) :
    Parallel g.lexis bound 1 Expr.unplaced Never g.expr g.expr := by
  intro n r s ahead short
  obtain ⟨enough, enough'⟩ := ahead.lt_budget
  rw [expr, budget_bind, budget_bind]
  exact sum_parallel (factorWithin_parallel full (n + 1) enough enough') ahead (Nat.lt_succ_self n)

/-! ## Declarations side by side -/

/-- Types are read in parallel, up to places. -/
theorem typeRef_parallel :
    Parallel g.lexis bound 1 TypeRef.unplaced Never g.typeRef g.typeRef := by
  intro n r s ahead short
  rw [typeRef, current_bind, current_bind]
  cases ahead with
  | done last last' =>
    rw [last, last']
    exact Parallel.reject (.done last last') short
  | @step n l p q _ _ r' s' token token' next next' rest =>
    have named : ∀ type, Parallel g.lexis (n + 1) 0 TypeRef.unplaced Never (return ⟨type, p⟩)
        (return ⟨type, q⟩) := fun _ => .pure rfl
    have refused : Together g.lexis TypeRef.unplaced (Never r s) (n + 1) 1 r s (reject r) (reject s) :=
      Parallel.reject (.step token token' next next' rest) short
    rw [token, token']
    cases l with
    | reserved word =>
      cases word with
      | integerType | realType =>
        exact (named _).next_bind token token' next next' rest (by omega) (by omega)
      | _ => exact refused
    | _ => exact refused

/-- Names that share a type are read in parallel. -/
theorem bindings_parallel :
    Parallel g.lexis bound 1 (List.map Binding.unplaced) Never g.bindings g.bindings := by
  refine (separated_parallel_never Kind.noConfusion ident_parallel).before fun ids ids' same => ?_
  refine ((expect_parallel Kind.noConfusion).before fun _ _ _ => ?_).loosen
  refine (typeRef_parallel.map fun type type' same' => ?_).loosen
  have bound : ∀ (ids : List Ident) (type : TypeRef),
      (ids.map fun id => (⟨id, type⟩ : Binding)).map Binding.unplaced =
        (ids.map Ident.name).map fun name => ⟨⟨name, ⟨0, 0⟩⟩, type.unplaced⟩ := by
    intro ids type
    rw [List.map_map, List.map_map]
    rfl
  rw [bound, bound, same, same']

/-- The parameters of a procedure are read in parallel. -/
theorem parameterSection_parallel (full : g.Full) :
    Parallel g.lexis bound 0 (List.map Binding.unplaced) Never g.parameterSection
      g.parameterSection := by
  have groups : Parallel g.lexis bound 0 (List.map Binding.unplaced) Never g.parameterList
      g.parameterList := by
    refine .kind_bind fun kind => ?_
    split
    · refine ((separated_parallel_never Kind.noConfusion bindings_parallel).map
        fun as bs sames => ?_).loosen
      rw [List.map_flatten, List.map_flatten, sames]
    · exact .pure rfl
  have closed : Parallel g.lexis bound 0 (List.map Binding.unplaced) Never
      (do
        let parameters ← g.parameterList
        expect g.lexis (.punctuation .rightParen)
        return parameters)
      (do
        let parameters ← g.parameterList
        expect g.lexis (.punctuation .rightParen)
        return parameters) :=
    groups.before fun as bs sames =>
      ((expect_parallel Kind.noConfusion).map fun _ _ _ => sames).loosen
  intro n r s ahead short
  rw [parameterSection, kind_bind, kind_bind, ahead.kind_eq, full.parameters, Bool.true_and]
  split
  · rename_i opened
    rw [decide_eq_true_eq] at opened
    -- the opening parenthesis is passed by a bare step, so it has to be there on both sides
    cases ahead with
    | done _ last =>
      rw [last] at opened
      cases opened
    | step token token' next next' rest =>
      exact closed.next_bind token token' next next' rest (by omega) (Nat.zero_le _)
  · exact .ok rfl (.refl ahead) (Nat.le_refl _)

/-- Sections of variables are read in parallel. -/
theorem variableSection_parallel :
    Parallel g.lexis bound 0 (List.map Decl.unplaced) Never g.variableSection g.variableSection := by
  have group : Parallel g.lexis bound 1 (List.map Decl.unplaced) Never g.variableDecls
      g.variableDecls := by
    refine bindings_parallel.before fun as bs sames => ?_
    refine ((expect_parallel Kind.noConfusion).map fun _ _ _ => ?_).loosen
    have unplaced : ∀ group : List Binding,
        (group.map Decl.var).map Decl.unplaced = (group.map Binding.unplaced).map Decl.var := by
      intro group
      rw [List.map_map, List.map_map]
      rfl
    rw [unplaced, unplaced, sames]
  refine ((expect_parallel Kind.noConfusion).before fun _ _ _ => ?_).loosen
  refine ((many_parallel group id fun _ _ _ _ _ _ _ _ never => never).mono (Nat.sub_le _ _)
    (Nat.le_refl 0) id).map fun as bs sames => ?_
  rw [List.map_flatten, List.map_flatten, sames]

/-! ## Statements side by side -/

/-- The arguments of a call are read in parallel. -/
theorem arguments_parallel (full : g.Full) :
    Parallel g.lexis bound 0 (List.map Expr.unplaced) Never g.arguments g.arguments := by
  refine .kind_bind fun kind => ?_
  split
  · exact .pure rfl
  · exact (separated_parallel_never Kind.noConfusion (expr_parallel full)).loosen

/-- Procedure calls are read in parallel. -/
theorem call_parallel (full : g.Full) :
    Parallel g.lexis bound 1 Stmt.unplaced Never g.call g.call := by
  refine ident_parallel.before fun id id' same => ?_
  refine ((expect_parallel Kind.noConfusion).before fun _ _ _ => ?_).loosen
  refine (arguments_parallel full).before fun as bs sames => ?_
  refine ((expect_parallel Kind.noConfusion).map fun _ _ _ => ?_).loosen
  rw [Stmt.unplaced, Stmt.unplaced, Ident.unplaced, Ident.unplaced, same, sames]

/-- Assignments are read in parallel. -/
theorem assignment_parallel (full : g.Full) :
    Parallel g.lexis bound 1 Stmt.unplaced Never g.assignment g.assignment := by
  refine ident_parallel.before fun target target' same n r s ahead short => ?_
  rw [current_bind, current_bind]
  cases ahead with
  | done last last' =>
    rw [last, last']
    exact Parallel.reject (.done last last') short
  | @step n l p q _ _ r' s' token token' next next' rest =>
    have refused : Together g.lexis Stmt.unplaced (Never r s) (n + 1) 0 r s (reject r) (reject s) :=
      Parallel.reject (.step token token' next next' rest) short
    rw [token, token']
    cases l with
    | punctuation mark =>
      cases mark with
      | assign =>
        have value : Parallel g.lexis bound 1 Stmt.unplaced Never
            (do return .assign target p (← g.expr)) (do return .assign target' q (← g.expr)) :=
          (expr_parallel full).map fun a b same' => by
            rw [Stmt.unplaced, Stmt.unplaced, Ident.unplaced, Ident.unplaced, same, same']
        exact value.next_bind token token' next next' rest (by omega) (Nat.zero_le _)
      | _ => exact refused
    | _ => exact refused

/-- Compound statements are read in parallel if their children are. -/
theorem compoundOf_parallel (full : g.Full) {x y : Parse Stmt}
    (sound : Sound g.lexis x (DerivesStmt g)) (sound' : Sound g.lexis y (DerivesStmt g))
    (statement : Parallel g.lexis bound 0 Stmt.unplaced (PartBehind g.lexis (OpensStmt g)) x y) :
    Parallel g.lexis (bound + 1) 1 (List.map Stmt.unplaced)
      (PartBehind g.lexis (OpensCompound g)) (g.compoundOf x) (g.compoundOf y) := by
  have statements : Parallel g.lexis bound 0 (List.map Stmt.unplaced)
      (PartBehind g.lexis (OpensStatements g)) (g.statementsOf x) (g.statementsOf y) := by
    have mark := @expect_sound g.lexis (.punctuation .semicolon) _ rfl
    rw [statementsOf_eq full, statementsOf_eq full]
    -- behind a statement, what is left of the list begins with a semicolon
    refine separated_parallel
      (R := PartBehind g.lexis fun ms => ∃ m ns, ms = m :: ns ∧
        m.lexeme = .punctuation .semicolon ∧ OpensStatements g ns)
      Kind.noConfusion statement (PartBehind.mono .first) (sound.partBehind sound' ?_)
      (mark.partBehind mark ?_) ((preceded_sound sound).partBehind (preceded_sound sound') ?_)
    · rintro us a ws form ⟨m, ns, rfl, semicolon, opens⟩
      exact .later form semicolon opens
    · rintro us a ws ⟨m, rfl, semicolon⟩ opens
      exact ⟨m, ws, rfl, semicolon, .first opens⟩
    · rintro us a ws ⟨semicolon, form⟩ ⟨m, ns, rfl, semicolon', opens⟩
      exact ⟨_, _, rfl, semicolon, .later form semicolon' opens⟩
  have closed : Parallel g.lexis bound 0 (List.map Stmt.unplaced)
      (PartBehind g.lexis (OpensStatements g))
      (do
        let statements ← g.statementsOf x
        expect g.lexis (.reserved .endBlock)
        return statements)
      (do
        let statements ← g.statementsOf y
        expect g.lexis (.reserved .endBlock)
        return statements) :=
    statements.before fun as bs sames =>
      ((expect_parallel Kind.noConfusion).map fun _ _ _ => sames).loosen
  refine ((expect_parallel Kind.noConfusion).led (expect_sound rfl) fun _ _ _ => closed).mono
    (Nat.le_refl _) (Nat.le_refl 1) (PartBehind.mono ?_)
  rintro _ ⟨⟨m, rfl, begins⟩, opens⟩
  exact .compound begins opens

/-- Statements that begin with the same name come to the same, unless the readings part here. -/
theorem named_parallel (full : g.Full) {n : Nat} {r s : Reading} (ahead : Ahead g.lexis n r s)
    (name : r.token.kind = .name) :
    Together g.lexis Stmt.unplaced (Parts g.lexis r s) n 0 r s
      ((do if ← g.startsCall then g.call else g.assignment : Parse Stmt) r)
      ((do if ← g.startsCall then g.call else g.assignment : Parse Stmt) s) := by
  have call : Together g.lexis Stmt.unplaced (Parts g.lexis r s) n 0 r s (g.call r) (g.call s) :=
    ((call_parallel full).loosen ahead (Nat.lt_succ_self n)).mono (Nat.le_refl 0) False.elim
  have assignment : Together g.lexis Stmt.unplaced (Parts g.lexis r s) n 0 r s (g.assignment r)
      (g.assignment s) :=
    ((assignment_parallel full).loosen ahead (Nat.lt_succ_self n)).mono (Nat.le_refl 0) False.elim
  rw [startsCall_bind, startsCall_bind]
  by_cases calls : g.calls = true
  · by_cases same : r.cursor.char? = some '(' ↔ s.cursor.char? = some '('
    · simp only [same]
      split
      · exact call
      · exact assignment
    · -- in one of the texts the parenthesis is there, so it is the next token in both
      have site : ∃ t, AtCall g.lexis r t := by
        cases ahead with
        | done last _ =>
          rw [last] at name
          cases name
        | @step _ _ _ _ _ _ r' s' _ _ next next' rest =>
          refine ⟨r', name, next, ?_⟩
          by_cases here : r.cursor.char? = some '('
          · rw [full.token_behind calls here next]
            rfl
          · have there : s.cursor.char? = some '(' := by simpa [here] using same
            rw [rest.kind_eq, full.token_behind calls there next']
            rfl
      exact .split ⟨⟨n, ahead⟩, site, same⟩
  · rw [if_neg fun starts => calls starts.1, if_neg fun starts => calls starts.1]
    exact assignment

/-- Statements are read in parallel, at every level of nesting, unless the readings part. -/
theorem statementWithin_parallel (full : g.Full) (k : Nat) :
    ∀ {m m' : Nat}, k ≤ m → k ≤ m' →
      Parallel g.lexis k 0 Stmt.unplaced (PartBehind g.lexis (OpensStmt g)) (g.statementWithin m)
        (g.statementWithin m') := by
  induction k with
  | zero =>
    intro m m' _ _
    exact .zero
  | succ k ih =>
    intro m m' more more' n r s ahead short
    obtain ⟨m, rfl⟩ : ∃ j, m = j + 1 := ⟨m - 1, by omega⟩
    obtain ⟨m', rfl⟩ : ∃ j, m' = j + 1 := ⟨m' - 1, by omega⟩
    -- the word that opens a compound statement takes a lexeme, so its children are within the bound
    have compound : Parallel g.lexis (k + 1) 0 Stmt.unplaced (PartBehind g.lexis (OpensStmt g))
        (do return .compound (← g.compoundOf (g.statementWithin m)))
        (do return .compound (← g.compoundOf (g.statementWithin m'))) :=
      ((compoundOf_parallel full (statementWithin_sound full m) (statementWithin_sound full m')
        (ih (by omega) (by omega))).map fun as bs sames => by
          rw [Stmt.unplaced, Stmt.unplaced, Stmt.unplacedAll_eq_map, Stmt.unplacedAll_eq_map,
            sames]).mono (Nat.le_refl _) (Nat.zero_le _) (PartBehind.mono .inside)
    have named := named_parallel full ahead
    rw [statementWithin, statementWithin, kind_bind, kind_bind, ← ahead.kind_eq]
    generalize r.token.kind = kind at named
    have empty : Together g.lexis Stmt.unplaced (PartBehind g.lexis (OpensStmt g) r s) n 0 r s
        ((return .empty : Parse Stmt) r) ((return .empty : Parse Stmt) s) :=
      .ok rfl (.refl ahead) (Nat.le_refl _)
    cases kind with
    | reserved word =>
      cases word with
      | beginBlock => exact compound ahead short
      | _ => exact empty
    | name =>
      refine (named rfl).mono (Nat.le_refl 0) fun parts => ?_
      exact ⟨[], [], r, s, .here, .here, .nil r, .nil s, parts⟩
    | _ => exact empty

/-- Compound statements are read in parallel, unless the readings part inside. -/
theorem compound_parallel (full : g.Full) :
    Parallel g.lexis bound 0 (List.map Stmt.unplaced) (PartBehind g.lexis (OpensCompound g))
      g.compound g.compound := by
  intro n r s ahead short
  obtain ⟨enough, enough'⟩ := ahead.lt_budget
  rw [compound, budget_bind, budget_bind]
  exact (compoundOf_parallel full (statementWithin_sound full _) (statementWithin_sound full _)
    (statementWithin_parallel full (n + 1) enough enough')).loosen ahead (by omega)

/-! ## Blocks side by side -/

/-- Procedures are read in parallel if their blocks are. -/
theorem procedureOf_parallel (full : g.Full) {x y : Parse Block}
    (block : Parallel g.lexis bound 0 Block.unplaced (PartBehind g.lexis (OpensBlock g)) x y) :
    Parallel g.lexis (bound + 1) 1 Decl.unplaced (PartBehind g.lexis (OpensProcedure g))
      (g.procedureOf x) (g.procedureOf y) := by
  have inside : ∀ {name name' ps ps'}, name = name' →
      ps.map Binding.unplaced = ps'.map Binding.unplaced →
      Parallel g.lexis bound 0 Decl.unplaced (PartBehind g.lexis (OpensBlock g))
        (do
          let inner ← x
          expect g.lexis (.punctuation .semicolon)
          return .procedure name ps inner.declarations inner.body)
        (do
          let inner ← y
          expect g.lexis (.punctuation .semicolon)
          return .procedure name' ps' inner.declarations inner.body) := by
    intro name name' ps ps' same sames
    refine block.before fun inner inner' same' => ?_
    refine ((expect_parallel Kind.noConfusion).map fun _ _ _ => ?_).loosen
    rw [Block.unplaced, Block.unplaced, Block.mk.injEq] at same'
    rw [Decl.unplaced, Decl.unplaced, same, sames, same'.1, same'.2]
  have mark := @expect_parallel g.lexis
  refine ((mark Kind.noConfusion).led (expect_sound rfl) fun _ _ _ =>
    (ident_parallel.led ident_sound fun _ _ same =>
      (parameterSection_parallel full).led (parameterSection_sound full) fun _ _ sames =>
        ((mark Kind.noConfusion).led (expect_sound rfl) fun _ _ _ =>
          (inside same sames).mono (Nat.sub_le_of_le_add ?_) (Nat.le_refl 0) id).loosen).loosen).mono
    (Nat.le_refl _) (Nat.le_refl 1) (PartBehind.mono ?_)
  · omega
  · rintro _ ⟨⟨m, rfl, word⟩, ⟨⟨name⟩, ⟨form, ⟨⟨k, rfl, semicolon⟩, opens⟩⟩⟩⟩
    exact .procedure word name form semicolon opens

/-- The declarations of a block are read in parallel if the blocks in them are. -/
theorem declarationsOf_parallel (full : g.Full) {x y : Parse Block}
    (sound : Sound g.lexis x (DerivesBlock g)) (sound' : Sound g.lexis y (DerivesBlock g))
    (block : Parallel g.lexis bound 0 Block.unplaced (PartBehind g.lexis (OpensBlock g)) x y) :
    Parallel g.lexis (bound + 1) 0 (List.map Decl.unplaced)
      (PartBehind g.lexis (Followed DerivesVariables (OpensProcedures g)))
      (g.declarationsOf x) (g.declarationsOf y) := by
  have declared : Parallel g.lexis (bound + 1) 0 (List.map Decl.unplaced) Never g.vars g.vars := by
    refine .kind_bind fun kind => ?_
    split
    · exact variableSection_parallel
    · exact .pure rfl
  have procedures : Parallel g.lexis (bound + 1) 0 (List.map Decl.unplaced)
      (PartBehind g.lexis (OpensProcedures g))
      (many (.reserved .procedure) (g.procedureOf x))
      (many (.reserved .procedure) (g.procedureOf y)) :=
    many_parallel (procedureOf_parallel full block) (PartBehind.mono .first)
      ((procedureOf_sound full sound).partBehind (procedureOf_sound full sound') .later)
  rw [declarationsOf_eq full.interleaved, declarationsOf_eq full.interleaved]
  refine declared.led vars_sound fun as bs same => procedures.map fun as' bs' same' => ?_
  rw [List.map_append, List.map_append, same, same']

/-- Blocks are read in parallel, at every level of nesting, unless the readings part. -/
theorem blockWithin_parallel (full : g.Full) (k : Nat) :
    ∀ {m m' : Nat}, k ≤ m → k ≤ m' →
      Parallel g.lexis k 0 Block.unplaced (PartBehind g.lexis (OpensBlock g)) (g.blockWithin m)
        (g.blockWithin m') := by
  induction k with
  | zero =>
    intro m m' _ _
    exact .zero
  | succ k ih =>
    intro m m' more more'
    obtain ⟨m, rfl⟩ : ∃ j, m = j + 1 := ⟨m - 1, by omega⟩
    obtain ⟨m', rfl⟩ : ∃ j, m' = j + 1 := ⟨m' - 1, by omega⟩
    have sound := @blockWithin_sound g full
    have declarations : Parallel g.lexis (k + 1) 0 (List.map Decl.unplaced)
        (PartBehind g.lexis (OpensBlock g)) (g.declarationsOf (g.blockWithin m))
        (g.declarationsOf (g.blockWithin m')) :=
      (declarationsOf_parallel full (sound m) (sound m') (ih (by omega) (by omega))).mono
        (Nat.le_refl _) (Nat.le_refl 0) (PartBehind.mono fun ⟨form, opens⟩ => .procedures form opens)
    -- readings can part in the declarations or, behind them, in the statements
    refine declarations.bind (fun as bs same => (compound_parallel full).map fun as' bs' same' => ?_)
      ((declarationsOf_sound full (sound m)).partBehind (declarationsOf_sound full (sound m')) ?_)
    · rw [Block.unplaced, Block.unplaced, Decl.unplacedAll_eq_map, Decl.unplacedAll_eq_map,
        Stmt.unplacedAll_eq_map, Stmt.unplacedAll_eq_map, same, same']
    · rintro _ _ ws ⟨ms, ns, vars, procedures, rfl, rfl, form, forms⟩ opens
      rw [List.append_assoc]
      exact .body form forms opens

/-! ## Programs side by side -/

/-- Programs are read in parallel, unless the readings part inside. -/
theorem program_parallel (full : g.Full) :
    Parallel g.lexis bound 0 Program.unplaced (PartBehind g.lexis g.Opens) g.program g.program := by
  have block : Parallel g.lexis bound 0 Block.unplaced (PartBehind g.lexis (OpensBlock g)) g.block
      g.block := by
    intro n r s ahead short
    obtain ⟨enough, enough'⟩ := ahead.lt_budget
    rw [Grammar.block, budget_bind, budget_bind]
    exact blockWithin_parallel full (n + 1) enough enough' ahead (Nat.lt_succ_self n)
  have inside : ∀ {name name'}, name = name' →
      Parallel g.lexis bound 0 Program.unplaced (PartBehind g.lexis (OpensBlock g))
        (do
          let block ← g.block
          expect g.lexis (.punctuation .dot)
          return ⟨name, block⟩)
        (do
          let block ← g.block
          expect g.lexis (.punctuation .dot)
          return ⟨name', block⟩) := by
    intro name name' same
    refine block.before fun b b' same' => ?_
    refine ((expect_parallel Kind.noConfusion).map fun _ _ _ => ?_).loosen
    rw [Program.unplaced, Program.unplaced, same, same']
  have mark := @expect_parallel g.lexis
  refine ((mark Kind.noConfusion).led (expect_sound rfl) fun _ _ _ =>
    (ident_parallel.led ident_sound fun _ _ same =>
      ((mark Kind.noConfusion).led (expect_sound rfl) fun _ _ _ =>
        (inside same).mono (Nat.sub_le_of_le_add ?_) (Nat.le_refl 0) id).loosen).loosen).mono
    (Nat.le_refl bound) (Nat.zero_le 1) (PartBehind.mono ?_)
  · omega
  · rintro _ ⟨⟨m, rfl, word⟩, ⟨⟨name⟩, ⟨⟨k, rfl, semicolon⟩, opens⟩⟩⟩
    exact .program word name semicolon opens

end Grammar

end LittlePascal
