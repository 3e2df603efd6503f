import LittlePascal.Proofs.Verdict

/-! # Names that the analysis overlooks

The analysis of scopes looks at the variables of a statement, but it does not go behind a sign, and it
does not look at the name of a procedure that is called. So the names of an accepted program are visible
only as far as they are looked at: a name in one of the two other places may be any name at all.

Main definitions:
* `Stmt.mentions`, `Stmt.overlooked`: all names in a statement, and those that are not looked at;
* `Program.Resolves`: names are visible in the blocks of a program;
* `Program.reworded`: a program with other names in the places that are not looked at.

Main statements:
* `Stmt.mem_mentionsAll_iff`: a name in a statement is looked at or overlooked;
* `Scoped.program_reworded`: the analysis is the same work, whatever the overlooked names are;
* `resolves_iff_overlooked_resolve`: in an accepted program all names are visible exactly if the
  overlooked ones are. -/

namespace LittlePascal

/-! ## All names, and those that are overlooked -/

namespace Expr

/-- The variables of an expression in order, whatever they stand behind. -/
def mentions : Expr → List Ident
  | .literal _ _ => []
  | .var id => [id]
  | .signed _ _ operand => operand.mentions
  | .binary _ _ left right => left.mentions ++ right.mentions
  | .hole => []

/-- The variables of an expression that stand behind a sign. -/
def overlooked : Expr → List Ident
  | .signed _ _ operand => operand.mentions
  | .binary _ _ left right => left.overlooked ++ right.overlooked
  | _ => []

/-- A variable of an expression is looked at or overlooked. -/
theorem mem_mentions_iff {id : Ident} {e : Expr} :
    id ∈ e.mentions ↔ id ∈ e.uses ∨ id ∈ e.overlooked := by
  induction e with
  | literal _ _ => simp [mentions, uses, overlooked]
  | var _ => simp [mentions, uses, overlooked]
  | signed _ _ _ _ => simp [mentions, uses, overlooked]
  | binary _ _ _ _ ihLeft ihRight =>
    simp only [mentions, uses, overlooked, List.mem_append, ihLeft, ihRight]
    exact or_or_or_comm
  | hole => simp [mentions, uses, overlooked]

end Expr

namespace Stmt

mutual

/-- The names in a statement: its variables and the procedures that it calls. -/
def mentions : Stmt → List Ident
  | .compound children => mentionsAll children
  | .assign target _ value => value.mentions ++ [target]
  | .call procedure arguments => procedure :: arguments.flatMap Expr.mentions
  | .empty => []

/-- The names in statements. -/
def mentionsAll : List Stmt → List Ident
  | [] => []
  | statement :: rest => statement.mentions ++ mentionsAll rest

end

mutual

/-- The names in a statement that are not looked at: variables behind signs and the procedures that it
calls. -/
def overlooked : Stmt → List Ident
  | .compound children => overlookedAll children
  | .assign _ _ value => value.overlooked
  | .call procedure arguments => procedure :: arguments.flatMap Expr.overlooked
  | .empty => []

/-- The names in statements that are not looked at. -/
def overlookedAll : List Stmt → List Ident
  | [] => []
  | statement :: rest => statement.overlooked ++ overlookedAll rest

end

/-- A name in the arguments of a call is looked at or overlooked. -/
theorem mem_flatMap_mentions_iff {id : Ident} {arguments : List Expr} :
    id ∈ arguments.flatMap Expr.mentions ↔
      id ∈ arguments.flatMap Expr.uses ∨ id ∈ arguments.flatMap Expr.overlooked := by
  simp only [List.mem_flatMap, Expr.mem_mentions_iff, and_or_left, exists_or]

mutual

/-- A name in a statement is looked at or overlooked. -/
theorem mem_mentions_iff {id : Ident} :
    ∀ s : Stmt, id ∈ s.mentions ↔ id ∈ s.uses ∨ id ∈ s.overlooked
  | .compound children => by
    rw [mentions, uses, overlooked]
    exact mem_mentionsAll_iff children
  | .assign target _ value => by
    rw [mentions, uses, overlooked, List.mem_append, List.mem_append, Expr.mem_mentions_iff]
    exact or_right_comm
  | .call procedure arguments => by
    rw [mentions, uses, overlooked, List.mem_cons, List.mem_cons, mem_flatMap_mentions_iff]
    exact or_left_comm
  | .empty => by simp [mentions, uses, overlooked]

/-- A name in statements is looked at or overlooked. -/
theorem mem_mentionsAll_iff {id : Ident} :
    ∀ body : List Stmt, id ∈ mentionsAll body ↔ id ∈ usesAll body ∨ id ∈ overlookedAll body
  | [] => by simp [mentionsAll, usesAll, overlookedAll]
  | statement :: rest => by
    simp only [mentionsAll, usesAll, overlookedAll, List.mem_append, mem_mentions_iff statement,
      mem_mentionsAll_iff rest]
    exact or_or_or_comm

end

end Stmt

/-- Names that are picked out of the statements of every block of a program are visible in that
block. -/
def Program.Resolves (p : Program) (names : List Stmt → List Ident) : Prop :=
  ∀ c, Setting.Contains ⟨fun _ => False, [], p.block⟩ c → ∀ id ∈ names c.block.body, c.Visible id.name

/-- In a well-declared program all names are visible exactly if the overlooked ones are. -/
theorem Program.WellDeclared.resolves_iff {p : Program} (declared : p.WellDeclared) :
    p.Resolves Stmt.mentionsAll ↔ p.Resolves Stmt.overlookedAll := by
  constructor
  · intro all c contained id member
    exact all c contained id ((Stmt.mem_mentionsAll_iff _).mpr (.inr member))
  · intro overlooked c contained id member
    rcases (Stmt.mem_mentionsAll_iff _).mp member with used | member
    · exact (declared c contained).visible id used
    · exact overlooked c contained id member

/-! ## Other names in the places that are not looked at -/

namespace Expr

/-- An expression with other variables. -/
def renamed (f : Ident → Ident) : Expr → Expr
  | .literal l place => .literal l place
  | .var id => .var (f id)
  | .signed sign place operand => .signed sign place (operand.renamed f)
  | .binary operator place left right => .binary operator place (left.renamed f) (right.renamed f)
  | .hole => .hole

/-- An expression with other variables behind its signs. -/
def reworded (f : Ident → Ident) : Expr → Expr
  | .signed sign place operand => .signed sign place (operand.renamed f)
  | .binary operator place left right => .binary operator place (left.reworded f) (right.reworded f)
  | e => e

/-- All variables of a renamed expression are new. -/
theorem mentions_renamed (f : Ident → Ident) (e : Expr) :
    (e.renamed f).mentions = e.mentions.map f := by
  induction e with
  | literal _ _ => rfl
  | var _ => rfl
  | signed _ _ _ ih => exact ih
  | binary _ _ _ _ ihLeft ihRight => rw [renamed, mentions, mentions, ihLeft, ihRight, List.map_append]
  | hole => rfl

/-- The variables that are not looked at are new in a reworded expression. -/
theorem overlooked_reworded (f : Ident → Ident) (e : Expr) :
    (e.reworded f).overlooked = e.overlooked.map f := by
  induction e with
  | literal _ _ => rfl
  | var _ => rfl
  | signed _ _ operand _ => exact mentions_renamed f operand
  | binary _ _ _ _ ihLeft ihRight =>
    rw [reworded, overlooked, overlooked, ihLeft, ihRight, List.map_append]
  | hole => rfl

end Expr

namespace Stmt

mutual

/-- A statement with other names in the places that are not looked at. -/
def reworded (f : Ident → Ident) : Stmt → Stmt
  | .compound children => .compound (rewordedAll f children)
  | .assign target place value => .assign target place (value.reworded f)
  | .call procedure arguments => .call (f procedure) (arguments.map (Expr.reworded f))
  | .empty => .empty

/-- Statements with other names in the places that are not looked at. -/
def rewordedAll (f : Ident → Ident) : List Stmt → List Stmt
  | [] => []
  | statement :: rest => statement.reworded f :: rewordedAll f rest

end

mutual

/-- The names that are not looked at are new in a reworded statement. -/
theorem overlooked_reworded (f : Ident → Ident) :
    ∀ s : Stmt, (s.reworded f).overlooked = s.overlooked.map f
  | .compound children => by
    rw [reworded, overlooked, overlooked]
    exact overlookedAll_rewordedAll f children
  | .assign _ _ value => by
    rw [reworded, overlooked, overlooked]
    exact value.overlooked_reworded f
  | .call procedure arguments => by
    rw [reworded, overlooked, overlooked, List.map_cons, List.flatMap_map, List.map_flatMap]
    simp only [Expr.overlooked_reworded]
  | .empty => rfl

/-- The names that are not looked at are new in reworded statements. -/
theorem overlookedAll_rewordedAll (f : Ident → Ident) :
    ∀ body : List Stmt, overlookedAll (rewordedAll f body) = (overlookedAll body).map f
  | [] => rfl
  | statement :: rest => by
    rw [rewordedAll, overlookedAll, overlookedAll, overlooked_reworded f statement,
      overlookedAll_rewordedAll f rest, List.map_append]

end

end Stmt

namespace Decl

mutual

/-- A declaration with other names in the places that are not looked at. -/
def reworded (f : Ident → Ident) : Decl → Decl
  | .var binding => .var binding
  | .procedure name parameters declarations body =>
    .procedure name parameters (rewordedAll f declarations) (Stmt.rewordedAll f body)

/-- Declarations with other names in the places that are not looked at. -/
def rewordedAll (f : Ident → Ident) : List Decl → List Decl
  | [] => []
  | declaration :: rest => declaration.reworded f :: rewordedAll f rest

end

mutual

/-- The names in a declaration that are not looked at: those in the statements of a procedure. -/
def overlooked : Decl → List Ident
  | .var _ => []
  | .procedure _ _ declarations body => overlookedAll declarations ++ Stmt.overlookedAll body

/-- The names in declarations that are not looked at. -/
def overlookedAll : List Decl → List Ident
  | [] => []
  | declaration :: rest => declaration.overlooked ++ overlookedAll rest

end

mutual

/-- The names that are not looked at are new in a reworded declaration. -/
theorem overlooked_reworded (f : Ident → Ident) :
    ∀ d : Decl, (d.reworded f).overlooked = d.overlooked.map f
  | .var _ => rfl
  | .procedure _ _ declarations body => by
    rw [reworded, overlooked, overlooked, overlookedAll_rewordedAll f declarations,
      Stmt.overlookedAll_rewordedAll, List.map_append]

/-- The names that are not looked at are new in reworded declarations. -/
theorem overlookedAll_rewordedAll (f : Ident → Ident) :
    ∀ ds : List Decl, overlookedAll (rewordedAll f ds) = (overlookedAll ds).map f
  | [] => rfl
  | declaration :: rest => by
    rw [rewordedAll, overlookedAll, overlookedAll, overlooked_reworded f declaration,
      overlookedAll_rewordedAll f rest, List.map_append]

end

end Decl

/-- The names in a program that are not looked at. -/
def Program.overlooked (p : Program) : List Ident :=
  Decl.overlookedAll p.block.declarations ++ Stmt.overlookedAll p.block.body

/-- A program with other names in the places that are not looked at. -/
def Program.reworded (f : Ident → Ident) (p : Program) : Program :=
  ⟨p.name, ⟨Decl.rewordedAll f p.block.declarations, Stmt.rewordedAll f p.block.body⟩⟩

/-- The names that are not looked at are new in a reworded program. -/
theorem Program.overlooked_reworded (f : Ident → Ident) (p : Program) :
    (p.reworded f).overlooked = p.overlooked.map f := by
  rw [reworded, overlooked, overlooked, Decl.overlookedAll_rewordedAll,
    Stmt.overlookedAll_rewordedAll, List.map_append]

/-! ## The analysis does not look at them -/

namespace Scoped

variable (rules : ScopeRules) (f : Ident → Ident)

/-- The analysis stops at a sign. -/
theorem expr_reworded (e : Expr) : expr rules (e.reworded f) = expr rules e := by
  induction e with
  | literal _ _ => rfl
  | var _ => rfl
  | signed _ _ _ _ => rfl
  | binary _ _ _ _ ihLeft ihRight => rw [Expr.reworded, expr, expr, ihLeft, ihRight]
  | hole => rfl

/-- The arguments of a call are analysed alike. -/
theorem forM_expr_reworded (arguments : List Expr) :
    (arguments.map (Expr.reworded f)).forM (expr rules) = arguments.forM (expr rules) := by
  induction arguments with
  | nil => rfl
  | cons e rest ih =>
    rw [List.map_cons, List.forM, List.forM, expr_reworded, ih]

mutual

/-- The analysis of a statement is the same, whatever the overlooked names are. -/
theorem stmt_reworded : ∀ s : Stmt, stmt rules (s.reworded f) = stmt rules s
  | .compound children => by
    rw [Stmt.reworded, stmt, stmt]
    exact stmts_rewordedAll children
  | .assign _ _ value => by rw [Stmt.reworded, stmt, stmt, expr_reworded]
  | .call _ arguments => by
    rw [Stmt.reworded, stmt, stmt]
    exact forM_expr_reworded rules f arguments
  | .empty => rfl

/-- The analysis of statements is the same, whatever the overlooked names are. -/
theorem stmts_rewordedAll : ∀ body : List Stmt, stmts rules (Stmt.rewordedAll f body) = stmts rules body
  | [] => rfl
  | statement :: rest => by
    rw [Stmt.rewordedAll, stmts, stmts, stmt_reworded statement, stmts_rewordedAll rest]

end

mutual

/-- The analysis of a declaration is the same, whatever the overlooked names are. -/
theorem decl_reworded : ∀ d : Decl, decl rules (d.reworded f) = decl rules d
  | .var _ => rfl
  | .procedure _ _ declarations body => by
    rw [Decl.reworded, decl, decl, decls_rewordedAll declarations, stmts_rewordedAll rules f body]

/-- The analysis of declarations is the same, whatever the overlooked names are. -/
theorem decls_rewordedAll : ∀ ds : List Decl, decls rules (Decl.rewordedAll f ds) = decls rules ds
  | [] => rfl
  | declaration :: rest => by
    rw [Decl.rewordedAll, decls, decls, decl_reworded declaration, decls_rewordedAll rest]

end

/-- The analysis of a program is the same, whatever the overlooked names are. -/
theorem program_reworded (p : Program) : program rules (p.reworded f) = program rules p := by
  rw [program, program, block, block, Program.reworded, decls_rewordedAll, stmts_rewordedAll]

end Scoped

/-! ## Accepted programs -/

/-- In a program that the last edition accepts, all names are visible exactly if those behind signs and
those of called procedures are. The analysis takes no notice of the latter: with any other names in
these places it does the same. -/
theorem resolves_iff_overlooked_resolve {text : String} {tree : Node} {reading : Reading} {logs : Bool}
    {analysis : Analysis} {survey : Survey}
    (parsed : Edition.calls.lexis.attempt Edition.calls.grammar.parse text = .done tree reading)
    (found : Edition.calls.analysis? logs = some analysis)
    (accepted : analysis.node tree analysis.initial = .ok () survey) :
    ∃ p, tree = .program p ∧
      (p.Resolves Stmt.mentionsAll ↔ p.Resolves Stmt.overlookedAll) ∧
      ∀ f, (p.reworded f).overlooked = p.overlooked.map f ∧
        analysis.node (.program (p.reworded f)) = analysis.node tree := by
  obtain ⟨p, rfl, _, declared⟩ := wellDeclared_of_accepted parsed found accepted
  refine ⟨p, rfl, declared.resolves_iff, fun f => ⟨p.overlooked_reworded f, ?_⟩⟩
  cases found
  show Survey.onScopes (Scoped.program _ (p.reworded f)) = Survey.onScopes (Scoped.program _ p)
  rw [Scoped.program_reworded]

set_option maxRecDepth 10000 in
/-- A program that is accepted although it declares nothing: one of its names is called, the other one
stands behind a sign. -/
theorem resolves_iff_overlooked_resolve_call_and_sign :
    let p : Program := ⟨"p", ⟨[], [.call ⟨"f", ⟨1, 18⟩⟩
      [.signed .minus ⟨1, 20⟩ (.var ⟨"b", ⟨1, 21⟩⟩)]]⟩⟩
    let analysis := Analysis.scoped ⟨true, false⟩
    (∃ reading, Edition.calls.lexis.attempt Edition.calls.grammar.parse
      "PROGRAM p; BEGIN f(-b) END." = .done (.program p) reading) ∧
    Edition.calls.analysis? false = some analysis ∧
    (∃ survey, analysis.node (.program p) analysis.initial = .ok () survey) ∧
    p.overlooked = [⟨"f", ⟨1, 18⟩⟩, ⟨"b", ⟨1, 21⟩⟩] ∧ ¬ p.Resolves Stmt.mentionsAll := by
  intro p analysis
  obtain ⟨reading, parsed⟩ : ∃ reading, Edition.calls.lexis.attempt Edition.calls.grammar.parse
      "PROGRAM p; BEGIN f(-b) END." = .done (.program p) reading := ⟨_, rfl⟩
  obtain ⟨survey, accepted⟩ : ∃ survey,
      analysis.node (.program p) analysis.initial = .ok () survey := ⟨_, rfl⟩
  have found : Edition.calls.analysis? false = some analysis := rfl
  obtain ⟨_, same, resolves, _⟩ := resolves_iff_overlooked_resolve parsed found accepted
  cases same
  refine ⟨⟨reading, parsed⟩, found, ⟨survey, accepted⟩, rfl, fun all => ?_⟩
  have visible : Setting.Visible ⟨fun _ => False, [], p.block⟩ "b" :=
    resolves.mp all _ (.self _) ⟨"b", ⟨1, 21⟩⟩ (by decide)
  rcases visible with none | none | none | none
  · exact none
  · cases none
  · cases none
  · cases none

end LittlePascal
