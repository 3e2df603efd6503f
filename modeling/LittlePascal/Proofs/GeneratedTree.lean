import LittlePascal.Proofs.Generated
import LittlePascal.Proofs.Shallow

/-! # The tree of generated programs

The lexemes of a generated program derive a shallow program: whole and real variables, a procedure if the plan has
one, and a list of assignments with a block at its end. Every edition of the plan reads this tree, up to places.

Main definitions: `ProgramPlan.tree`, `Segment.marks`.

Main statements: `ProgramPlan.derives_tree`, `ProgramPlan.exists_accepts`. -/

namespace LittlePascal

/-- A lexeme, wherever it stands. -/
def Mark.bare (l : Lexeme) : Mark := ⟨l, ⟨0, 0⟩, none⟩

/-- The lexemes of segments, wherever they stand. -/
def Segment.marks (segments : List Segment) : List Mark := segments.map fun s => .bare s.lexeme

namespace Segment

@[simp] theorem marks_nil : marks [] = [] := rfl

@[simp] theorem marks_cons (s : Segment) (segments : List Segment) :
    marks (s :: segments) = .bare s.lexeme :: marks segments := rfl

@[simp] theorem marks_append (first second : List Segment) :
    marks (first ++ second) = marks first ++ marks second := List.map_append

@[simp] theorem marks_flatten (lines : List (List Segment)) : marks lines.flatten = (lines.map marks).flatten :=
  List.map_flatten

end Segment

namespace Generate.ProgramPlan

open Segment Mark

variable (p : ProgramPlan)

/-! ## The tree -/

/-- A name. -/
def ident (s : String) : Ident := ⟨s, ⟨0, 0⟩⟩

/-- A variable that is read. -/
def read (s : String) : Expr := .var (ident s)

/-- A whole number. -/
def whole (n : Nat) : Expr := .literal (.whole n) ⟨0, 0⟩

/-- A real number. -/
def fraction (num den : Nat) : Expr := .literal (.real (Number.nearest num den)) ⟨0, 0⟩

/-- Two operands and the operator between them. -/
def binary (o : Operator) (left right : Expr) : Expr := .binary o ⟨0, 0⟩ left right

/-- An assignment. -/
def assign (s : String) (value : Expr) : Stmt := .assign (ident s) ⟨0, 0⟩ value

/-- A name with its type. -/
def binding (type : BaseType) (s : String) : Binding := ⟨ident s, ⟨type, ⟨0, 0⟩⟩⟩

/-- The value of the variable with a number. -/
def value (i : Nat) : Expr :=
  binary .minus
    (binary .plus
      (binary .minus (.signed .plus ⟨0, 0⟩ (read (variableName (i - 1)))) (.signed .minus ⟨0, 0⟩ (whole 2)))
      (binary .div (binary .times (whole i) (whole 2)) (whole 3)))
    (binary .slash (fraction 15 10) (fraction 5 10))

/-- The assignments to the variables behind the first one. -/
def assignments : List Stmt :=
  (List.range (p.statements.toNat - 1)).map fun k => assign (variableName (k + 1)) (value (k + 1))

/-- The statements of the program. -/
def body : List Stmt :=
  [assign (variableName 0) (whole 10), assign "r1" (fraction 314 100)] ++ p.assignments ++
  [.compound [assign "r2" (binary .times (read "r1") (fraction 20 10))], .empty]

/-- The variables of the program with their types. -/
def bindings : List Binding := p.declaredNames.map (binding .integer) ++ [binding .real "r1", binding .real "r2"]

/-- The declarations of the variables. -/
def declared : List Decl := p.bindings.map .var

/-- The parameters of the procedure. -/
def parameterBindings : List Binding :=
  if p.parameters then [binding .integer "a", binding .integer "b", binding .real "c"] else []

/-- The value that is assigned in the procedure. -/
def innerTree : Expr :=
  if p.parameters then binary .minus (binary .plus (read "a") (read "b")) (read "c") else whole 1

/-- The procedure, if there is one. -/
def procedures : List Decl :=
  if p.procedure then
    [.procedure "P1" p.parameterBindings [.var (binding .integer "q")] [assign "q" p.innerTree]]
  else []

/-- The tree of the program. -/
def tree : Program := ⟨"Bench", ⟨p.declared ++ p.procedures, p.body⟩⟩

/-! ## Derivations -/

/-- A name stands for a variable that is read. -/
theorem derives_read (s : String) : DerivesExpr .factor [bare (.name s)] (read s) := .var rfl

/-- A number stands for itself. -/
theorem derives_whole (n : Nat) : DerivesExpr .factor [bare (.literal (.whole n))] (whole n) := .literal rfl

/-- So does a real number. -/
theorem derives_fraction (num den : Nat) :
    DerivesExpr .factor [bare (.literal (.real (Number.nearest num den)))] (fraction num den) := .literal rfl

/-- Operands of a sum derive the sum. -/
theorem derives_added {ms ns : List Mark} {o : Operator} {left right : Expr} (among : o ∈ [.plus, .minus])
    (h : DerivesExpr .sum ms left) (h' : DerivesExpr .product ns right) :
    DerivesExpr .sum (ms ++ bare (.operator o) :: ns) (binary o left right) := .added h rfl among h'

/-- Operands of a product derive the product. -/
theorem derives_multiplied {ms ns : List Mark} {o : Operator} {left right : Expr} (among : o ∈ [.times, .div, .slash])
    (h : DerivesExpr .product ms left) (h' : DerivesExpr .factor ns right) :
    DerivesExpr .product (ms ++ bare (.operator o) :: ns) (binary o left right) := .multiplied h rfl among h'

/-- An assignment of a sum. -/
theorem derives_assign {g : Grammar} {ms : List Mark} {x : Expr} (s : String) (h : DerivesExpr .sum ms x) :
    DerivesStmt g (bare (.name s) :: bare (.punctuation .assign) :: ms) (assign s x) :=
  .assign rfl rfl h

/-- The line of an assignment is the assignment and a semicolon. -/
theorem derives_assignment (g : Grammar) (i : Nat) :
    ∃ ms, marks (p.assignmentSegments i) = ms ++ [bare (.punctuation .semicolon)] ∧
      DerivesStmt g ms (assign (variableName i) (value i)) := by
  have negative : DerivesExpr .factor _ (.signed .minus ⟨0, 0⟩ (whole 2)) :=
    .parens (m := bare (.punctuation .leftParen)) (n := bare (.punctuation .rightParen)) rfl
      (.product (.factor (.signed (m := bare (.operator .minus)) rfl (derives_whole 2)))) rfl
  have positive : DerivesExpr .factor _ (.signed .plus ⟨0, 0⟩ (read (variableName (i - 1)))) :=
    .signed (m := bare (.operator .plus)) rfl (derives_read (variableName (i - 1)))
  have third := derives_multiplied (by decide : Operator.div ∈ _)
    (derives_multiplied (by decide : Operator.times ∈ _) (.factor (derives_whole i)) (derives_whole 2)) (derives_whole 3)
  have quotient := derives_multiplied (by decide : Operator.slash ∈ _) (.factor (derives_fraction 15 10))
    (derives_fraction 5 10)
  -- the chain leans to the left: its last operator is the outermost one
  have sum := derives_added (by decide : Operator.minus ∈ _)
    (derives_added (by decide : Operator.plus ∈ _)
      (derives_added (by decide : Operator.minus ∈ _) (.product (.factor positive)) (.factor negative)) third) quotient
  exact ⟨_, rfl, derives_assign (variableName i) sum⟩

/-- Statements with a semicolon behind each of them go on with a list of statements. -/
theorem separated_append {g : Grammar} {lines : List (List Segment)} {statements rest : List Stmt} {ns : List Mark}
    (each : List.Forall₂ (fun line s => ∃ ms, marks line = ms ++ [bare (.punctuation .semicolon)] ∧
      DerivesStmt g ms s) lines statements)
    (last : Separated .semicolon (DerivesStmt g) ns rest) :
    Separated .semicolon (DerivesStmt g) (marks lines.flatten ++ ns) (statements ++ rest) := by
  induction each with
  | nil => exact last
  | cons first _ ih =>
    obtain ⟨ms, same, form⟩ := first
    rw [List.flatten_cons, marks_append, same, List.append_assoc, List.append_assoc]
    exact .more form rfl ih

/-- The statements of the body. -/
theorem derives_body (g : Grammar) :
    Separated .semicolon (DerivesStmt g) (marks p.statementSegments.flatten) p.body := by
  have first : DerivesStmt g _ (assign (variableName 0) (whole 10)) :=
    derives_assign (variableName 0) (.product (.factor (derives_whole 10)))
  have second : DerivesStmt g _ (assign "r1" (fraction 314 100)) :=
    derives_assign "r1" (.product (.factor (derives_fraction 314 100)))
  have product := derives_multiplied (by decide : Operator.times ∈ _) (.factor (derives_read "r1"))
    (derives_fraction 20 10)
  have block : DerivesStmt g _ (.compound [assign "r2" (binary .times (read "r1") (fraction 20 10))]) :=
    .compound (m := bare (.reserved .beginBlock)) (n := bare (.reserved .endBlock)) rfl
      (.one (derives_assign "r2" (.product product))) rfl
  -- a semicolon stands behind the block as well, so that an empty statement ends the list
  have last := Separated.more (m := bare (.punctuation .semicolon)) block rfl (.one .empty)
  have assignments : List.Forall₂ (fun line s => ∃ ms,
      marks line = ms ++ [bare (.punctuation .semicolon)] ∧ DerivesStmt g ms s)
      ((List.range (p.statements.toNat - 1)).map fun k => p.assignmentSegments (k + 1)) p.assignments := by
    rw [ProgramPlan.assignments, List.forall₂_map_left_iff, List.forall₂_map_right_iff, List.forall₂_same]
    exact fun k _ => p.derives_assignment g (k + 1)
  have all := Separated.more (m := bare (.punctuation .semicolon)) first rfl
    (.more (m := bare (.punctuation .semicolon)) second rfl (separated_append assignments last))
  simpa [statementSegments, body] using all

/-- Names with commas between them. -/
theorem derives_names (name : String) (rest : List String) :
    Separated .comma DerivesIdent (marks (p.nameSegments (name :: rest))) ((name :: rest).map ident) := by
  induction rest generalizing name with
  | nil => exact .one (.name (m := bare (.name name)) rfl)
  | cons next rest ih =>
    exact .more (.name (m := bare (.name name)) rfl) (rfl : (bare (.punctuation .comma)).lexeme = _) (ih next)

/-- Names with a colon and a type. -/
theorem derives_bindings {ms : List Mark} {names : List String} (type : BaseType)
    (h : Separated .comma DerivesIdent ms (names.map ident)) :
    DerivesBindings (ms ++ [bare (.punctuation .colon), bare (.reserved type.word)]) (names.map (binding type)) := by
  have form := DerivesBindings.group h (rfl : (bare (.punctuation .colon)).lexeme = _)
    (.word (m := bare (.reserved type.word)) rfl)
  rw [List.map_map] at form
  exact form

/-- The variables of a block are declared in groups that share a type. -/
theorem derives_group {ms : List Mark} {names : List String} (type : BaseType)
    (h : Separated .comma DerivesIdent ms (names.map ident)) :
    DerivesGroup (ms ++ [bare (.punctuation .colon), bare (.reserved type.word), bare (.punctuation .semicolon)])
      ((names.map (binding type)).map .var) := by
  have form := DerivesGroup.group (derives_bindings type h) (rfl : (bare (.punctuation .semicolon)).lexeme = _)
  rw [List.append_assoc] at form
  exact form

/-- The lines of the variables. -/
theorem derives_declared : DerivesVariables (marks (p.wholesLine ++ p.realsLine)) p.declared := by
  obtain ⟨name, rest, names⟩ := p.exists_declaredNames
  have wholes := derives_group .integer (p.derives_names name rest)
  have reals := derives_group .real (p.derives_names "r1" ["r2"])
  have all := DerivesVariables.some (m := bare (.reserved .var)) rfl (.cons wholes (.cons reals .nil))
  simpa [wholesLine, realsLine, declared, bindings, names, nameSegments, BaseType.word] using all

/-- The parameters of the procedure. -/
theorem derives_parameters : DerivesParameters (marks p.parameterSegments) p.parameterBindings := by
  cases given : p.parameters with
  | false => simpa [parameterSegments, parameterBindings, given] using DerivesParameters.absent
  | true =>
    have wholes := derives_bindings .integer (p.derives_names "a" ["b"])
    have reals := derives_bindings .real (p.derives_names "c" [])
    have all := DerivesParameters.some (m := bare (.punctuation .leftParen)) (n := bare (.punctuation .rightParen)) rfl
      (.more (m := bare (.punctuation .semicolon)) wholes rfl (.one reals)) rfl
    simpa [parameterSegments, parameterBindings, given, nameSegments, BaseType.word] using all

/-- The value that is assigned in the procedure. -/
theorem derives_innerTree : DerivesExpr .sum (marks p.innerValue) p.innerTree := by
  cases given : p.parameters with
  | false => simpa [innerValue, innerTree, given] using .product (.factor (derives_whole 1))
  | true =>
    have all := derives_added (by decide : Operator.minus ∈ _)
      (derives_added (by decide : Operator.plus ∈ _) (.product (.factor (derives_read "a"))) (.factor (derives_read "b")))
      (.factor (derives_read "c"))
    simpa [innerValue, innerTree, given] using all

/-- The procedure, where the grammar has what it needs. -/
theorem derives_procedures {g : Grammar} (h : p.procedure = true → p.parameters = true → g.parameters = true) :
    Repeated (DerivesLeaf g) (marks p.procedureSegments.flatten) p.procedures := by
  cases declared : p.procedure with
  | false => simpa [procedureSegments, procedures, declared] using Repeated.nil
  | true =>
    have allowed : g.parameters = true ∨ marks p.parameterSegments = [] := by
      cases given : p.parameters with
      | false => exact .inr (by simp [parameterSegments, given])
      | true => exact .inl (h declared given)
    have vars := DerivesVariables.some (m := bare (.reserved .var)) rfl
      (.cons (derives_group .integer (p.derives_names "q" [])) .nil)
    have body := DerivesStmt.compound (g := g.completed) (m := bare (.reserved .beginBlock))
      (n := bare (.reserved .endBlock)) rfl (.one (derives_assign "q" p.derives_innerTree)) rfl
    have leaf := DerivesLeaf.procedure (m := bare (.reserved .procedure)) (n := bare (.name "P1"))
      (k := bare (.punctuation .semicolon)) (l := bare (.punctuation .semicolon)) rfl rfl p.derives_parameters
      allowed rfl vars body rfl
    simpa [procedureSegments, procedures, declared, nameSegments, BaseType.word] using Repeated.cons leaf .nil

/-- The lexemes of a generated program derive its tree, in a grammar that has parameters if the program has. -/
theorem derives_tree {g : Grammar} (h : p.procedure = true → p.parameters = true → g.parameters = true) :
    g.DerivesShallow (marks p.segments) p.tree := by
  have body := DerivesStmt.compound (g := g.completed) (m := bare (.reserved .beginBlock))
    (n := bare (.reserved .endBlock)) rfl (p.derives_body g.completed) rfl
  have all := Grammar.DerivesShallow.program (m := bare (.reserved .program)) (n := bare (.name "Bench"))
    (k := bare (.punctuation .semicolon)) (l := bare (.punctuation .dot)) rfl rfl rfl p.derives_declared
    (p.derives_procedures h) body rfl
  simpa [segments, headerLine, segmentLines, tree] using all

/-- Every edition of the plan reads a generated program, and reads the same tree up to places. -/
theorem exists_accepts {e : Edition} (member : e ∈ p.editions) :
    ∃ program reading, e.Accepts p.text (.program program) reading ∧ program.unplaced = p.tree.unplaced := by
  have suits := suits_of_mem_editions member
  obtain ⟨ms, reads, lexemes⟩ := exists_reads member
  have same : Respelled .identity (marks p.segments) ms := by
    rw [Respelled, lexemes]
    simp [marks, bare]
  -- the tree has no calls, so it does not matter which names stand before a parenthesis
  let uncalled : Grammar := { e.grammar.ordered with calls := false }
  have carried : Carried Program.unplaced uncalled.DerivesShallow e.grammar.ordered.DerivesShallow :=
    Grammar.DerivesShallow.carried rfl id
  obtain ⟨program, form, alike⟩ := carried (p.derives_tree suits.parameters) same
  obtain ⟨reading, accepted⟩ := Edition.accepts_of_shallow suits.declares reads form
  exact ⟨program, reading, accepted, alike⟩

end Generate.ProgramPlan

end LittlePascal
