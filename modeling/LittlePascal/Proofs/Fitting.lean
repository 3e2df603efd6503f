import LittlePascal.Proofs.Recognition

/-! # Trees fit their grammar

Whatever tree a grammar yields fits it: an operand is left out, a procedure has parameters and a procedure is
called only where the grammar allows that. The rules are followed through their results alone, whatever
the text may be.

Main definitions: `Parse.Yields`, what holds of every result of a rule; `Node.Fits`.

Main statements: `Grammar.parse_yields`, and for whole texts `Grammar.fits_of_attempt`. -/

namespace LittlePascal

/-! ## Trees that fit a grammar -/

/-- An expression fits: operands are left out only where that is allowed. -/
def Expr.Fits (g : Grammar) : Expr → Prop
  | .literal _ _ | .var _ => True
  | .signed _ _ operand => operand.Fits g
  | .binary _ _ left right => left.Fits g ∧ right.Fits g
  | .hole => g.holes = true

/-- Where no operand may be left out, none is. -/
theorem Expr.not_fits_hole {g : Grammar} (holes : g.holes = false) : ¬Expr.hole.Fits g := by
  intro fits
  have allowed : g.holes = true := fits
  rw [holes] at allowed
  cases allowed

namespace Stmt

mutual

/-- A statement fits: calls stand only where there are calls. -/
def Fits (g : Grammar) : Stmt → Prop
  | .compound children => AllFit g children
  | .assign _ _ value => value.Fits g
  | .call _ arguments => g.calls = true ∧ ∀ e ∈ arguments, e.Fits g
  | .empty => True

/-- Statements fit. -/
def AllFit (g : Grammar) : List Stmt → Prop
  | [] => True
  | statement :: rest => statement.Fits g ∧ AllFit g rest

end

/-- Statements fit if each of them does. -/
theorem allFit_iff {g : Grammar} {statements : List Stmt} :
    AllFit g statements ↔ ∀ s ∈ statements, s.Fits g := by
  induction statements with
  | nil => simp [AllFit]
  | cons s rest ih => rw [AllFit, ih, List.forall_mem_cons]

end Stmt

namespace Decl

mutual

/-- A declaration fits: procedures have parameters only where that is allowed. -/
def Fits (g : Grammar) : Decl → Prop
  | .var _ => True
  | .procedure _ parameters declarations body =>
    (g.parameters = false → parameters = []) ∧ AllFit g declarations ∧ Stmt.AllFit g body

/-- Declarations fit. -/
def AllFit (g : Grammar) : List Decl → Prop
  | [] => True
  | declaration :: rest => declaration.Fits g ∧ AllFit g rest

end

/-- Declarations fit if each of them does. -/
theorem allFit_iff {g : Grammar} {declarations : List Decl} :
    AllFit g declarations ↔ ∀ d ∈ declarations, d.Fits g := by
  induction declarations with
  | nil => simp [AllFit]
  | cons d rest ih => rw [AllFit, ih, List.forall_mem_cons]

end Decl

/-- A block fits. -/
def Block.Fits (g : Grammar) (b : Block) : Prop := Decl.AllFit g b.declarations ∧ Stmt.AllFit g b.body

/-- A tree fits. -/
def Node.Fits (g : Grammar) : Node → Prop
  | .expr e => e.Fits g
  | .stmt s => s.Fits g
  | .type _ | .parameter _ => True
  | .decl d => d.Fits g
  | .block b => b.Fits g
  | .program p => p.block.Fits g

/-! ## Results of rules -/

namespace Parse

variable {α β : Type} {lx : Lexis}

/-- Every result of a rule is such. -/
def Yields (rule : Parse α) (P : α → Prop) : Prop := ∀ ⦃r s : Reading⦄ ⦃a : α⦄, rule r = .ok a s → P a

namespace Yields

variable {rule : Parse α} {further : α → Parse β} {P : α → Prop} {Q : β → Prop}

/-- A result without reading may be anything that is such. -/
theorem pure {a : α} (h : P a) : Yields (Pure.pure a) P := by
  intro r s b read
  cases read
  exact h

/-- What is refused has no result. -/
theorem reject : Yields Parse.reject P := by
  intro r s a read
  cases read

/-- Rules in sequence yield what the last of them yields. -/
theorem bind (first : Yields rule P) (second : ∀ a, P a → Yields (further a) Q) :
    Yields (rule >>= further) Q := by
  intro r s b read
  obtain ⟨a, t, read, later⟩ := Work.bind_eq_ok.mp read
  exact second a (first read) later

/-- Of some results nothing need be known. -/
theorem skip (second : ∀ a, Yields (further a) Q) : Yields (rule >>= further) Q :=
  bind (P := fun _ => True) (fun _ _ _ _ => trivial) fun a _ => second a

/-- A rule whose result is changed yields what is made of it. -/
theorem map (h : Yields rule P) {k : α → β} (changed : ∀ a, P a → Q (k a)) :
    Yields (do return k (← rule)) Q :=
  h.bind fun a fits => pure (changed a fits)

/-- A rule that refuses its result on a condition yields no other one. -/
theorem guarded {c : Prop} [Decidable c] {a : α} (h : P a) :
    Yields (do
      if c then Parse.reject
      return a) P := by
  split
  · exact skip fun _ => pure h
  · exact pure h

/-- Any number of items are such if each of them is. -/
theorem manyWhile {announced : Kind → Bool} (item : Yields rule P) (n : Nat) :
    Yields (manyWhile announced rule n) fun as => ∀ a ∈ as, P a := by
  induction n with
  | zero =>
    intro r s as read
    cases read
  | succ n ih =>
    refine skip fun k => ?_
    split
    · refine item.bind fun a fits => ih.map fun rest all => ?_
      exact List.forall_mem_cons.mpr ⟨fits, all⟩
    · exact pure (by simp)

/-- Items with separators are such if each of them is. -/
theorem separated {separator : Kind} (item : Yields rule P) :
    Yields (separated lx separator rule) fun as => ∀ a ∈ as, P a := by
  refine item.bind fun a fits => map (P := fun rest => ∀ a ∈ rest, P a) ?_ fun rest all => ?_
  · exact skip fun n => manyWhile (skip fun _ => item) n
  · exact List.forall_mem_cons.mpr ⟨fits, all⟩

/-- Operands with operators between them are such if joining keeps them so. -/
theorem foldLeft {operator? : Token → Option (Operator × Place)}
    {combine : Operator → Place → α → α → Parse α} (operand : Yields rule P)
    (combined : ∀ o p a b, P a → P b → Yields (combine o p a b) P) (n : Nat) {left : α}
    (fits : P left) : Yields (foldLeft lx operator? combine rule n left) P := by
  induction n generalizing left with
  | zero =>
    intro r s a read
    cases read
  | succ n ih =>
    refine skip fun t => ?_
    split
    · exact pure fits
    · rename_i o p _
      exact skip fun _ => operand.bind fun right fits' =>
        (combined o p left right fits fits').bind fun a both => ih both

end Yields

end Parse

/-! ## Rules of a grammar -/

namespace Grammar

open Parse

variable {g : Grammar}

/-- A chain fits if its operands do. -/
theorem chain_yields {operators : List Operator} {operand : Parse Expr}
    (h : Yields operand (Expr.Fits g)) : Yields (g.chain operators operand) (Expr.Fits g) := by
  refine h.bind fun _ fits => .skip fun n => h.foldLeft (fun o p a b left right => ?_) n fits
  have both : (Expr.binary o p a b).Fits g := ⟨left, right⟩
  exact .pure both

/-- A factor fits, at every level of nesting. -/
theorem factorWithin_yields (n : Nat) : Yields (g.factorWithin n) (Expr.Fits g) := by
  have last : Yields g.lastFactor (Expr.Fits g) := by
    rw [lastFactor]
    split
    · rename_i holes
      exact .pure holes
    · exact .skip fun _ => .pure trivial
  induction n with
  | zero =>
    intro r s e read
    cases read
  | succ n ih =>
    have signed : ∀ sign place,
        Yields (if g.signs then do
            next g.lexis
            return Expr.signed sign place (← g.factorWithin n)
          else g.lastFactor) (Expr.Fits g) := by
      intro sign place
      split
      · exact .skip fun _ => ih.map fun _ fits => fits
      · exact last
    refine .skip fun t => ?_
    split
    · exact .skip fun _ => .pure trivial
    · exact .skip fun _ => (chain_yields (chain_yields ih)).bind fun _ fits => .skip fun _ => .pure fits
    · exact signed .plus _
    · exact signed .minus _
    · exact last

/-- An expression fits the grammar by which it is read. -/
theorem expr_yields : Yields g.expr (Expr.Fits g) :=
  .skip fun n => chain_yields (chain_yields (factorWithin_yields n))

/-- The statements in a compound statement fit if its rule for them yields only such. -/
theorem compoundOf_yields {statement : Parse Stmt} (h : Yields statement (Stmt.Fits g)) :
    Yields (g.compoundOf statement) (Stmt.AllFit g) := by
  have statements : Yields (g.statementsOf statement) (Stmt.AllFit g) := by
    have separated : Yields (separated g.lexis (.punctuation .semicolon) statement)
      fun statements => ∀ s ∈ statements, s.Fits g := h.separated
    exact separated.bind fun _ fits => .skip fun _ => .guarded (Stmt.allFit_iff.mpr fits)
  exact .skip fun _ => statements.bind fun _ fits => .skip fun _ => .pure fits

/-- A statement fits, at every level of nesting. -/
theorem statementWithin_yields (n : Nat) : Yields (g.statementWithin n) (Stmt.Fits g) := by
  have assignment : Yields g.assignment (Stmt.Fits g) := by
    refine .skip fun _ => .skip fun t => ?_
    split
    · exact .skip fun _ => expr_yields.map fun _ fits => fits
    · exact .reject
  have call (calls : g.calls = true) : Yields g.call (Stmt.Fits g) := by
    have arguments : Yields g.arguments fun es => ∀ e ∈ es, e.Fits g := by
      refine .skip fun k => ?_
      split
      · exact .pure (by simp)
      · exact expr_yields.separated
    exact .skip fun _ => .skip fun _ => arguments.bind fun _ fits => .skip fun _ => .pure ⟨calls, fits⟩
  induction n with
  | zero =>
    intro r s statement read
    cases read
  | succ n ih =>
    refine .skip fun k => ?_
    split
    · exact (compoundOf_yields ih).map fun _ fits => fits
    · intro r s statement read
      rw [startsCall_bind] at read
      split at read
      · rename_i starts
        exact call starts.1 read
      · exact assignment read
    · exact .pure trivial

/-- The statements of a block fit. -/
theorem compound_yields : Yields g.compound (Stmt.AllFit g) :=
  .skip fun n => compoundOf_yields (statementWithin_yields n)

/-- The declarations in a section of variables fit. -/
theorem variableSection_yields : Yields g.variableSection fun ds => ∀ d ∈ ds, d.Fits g := by
  have group : Yields g.variableDecls fun ds => ∀ d ∈ ds, d.Fits g := by
    refine .skip fun _ => .skip fun _ => .pure fun d member => ?_
    obtain ⟨_, _, rfl⟩ := List.mem_map.mp member
    trivial
  refine .skip fun _ => .map (P := fun groups => ∀ ds ∈ groups, ∀ d ∈ ds, d.Fits g)
    (.skip fun n => group.manyWhile n) fun groups fits d member => ?_
  obtain ⟨ds, among, member⟩ := List.mem_flatten.mp member
  exact fits ds among d member

/-- A procedure fits if its rule for blocks yields only such. -/
theorem procedureOf_yields {block : Parse Block} (h : Yields block (Block.Fits g)) :
    Yields (g.procedureOf block) (Decl.Fits g) := by
  have parameters : Yields g.parameterSection fun ps => g.parameters = false → ps = [] := by
    refine .skip fun k => ?_
    split
    · rename_i opened
      refine .skip fun _ => .skip fun _ => .skip fun _ => .pure fun none => ?_
      rw [none] at opened
      cases opened
    · exact .pure fun _ => rfl
  exact .skip fun _ => .skip fun _ => parameters.bind fun _ none => .skip fun _ =>
    h.bind fun _ fits => .skip fun _ => .pure ⟨none, fits.1, fits.2⟩

/-- Declarations fit, in a fixed order or in any order. -/
theorem declarationsOf_yields {block : Parse Block} (h : Yields block (Block.Fits g)) :
    Yields (g.declarationsOf block) (Decl.AllFit g) := by
  cases any : g.interleaved with
  | true =>
    have sections : Yields (g.sectionOf block) fun ds => ∀ d ∈ ds, d.Fits g := by
      refine .skip fun k => ?_
      split
      · exact variableSection_yields
      · exact (procedureOf_yields h).map fun d fits => by simpa using fits
    rw [declarationsOf, any]
    refine .skip fun n => (sections.manyWhile n).map fun parts fits => Decl.allFit_iff.mpr ?_
    intro d member
    obtain ⟨ds, among, member⟩ := List.mem_flatten.mp member
    exact fits ds among d member
  | false =>
    have vars : Yields g.vars fun ds => ∀ d ∈ ds, d.Fits g := by
      refine .skip fun k => ?_
      split
      · exact variableSection_yields
      · exact .pure (by simp)
    rw [declarationsOf_eq any]
    refine vars.bind fun ds fits => .map (P := fun ds => ∀ d ∈ ds, d.Fits g)
      (.skip fun n => (procedureOf_yields h).manyWhile n) fun ds' fits' => ?_
    exact Decl.allFit_iff.mpr (List.forall_mem_append.mpr ⟨fits, fits'⟩)

/-- A block fits, at every level of nesting. -/
theorem blockWithin_yields (n : Nat) : Yields (g.blockWithin n) (Block.Fits g) := by
  induction n with
  | zero =>
    intro r s block read
    cases read
  | succ n ih =>
    exact (declarationsOf_yields ih).bind fun _ fits => compound_yields.map fun _ fits' => ⟨fits, fits'⟩

/-- The tree of a whole text fits the grammar by which it is read. -/
theorem parse_yields : Yields g.parse (Node.Fits g) := by
  have program : Yields g.program fun p => p.block.Fits g := by
    have block : Yields g.block (Block.Fits g) := .skip fun n => blockWithin_yields n
    exact .skip fun _ => .skip fun _ => .skip fun _ => block.bind fun _ fits => .skip fun _ => .pure fits
  have bareProgram : Yields g.bareProgram (Stmt.Fits g) :=
    compound_yields.bind fun children (fits : (Stmt.compound children).Fits g) => .skip fun _ => .pure fits
  have whole : Yields g.whole (Node.Fits g) := by
    rw [Grammar.whole]
    split
    · exact expr_yields.map fun _ fits => fits
    · split
      · exact program.map fun _ fits => fits
      · exact bareProgram.map fun _ fits => fits
  exact whole.bind fun _ fits => .skip fun _ => .guarded fits

/-- The tree of a text fits the grammar. -/
theorem fits_of_attempt {text : String} {node : Node} {reading : Reading}
    (h : g.lexis.attempt g.parse text = .done node reading) : node.Fits g := by
  obtain ⟨r, _, read⟩ := Lexis.attempt_eq_done.mp h
  exact parse_yields read

end Grammar

end LittlePascal
