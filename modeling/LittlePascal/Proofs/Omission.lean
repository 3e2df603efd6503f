import LittlePascal.Proofs.ScopeAnalyses
import LittlePascal.Proofs.Containment
import LittlePascal.Proofs.Fitting
import LittlePascal.Proofs.Journal
import LittlePascal.Proofs.Resolution

/-! # What two analyses leave out

The edition with checks and the edition with scopes have no rule for literals and for signs when they analyse a
tree. However well its names are in order, a program ends their analysis at the first literal or sign that is
met.

Here declarations may stand in any order, so a program is well formed if its declarations are when they are gone
through one by one: a variable is new in its block, and a name that stands in statements was declared before
them, in their own block or in one around it.

Main definitions:
* `Program.WellFormed`: the names of a program are in order;
* `Program.unhandled`: the literals and signs that have no rule, as faults in the order in which they are met;
* `Halts`: work does the same as other work, or stops at the first of some faults.

Main statements:
* `Program.WellFormed.violations_eq_nil`: a well-formed program has no violations;
* `Scoped.program_halts`: with and without a rule for literals and signs;
* `Flat.block_stops`: the analysis with one table;
* `wellFormed_accepted_iff_symbolic`: what the two analyses make of well-formed programs. -/

namespace LittlePascal

/-! ## Well-formed programs -/

/-- The names of declarations are in order, before which the names `visible` were declared, the names `here` among
them in their own block. A procedure can be seen in its own block and from there on. -/
inductive Decl.WellFormed : List String → List String → List Decl → Prop where
  | nil {visible here : List String} : WellFormed visible here []
  | var {visible here : List String} {binding : Binding} {rest : List Decl} :
      binding.id.name ∉ here →
      WellFormed (binding.id.name :: visible) (binding.id.name :: here) rest →
      WellFormed visible here (.var binding :: rest)
  | procedure {visible here : List String} {p : String} {parameters : List Binding} {inner rest : List Decl}
      {body : List Stmt} :
      WellFormed (Binding.names parameters ++ p :: visible) (Binding.names parameters) inner →
      (∀ id ∈ Stmt.mentionsAll body,
        id.name ∈ inner.map name ++ (Binding.names parameters ++ p :: visible)) →
      WellFormed (p :: visible) (p :: here) rest →
      WellFormed visible here (.procedure p parameters inner body :: rest)

/-- A program is well formed if its declarations are and every name in its statements is declared. -/
structure Program.WellFormed (p : Program) : Prop where
  declarations : Decl.WellFormed [] [] p.block.declarations
  body : ∀ id ∈ Stmt.mentionsAll p.block.body, id.name ∈ p.block.declarations.map Decl.name

namespace Decl

mutual

/-- Whether a declaration is in order. -/
def isWellFormed (visible here : List String) : Decl → Bool
  | .var binding => binding.id.name ∉ here
  | .procedure p parameters inner body =>
    allWellFormed (Binding.names parameters ++ p :: visible) (Binding.names parameters) inner &&
      (Stmt.mentionsAll body).all fun id =>
        id.name ∈ inner.map name ++ (Binding.names parameters ++ p :: visible)

/-- Whether declarations are in order. -/
def allWellFormed (visible here : List String) : List Decl → Bool
  | [] => true
  | d :: rest => d.isWellFormed visible here && allWellFormed (d.name :: visible) (d.name :: here) rest

end

/-- Well-formed declarations are found to be. -/
theorem WellFormed.allWellFormed_eq {visible here : List String} {ds : List Decl}
    (h : WellFormed visible here ds) : allWellFormed visible here ds = true := by
  induction h with
  | nil => rfl
  | var new _ ih => simpa [allWellFormed, isWellFormed, name, new] using ih
  | procedure _ declared _ ihInner ih =>
    rw [allWellFormed, isWellFormed, ihInner, Bool.true_and, Bool.and_eq_true, List.all_eq_true]
    exact ⟨fun id member => decide_eq_true (declared id member), ih⟩

mutual

/-- A declaration that is found to be well formed may stand before others that are. -/
theorem wellFormed_cons {visible here : List String} {rest : List Decl} :
    ∀ {d : Decl}, d.isWellFormed visible here = true → WellFormed (d.name :: visible) (d.name :: here) rest →
      WellFormed visible here (d :: rest)
  | .var _, new, later => .var (of_decide_eq_true new) later
  | .procedure _ _ _ _, found, later => by
    rw [isWellFormed, Bool.and_eq_true, List.all_eq_true] at found
    exact .procedure (wellFormed_of_all found.1) (fun id member => of_decide_eq_true (found.2 id member)) later

/-- Declarations that are found to be well formed are so. -/
theorem wellFormed_of_all {visible here : List String} :
    ∀ {ds : List Decl}, allWellFormed visible here ds = true → WellFormed visible here ds
  | [], _ => .nil
  | _ :: _, found => by
    rw [allWellFormed, Bool.and_eq_true] at found
    exact wellFormed_cons found.1 (wellFormed_of_all found.2)

end

end Decl

/-- It can be decided whether a program is well formed. -/
instance Program.decidableWellFormed (p : Program) : Decidable p.WellFormed :=
  decidable_of_iff
    (Decl.allWellFormed [] [] p.block.declarations = true ∧
      ∀ id ∈ Stmt.mentionsAll p.block.body, id.name ∈ p.block.declarations.map Decl.name)
    ⟨fun h => ⟨Decl.wellFormed_of_all h.1, h.2⟩, fun h => ⟨h.declarations.allWellFormed_eq, h.body⟩⟩

/-- Where all names are visible, those that must be are. -/
theorem undeclaredUses_eq_nil_of_mentions {visible : List String} {body : List Stmt}
    (declared : ∀ id ∈ Stmt.mentionsAll body, id.name ∈ visible) :
    undeclaredUses visible (Stmt.usesAll body) = [] :=
  undeclaredUses_eq_nil_iff.mpr fun id used => declared id ((Stmt.mem_mentionsAll_iff body).mpr (.inl used))

/-- Well-formed declarations have no violations. -/
theorem Decl.WellFormed.violationsAll_eq_nil {visible here : List String} {ds : List Decl}
    (h : WellFormed visible here ds) : violationsAll visible here ds = [] := by
  induction h with
  | nil => rfl
  | var new _ ih =>
    rw [violationsAll, violations, if_neg new]
    exact ih
  | procedure _ declared _ ihInner ih =>
    rw [violationsAll, violations, ihInner, undeclaredUses_eq_nil_of_mentions declared]
    exact ih

/-- A well-formed program has no violations. -/
theorem Program.WellFormed.violations_eq_nil {p : Program} (h : p.WellFormed) : p.violations = [] := by
  have declared : ∀ id ∈ Stmt.mentionsAll p.block.body,
      id.name ∈ p.block.declarations.map Decl.name ++ ([] ++ []) := by
    intro id member
    exact List.mem_append_left _ (h.body id member)
  rw [violations, Block.violations, undeclaredUses_eq_nil_of_mentions declared, List.append_nil]
  exact h.declarations.violationsAll_eq_nil

/-! ## Literals and signs -/

/-- The literals and signs of an expression, as faults. What stands behind a sign is not met. -/
def Expr.unhandled : Expr → List Fault
  | .var _ | .hole => []
  | .binary _ _ left right => left.unhandled ++ right.unhandled
  | e => [.unhandled e.className]

namespace Stmt

mutual

/-- The literals and signs of a statement. -/
def unhandled : Stmt → List Fault
  | .compound children => unhandledAll children
  | .assign _ _ value => value.unhandled
  | .call _ arguments => arguments.flatMap Expr.unhandled
  | .empty => []

/-- The literals and signs of statements. -/
def unhandledAll : List Stmt → List Fault
  | [] => []
  | statement :: rest => statement.unhandled ++ unhandledAll rest

end

end Stmt

namespace Decl

mutual

/-- The literals and signs of a declaration. -/
def unhandled : Decl → List Fault
  | .var _ => []
  | .procedure _ _ declarations body => unhandledAll declarations ++ Stmt.unhandledAll body

/-- The literals and signs of declarations. -/
def unhandledAll : List Decl → List Fault
  | [] => []
  | declaration :: rest => declaration.unhandled ++ unhandledAll rest

end

end Decl

/-- The literals and signs of a program, as faults in the order in which they are met. -/
def Program.unhandled (p : Program) : List Fault :=
  Decl.unhandledAll p.block.declarations ++ Stmt.unhandledAll p.block.body

/-- An expression is handled exactly if it has no literals and signs. -/
theorem Expr.unhandled_eq_nil_iff {e : Expr} : e.unhandled = [] ↔ e.isSymbolic = true := by
  induction e with
  | literal | var | signed | hole => simp [unhandled, isSymbolic]
  | binary _ _ left right ihLeft ihRight =>
    rw [unhandled, isSymbolic, List.append_eq_nil_iff, ihLeft, ihRight, Bool.and_eq_true]

namespace Stmt

mutual

/-- A statement is handled exactly if it has no literals and signs. -/
theorem unhandled_eq_nil_iff : ∀ {s : Stmt}, s.unhandled = [] ↔ s.isSymbolic = true
  | .compound _ => by
    rw [unhandled, isSymbolic]
    exact unhandledAll_eq_nil_iff
  | .assign _ _ _ => Expr.unhandled_eq_nil_iff
  | .call _ arguments => by
    rw [unhandled, isSymbolic, List.flatMap_eq_nil_iff, List.all_eq_true]
    exact forall₂_congr fun _ _ => Expr.unhandled_eq_nil_iff
  | .empty => by simp [unhandled, isSymbolic]

/-- Statements are handled exactly if they have no literals and signs. -/
theorem unhandledAll_eq_nil_iff : ∀ {body : List Stmt}, unhandledAll body = [] ↔ allSymbolic body = true
  | [] => by simp [unhandledAll, allSymbolic]
  | s :: rest => by
    rw [unhandledAll, allSymbolic, List.append_eq_nil_iff, unhandled_eq_nil_iff, unhandledAll_eq_nil_iff,
      Bool.and_eq_true]

end

end Stmt

namespace Decl

mutual

/-- A declaration is handled exactly if it has no literals and signs. -/
theorem unhandled_eq_nil_iff : ∀ {d : Decl}, d.unhandled = [] ↔ d.isSymbolic = true
  | .var _ => by simp [unhandled, isSymbolic]
  | .procedure _ _ _ _ => by
    rw [unhandled, isSymbolic, List.append_eq_nil_iff, unhandledAll_eq_nil_iff, Stmt.unhandledAll_eq_nil_iff,
      Bool.and_eq_true]

/-- Declarations are handled exactly if they have no literals and signs. -/
theorem unhandledAll_eq_nil_iff : ∀ {ds : List Decl}, unhandledAll ds = [] ↔ allSymbolic ds = true
  | [] => by simp [unhandledAll, allSymbolic]
  | d :: rest => by
    rw [unhandledAll, allSymbolic, List.append_eq_nil_iff, unhandled_eq_nil_iff, unhandledAll_eq_nil_iff,
      Bool.and_eq_true]

end

end Decl

/-- A program is handled exactly if it has no literals and signs. -/
theorem Program.unhandled_eq_nil_iff {p : Program} : p.unhandled = [] ↔ p.block.isSymbolic = true := by
  rw [unhandled, Block.isSymbolic, List.append_eq_nil_iff, Decl.unhandledAll_eq_nil_iff,
    Stmt.unhandledAll_eq_nil_iff, Bool.and_eq_true]

/-! ## Work that halts -/

/-- Wherever the first work succeeds, the second one comes to the same or stops at the first of some faults. -/
def Halts {σ α : Type} (lenient strict : EStateM Fault σ α) (faults : List Fault) : Prop :=
  ∀ ⦃st a st'⦄, lenient st = .ok a st' → Stops (strict st) faults fun b st'' => b = a ∧ st'' = st'

namespace Halts

variable {σ α β : Type} {lenient strict : EStateM Fault σ α} {faults faults' : List Fault}

/-- Without faults the work is the same. -/
theorem refl (work : EStateM Fault σ α) : Halts work work [] := by
  intro st a st' done
  rw [done]
  exact ⟨rfl, rfl, rfl⟩

/-- Work in sequence halts at the first fault of its parts. -/
theorem bind {further further' : α → EStateM Fault σ β} (first : Halts lenient strict faults)
    (second : ∀ a, Halts (further a) (further' a) faults') :
    Halts (lenient >>= further) (strict >>= further') (faults ++ faults') := by
  intro st b st' done
  obtain ⟨a, mid, before, after⟩ := Work.bind_eq_ok.mp done
  refine (first before).bind ?_
  rintro _ _ ⟨rfl, rfl⟩
  exact second _ after

/-- Work halts as it does if the same is done before it. -/
theorem behind {work : EStateM Fault σ β} {further further' : β → EStateM Fault σ α}
    (second : ∀ a, Halts (further a) (further' a) faults) :
    Halts (work >>= further) (work >>= further') faults :=
  (refl work).bind second

/-- Work halts as it does if the same is done behind it. -/
theorem before {further : α → EStateM Fault σ β} (first : Halts lenient strict faults) :
    Halts (lenient >>= further) (strict >>= further) faults := by
  rw [← List.append_nil faults]
  exact first.bind fun a => refl (further a)

end Halts

/-! ## The analysis of scopes -/

namespace Scoped

variable {logs : Bool}

/-- Without a rule for literals and signs the analysis of an expression halts at the first of them. -/
theorem expr_halts (e : Expr) : Halts (expr ⟨true, logs⟩ e) (expr ⟨false, logs⟩ e) e.unhandled := by
  induction e with
  | var id => exact .refl (use ⟨true, logs⟩ id)
  | binary _ _ left right ihLeft ihRight => exact ihLeft.bind fun _ => ihRight
  | hole =>
    -- a hole has no rule in either case
    intro st a st' done
    cases done
  | literal | signed =>
    intro st a st' done
    exact rfl

/-- Without rules for literals and signs, arguments halt at the first of these. -/
theorem arguments_halts (arguments : List Expr) :
    Halts (arguments.forM (expr ⟨true, logs⟩)) (arguments.forM (expr ⟨false, logs⟩))
      (arguments.flatMap Expr.unhandled) := by
  induction arguments with
  | nil => exact .refl _
  | cons e rest ih =>
    rw [List.flatMap_cons]
    exact (expr_halts e).bind fun _ => ih

mutual

/-- Without rules for literals and signs, a statement halts at the first of these. -/
theorem stmt_halts : ∀ s : Stmt, Halts (stmt ⟨true, logs⟩ s) (stmt ⟨false, logs⟩ s) s.unhandled
  | .compound children => by
    rw [stmt, stmt, Stmt.unhandled]
    exact stmts_halts children
  | .assign target _ value => by
    rw [stmt, stmt, Stmt.unhandled]
    exact (expr_halts value).before
  | .call _ arguments => by
    rw [stmt, stmt, Stmt.unhandled]
    exact arguments_halts arguments
  | .empty => .refl _

/-- Statements halt at the first literal or sign in any of them. -/
theorem stmts_halts : ∀ body : List Stmt,
    Halts (stmts ⟨true, logs⟩ body) (stmts ⟨false, logs⟩ body) (Stmt.unhandledAll body)
  | [] => .refl _
  | s :: rest => by
    rw [stmts, stmts, Stmt.unhandledAll]
    exact (stmt_halts s).bind fun _ => stmts_halts rest

end

mutual

/-- A declaration of each form. What opens and closes the scope of a procedure knows of the lines only. -/
theorem decl_halts : ∀ d : Decl, Halts (decl ⟨true, logs⟩ d) (decl ⟨false, logs⟩ d) d.unhandled
  | .var binding => .refl (localVariable ⟨true, logs⟩ binding)
  | .procedure p parameters inner body => by
    rw [decl_procedure, decl_procedure, Decl.unhandled]
    exact Halts.behind fun _ => (decls_halts inner).bind fun _ => (stmts_halts body).before

/-- Declarations halt at the first literal or sign in any of them. -/
theorem decls_halts : ∀ ds : List Decl,
    Halts (decls ⟨true, logs⟩ ds) (decls ⟨false, logs⟩ ds) (Decl.unhandledAll ds)
  | [] => .refl _
  | d :: rest => by
    rw [decls, decls, Decl.unhandledAll]
    exact (decl_halts d).bind fun _ => decls_halts rest

end

/-- Without a rule for literals and signs the analysis of a program halts at the first of them. -/
theorem program_halts (p : Program) :
    Halts (program ⟨true, logs⟩ p) (program ⟨false, logs⟩ p) p.unhandled := by
  rw [program_eq_beginning, program_eq_beginning, block, block, Program.unhandled]
  exact Halts.behind fun _ => ((decls_halts p.block.declarations).bind fun _ => stmts_halts p.block.body).before

/-- So a program without violations is accepted without literals and signs, and otherwise refused with the first
of them. -/
theorem program_stops {p : Program} (regular : p.block.Regular Ordinary) (none : p.violations = []) :
    Stops (program ⟨false, logs⟩ p ⟨[], #[]⟩) p.unhandled fun _ _ => True := by
  have settles := @program_settles ⟨true, logs⟩ ⟨[], #[]⟩ rfl p regular.declarations regular.body rfl
  -- with a rule for literals and signs the analysis succeeds, since nothing is violated
  obtain ⟨a, st, done⟩ := settles.ok_iff.mpr none
  exact (program_halts p done).mono fun _ _ _ => trivial

end Scoped

/-! ## The analysis with one table -/

/-- Besides the built-in types, a table has these names. -/
def TableState.Knows (st : TableState) (here : List String) : Prop :=
  ∀ s, (st.symbols.get? s).isSome = true ↔ s ∈ here ∨ ¬Scoped.Ordinary s

namespace Flat

variable {g : Grammar} {st : TableState} {symbols : SymbolMap} {here visible : List String}

/-- A use of a name that the table has is no fault. -/
theorem use_stops {id : Ident} (same : st.symbols = symbols) (known : (symbols.get? id.name).isSome = true) :
    Stops (use id st) [] fun _ st' => st'.symbols = symbols := by
  obtain ⟨symbol, found⟩ := Option.isSome_iff_exists.mp known
  have looked : TableWork.lookup id.name st = .ok (some symbol) ⟨symbols, st.log.push ("Lookup: " ++ id.name)⟩ := by
    rw [← found, ← same]
    rfl
  rw [use, Work.bind_of_ok looked]
  exact ⟨rfl, rfl⟩

/-- An expression whose names the table has stops at its first literal or sign. -/
theorem expr_stops (holes : g.holes = false) {e : Expr} (fits : e.Fits g) (same : st.symbols = symbols)
    (known : ∀ id ∈ e.uses, (symbols.get? id.name).isSome = true) :
    Stops (expr e st) e.unhandled fun _ st' => st'.symbols = symbols := by
  induction e generalizing st with
  | var id => exact use_stops same (known id List.mem_cons_self)
  | binary _ _ left right ihLeft ihRight =>
    rw [Expr.uses, List.forall_mem_append] at known
    exact (ihLeft fits.1 same known.1).bind fun _ _ kept => ihRight fits.2 kept known.2
  | literal | signed => exact rfl
  | hole => exact (Expr.not_fits_hole holes fits).elim

mutual

/-- A statement whose names the table has stops at its first literal or sign. -/
theorem stmt_stops (holes : g.holes = false) (calls : g.calls = false) {st : TableState} : ∀ {s : Stmt}, s.Fits g →
    st.symbols = symbols → (∀ id ∈ s.uses, (symbols.get? id.name).isSome = true) →
    Stops (stmt s st) s.unhandled fun _ st' => st'.symbols = symbols
  | .compound _, fits, same, known => by
    rw [Stmt.uses] at known
    rw [stmt, Stmt.unhandled]
    exact stmts_stops holes calls fits same known
  | .assign target _ value, fits, same, known => by
    rw [Stmt.uses, List.forall_mem_append, List.forall_mem_singleton] at known
    rw [stmt, Stmt.unhandled, ← List.append_nil value.unhandled]
    exact (expr_stops holes fits same known.1).bind fun _ _ kept => use_stops kept known.2
  | .call _ _, fits, _, _ => by
    have allowed : g.calls = true := fits.1
    rw [calls] at allowed
    cases allowed
  | .empty, _, same, _ => ⟨rfl, same⟩

/-- Statements whose names the table has stop at the first literal or sign in any of them. -/
theorem stmts_stops (holes : g.holes = false) (calls : g.calls = false) {st : TableState} : ∀ {body : List Stmt},
    Stmt.AllFit g body → st.symbols = symbols →
    (∀ id ∈ Stmt.usesAll body, (symbols.get? id.name).isSome = true) →
    Stops (stmts body st) (Stmt.unhandledAll body) fun _ st' => st'.symbols = symbols
  | [], _, same, _ => ⟨rfl, same⟩
  | s :: rest, fits, same, known => by
    rw [Stmt.usesAll, List.forall_mem_append] at known
    rw [stmts, Stmt.unhandledAll]
    exact (stmt_stops holes calls fits.1 same known.1).bind fun _ _ kept =>
      stmts_stops holes calls fits.2 kept known.2

end

/-- A variable that is new to the table is entered. -/
theorem var_stops {binding : Binding} (knows : st.Knows here) (new : binding.id.name ∉ here)
    (ordinary : Scoped.Ordinary binding.id.name) :
    Stops (decl true (.var binding) st) [] fun _ st' => st'.Knows (binding.id.name :: here) := by
  -- the name is neither that of a variable before it nor that of a built-in type
  have absent : st.symbols.get? binding.id.name = none := by
    rw [← Option.not_isSome_iff_eq_none, knows]
    rintro (member | reserved)
    · exact new member
    · exact reserved ordinary
  have looked : ∀ log, TableWork.lookup binding.id.name ⟨st.symbols, log⟩ =
      .ok none ⟨st.symbols, log.push ("Lookup: " ++ binding.id.name)⟩ := by
    intro log
    rw [← absent]
    rfl
  have typed : TableWork.lookup binding.type.type.name st = .ok _ _ := rfl
  rw [decl, Work.bind_of_ok typed, if_pos rfl, Work.bind_of_ok (looked _)]
  refine ⟨rfl, fun s => ?_⟩
  show ((st.symbols.set binding.id.name _).get? s).isSome = true ↔ _
  rw [OrderedMap.get?_set, List.mem_cons, or_assoc]
  by_cases same : s = binding.id.name
  · simp [same]
  · simpa [same] using knows s

/-- Variables that are new one after the other are entered in order. -/
theorem decls_stops {ds : List Decl} (formed : Decl.WellFormed visible here ds)
    (regular : Decl.AllRegular Scoped.Ordinary ds) (none : Decl.procedureNames ds = []) (knows : st.Knows here) :
    Stops (ds.forM (decl true) st) (Decl.unhandledAll ds) fun _ st' =>
      st'.Knows ((ds.map Decl.name).reverse ++ here) := by
  induction formed generalizing st with
  | nil => exact ⟨rfl, knows⟩
  | var new _ ih =>
    cases regular with
    | var ordinary regular =>
      refine (var_stops knows new ordinary).bind fun _ st' knows' => (ih regular none knows').mono ?_
      intro _ _ all
      rwa [List.map_cons, List.reverse_cons, List.append_assoc]
  | procedure => cases none

/-- A well-formed block without procedures stops at its first literal or sign. -/
theorem block_stops (holes : g.holes = false) (calls : g.calls = false) {p : Program} (formed : p.WellFormed)
    (regular : p.block.Regular Scoped.Ordinary) (fits : p.block.Fits g)
    (none : Decl.procedureNames p.block.declarations = []) (knows : st.Knows []) :
    Stops (block true p.block st) p.unhandled fun _ _ => True := by
  rw [block, Program.unhandled]
  refine (decls_stops formed.declarations regular.declarations none knows).bind fun _ st' knows' => ?_
  have known : ∀ id ∈ Stmt.usesAll p.block.body, (st'.symbols.get? id.name).isSome = true := by
    intro id used
    have declared := formed.body id ((Stmt.mem_mentionsAll_iff _).mpr (.inl used))
    exact (knows' id.name).mpr (.inl (List.mem_append_left _ (List.mem_reverse.mpr declared)))
  exact (stmts_stops holes calls fits.2 rfl known).mono fun _ _ _ => trivial

/-- At first the table has the built-in types only. -/
theorem knows_initial : (Analysis.initial.run Flat.initial).Knows [] := by
  intro s
  show ((((OrderedMap.empty : SymbolMap).set "INTEGER" _).set "REAL" _).get? s).isSome = true ↔ _
  rw [OrderedMap.get?_set, OrderedMap.get?_set]
  by_cases integer : s = "INTEGER"
  · simp [integer, Scoped.Ordinary]
  · by_cases real : s = "REAL"
    · simp [real, Scoped.Ordinary]
    · simp [integer, real, Scoped.Ordinary]

end Flat

/-! ## Trees that were read -/

/-- The current token is one that the reader makes, and names that it makes are of a class. -/
def Watch.made (lx : Lexis) (names : String → Prop) : Watch where
  fine r := ∀ l place, r.token = .lexeme l place → lx.Makes l
  known _ := True
  names := names

/-- The reader keeps it so. -/
theorem Watch.kept_made {lx : Lexis} {names : String → Prop} (such : ∀ s, lx.Makes (.name s) → names s) :
    (Watch.made lx names).Kept lx where
  next {r s u} _ read l place token := by
    have made := Parse.next_ok read
    rw [token] at made
    exact Lexis.makes_of_token made
  fails _ _ := trivial
  refuses _ := trivial
  names fine token := such _ (fine _ _ token)

namespace Edition

/-- A text of the two editions yields a program without holes and with ordinary names. -/
theorem regular_of_accepts {e : Edition} (early : e = .checks ∨ e = .scopes) {text : String} {tree : Node}
    {reading : Reading} (parsed : e.Accepts text tree reading) :
    ∃ p, tree = .program p ∧ p.block.Regular Scoped.Ordinary := by
  -- the names of built-in types are reserved words, so none of them is read as a name
  have typed : e.hasDeclarations = true := by rcases early with rfl | rfl <;> rfl
  have ordinary : ∀ s, e.lexis.Makes (.name s) → Scoped.Ordinary s := fun s => ordinary_of_makes typed
  have holes : e.grammar.holes = false := by rcases early with rfl | rfl <;> rfl
  have header : e.grammar.header = true := by rcases early with rfl | rfl <;> rfl
  obtain ⟨r, opened, _⟩ := Lexis.attempt_eq_done.mp parsed
  have fine : (Watch.made e.lexis Scoped.Ordinary).fine r := by
    intro l place token
    obtain ⟨c, read⟩ := Lexis.token_of_openReading opened
    rw [token] at read
    exact Lexis.makes_of_token read
  rcases Grammar.attempt_contained (g := e.grammar) (Watch.kept_made ordinary) holes header opened fine with
    ⟨fault, s, failed, _⟩ | ⟨p, s, done, regular⟩
  · cases failed.symm.trans parsed
  · cases done.symm.trans parsed
    exact ⟨p, rfl, regular⟩

end Edition

/-! ## The verdict on well-formed programs -/

namespace Survey

variable {faults : List Fault}

/-- Work on a table stops on a survey where it does on the table. -/
theorem onTable_stops {work : TableWork Unit} {st : TableState} {Post : Unit → TableState → Prop}
    (h : Stops (work st) faults Post) : Stops (onTable work (.table st)) faults fun _ _ => True := by
  cases outcome : work st with
  | ok u st' =>
    rw [outcome] at h
    simp only [onTable, outcome]
    exact ⟨h.1, trivial⟩
  | error fault st' =>
    rw [outcome] at h
    simp only [onTable, outcome]
    exact h

/-- Work on scopes stops on a survey where it does on the scopes. -/
theorem onScopes_stops {work : ScopeWork Unit} {st : ScopeState} {Post : Unit → ScopeState → Prop}
    (h : Stops (work st) faults Post) : Stops (onScopes work (.scopes st)) faults fun _ _ => True := by
  cases outcome : work st with
  | ok u st' =>
    rw [outcome] at h
    rw [onScopes_of_ok outcome]
    exact ⟨h.1, trivial⟩
  | error fault st' =>
    rw [outcome] at h
    rw [onScopes_of_error outcome]
    exact h

end Survey

/-- The edition with scopes accepts a well-formed program, whatever the order of its declarations, exactly if its
statements hold no literal and no sign; otherwise it fails at the first of them, for want of a rule. The same
holds of the edition with checks for programs without procedures. -/
theorem wellFormed_accepted_iff_symbolic {e : Edition} (early : e = .checks ∨ e = .scopes) {text : String}
    {tree : Node} {reading : Reading} {logs : Bool} {analysis : Analysis} (parsed : e.Accepts text tree reading)
    (found : e.analysis? logs = some analysis) :
    ∃ p, tree = .program p ∧
      (p.WellFormed → (e = .checks → Decl.procedureNames p.block.declarations = []) →
        ((∃ survey, analysis.node tree analysis.initial = .ok () survey) ↔ tree.isSymbolic = true) ∧
        ∀ fault, (∃ survey, analysis.node tree analysis.initial = .error fault survey) ↔
          p.unhandled.head? = some fault) := by
  obtain ⟨p, rfl, regular⟩ := Edition.regular_of_accepts early parsed
  refine ⟨p, rfl, fun formed procedures => ?_⟩
  -- one table or nested scopes: either analysis stops at the first literal or sign
  have stops : Stops (analysis.node (.program p) analysis.initial) p.unhandled fun _ _ => True := by
    rcases early with rfl | rfl
    · cases found
      have fits : (Node.program p).Fits Edition.checks.grammar := Grammar.fits_of_attempt parsed
      exact Survey.onTable_stops
        (Flat.block_stops (g := Edition.checks.grammar) rfl rfl formed regular fits (procedures rfl)
          Flat.knows_initial)
    · cases found
      exact Survey.onScopes_stops (Scoped.program_stops regular formed.violations_eq_nil)
  constructor
  · rw [show (Node.program p).isSymbolic = p.block.isSymbolic from rfl, ← Program.unhandled_eq_nil_iff,
      ← stops.ok_iff]
    exact ⟨fun ⟨survey, done⟩ => ⟨(), survey, done⟩, fun ⟨(), survey, done⟩ => ⟨survey, done⟩⟩
  · exact fun fault => stops.error_iff

/-- A program whose names are in order is refused for the number that it assigns. -/
theorem wellFormed_accepted_iff_symbolic_assigned_number :
    let text := "PROGRAM p; VAR a : INTEGER; BEGIN a := 1 END."
    let analysis := Analysis.scoped ⟨false, true⟩
    ∃ p reading, Edition.scopes.Accepts text (.program p) reading ∧
      Edition.scopes.analysis? true = some analysis ∧ p.WellFormed ∧
      (∃ survey, analysis.node (.program p) analysis.initial = .error (.unhandled "Num") survey) ∧
      ¬∃ survey, analysis.node (.program p) analysis.initial = .ok () survey := by
  intro text analysis
  have yields : Edition.scopes.yields text (fun tree => tree.program?.any fun p =>
      p.WellFormed ∧ p.unhandled.head? = some (.unhandled "Num")) = true := by decide +kernel
  obtain ⟨tree, reading, parsed, checked⟩ := Edition.exists_accepts yields
  have found : Edition.scopes.analysis? true = some analysis := rfl
  obtain ⟨p, rfl, verdict⟩ := wellFormed_accepted_iff_symbolic (.inr rfl) parsed found
  obtain ⟨formed, first⟩ := of_decide_eq_true checked
  obtain ⟨accepted, refused⟩ := verdict formed (by rintro ⟨⟩)
  obtain ⟨survey, failed⟩ := (refused _).mpr first
  refine ⟨p, reading, parsed, found, formed, ⟨survey, failed⟩, ?_⟩
  rintro ⟨survey', done⟩
  cases failed.symm.trans done

end LittlePascal
