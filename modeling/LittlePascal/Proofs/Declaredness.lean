import LittlePascal.Fault
import LittlePascal.Tree

/-! # Well-declared programs

What it takes for the names of a program to be in order, said without scopes that are opened and closed.
A program consists of blocks, each in its `Setting`: the names that are visible around it, and its
parameters. A setting is proper if its variables differ from each other and from its parameters and
every name that its statements use is visible; a program is well declared if all its settings are
proper.

The same is said a second time as a list: `Program.violations` are the faults of a program in the order
in which they are met when the declarations are gone through one by one, the block of a procedure at its
declaration. A `Sighting` is a violation with the names that can be seen where it is met.

Main definitions: `Setting`, `Setting.Contains`, `Program.WellDeclared`, `Program.violations`,
`Program.sightings`.

Main statement: `Program.violations_eq_nil_iff`, a program whose variables stand before its procedures
has no violations exactly if it is well declared. -/

namespace LittlePascal

/-! ## Uses of names -/

/-- The variables of an expression that must be visible, in order. What stands behind a sign is left
out. -/
def Expr.uses : Expr → List Ident
  | .var id => [id]
  | .binary _ _ left right => left.uses ++ right.uses
  | _ => []

namespace Stmt

mutual

/-- The variables of a statement that must be visible, those of a right-hand side before the target. -/
def uses : Stmt → List Ident
  | .compound children => usesAll children
  | .assign target _ value => value.uses ++ [target]
  | .call _ arguments => arguments.flatMap Expr.uses
  | .empty => []

/-- The variables of statements that must be visible. -/
def usesAll : List Stmt → List Ident
  | [] => []
  | statement :: rest => statement.uses ++ usesAll rest

end

end Stmt

/-! ## Declared names -/

/-- The names of parameters. -/
def Binding.names (bindings : List Binding) : List String := bindings.map fun binding => binding.id.name

namespace Decl

/-- The name that a declaration declares. -/
def name : Decl → String
  | .var binding => binding.id.name
  | .procedure name _ _ _ => name

/-- The names of the variables among declarations. -/
def variableNames : List Decl → List String
  | [] => []
  | .var binding :: rest => binding.id.name :: variableNames rest
  | .procedure _ _ _ _ :: rest => variableNames rest

/-- The names of the procedures among declarations. -/
def procedureNames : List Decl → List String
  | [] => []
  | .var _ :: rest => procedureNames rest
  | .procedure name _ _ _ :: rest => name :: procedureNames rest

/-- A declared name is that of a variable or of a procedure. -/
theorem mem_map_name_iff {s : String} {ds : List Decl} :
    s ∈ ds.map name ↔ s ∈ variableNames ds ∨ s ∈ procedureNames ds := by
  induction ds with
  | nil => simp [variableNames, procedureNames]
  | cons d rest ih =>
    cases d with
    | var binding =>
      simp only [List.map_cons, List.mem_cons, ih, variableNames, procedureNames, name, or_assoc]
    | procedure p _ _ _ =>
      simp only [List.map_cons, List.mem_cons, ih, variableNames, procedureNames, name]
      exact or_left_comm

/-- Declarations in which the variables of every block stand before its procedures. -/
inductive AllOrdered : List Decl → Prop where
  | nil : AllOrdered []
  | var {binding : Binding} {rest : List Decl} :
      AllOrdered rest → AllOrdered (.var binding :: rest)
  | procedure {p : String} {parameters : List Binding} {ds rest : List Decl} {body : List Stmt} :
      AllOrdered ds → variableNames rest = [] → AllOrdered rest →
      AllOrdered (.procedure p parameters ds body :: rest)

/-- All variables stand before any procedure. -/
theorem AllOrdered.variableNames_eq {ds before after : List Decl} (ordered : AllOrdered ds)
    {p : String} {parameters : List Binding} {inner : List Decl} {body : List Stmt}
    (split : ds = before ++ .procedure p parameters inner body :: after) :
    variableNames ds = variableNames before := by
  induction ordered generalizing before with
  | nil => simp at split
  | @var binding rest _ ih =>
    cases before with
    | nil => simp at split
    | cons d before =>
      obtain ⟨rfl, later⟩ := List.cons_eq_cons.mp split
      rw [variableNames, variableNames, ih later]
  | @procedure q _ _ rest _ _ none _ _ ih =>
    cases before with
    | nil => exact none
    | cons d before =>
      obtain ⟨rfl, later⟩ := List.cons_eq_cons.mp split
      rw [variableNames, variableNames, ih later]

end Decl

/-! ## Settings -/

/-- A block in its surroundings: the names that are visible around it, and its parameters. -/
structure Setting where
  around : String → Prop
  parameters : List String
  block : Block

namespace Setting

/-- The variables of a setting. -/
def variableNames (b : Setting) : List String := Decl.variableNames b.block.declarations

/-- A name is visible in the statements of a setting: it is visible around it, or a parameter, a
variable or a procedure of the block. -/
def Visible (b : Setting) (s : String) : Prop :=
  b.around s ∨ s ∈ b.parameters ∨ s ∈ b.variableNames ∨
    s ∈ Decl.procedureNames b.block.declarations

/-- The names of a setting are in order. -/
structure Proper (b : Setting) : Prop where
  /-- No variable is declared twice. -/
  distinct : b.variableNames.Nodup
  /-- No variable has the name of a parameter. -/
  fresh : ∀ s ∈ b.variableNames, s ∉ b.parameters
  /-- Whatever the statements use is visible. -/
  visible : ∀ id ∈ Stmt.usesAll b.block.body, b.Visible id.name

/-- The setting of a procedure that a block declares behind others: of the procedures of the block, those
before it and itself are visible in it. -/
def inside (b : Setting) (before : List Decl) (p : String) (parameters : List Binding)
    (inner : Block) : Setting where
  around s := b.around s ∨ s ∈ b.parameters ∨ s ∈ b.variableNames ∨
    s ∈ Decl.procedureNames before ∨ s = p
  parameters := Binding.names parameters
  block := inner

/-- The settings inside a setting, itself included. -/
inductive Contains : Setting → Setting → Prop where
  | self (b : Setting) : Contains b b
  | procedure {b c : Setting} {before after ds : List Decl} {p : String}
      {parameters : List Binding} {body : List Stmt} :
      b.block.declarations = before ++ .procedure p parameters ds body :: after →
      Contains (b.inside before p parameters ⟨ds, body⟩) c → Contains b c

/-- All settings inside a setting are proper. -/
def AllProper (b : Setting) : Prop := ∀ c, b.Contains c → c.Proper

/-- All settings inside a setting are proper exactly if it is proper itself and so are those inside its
procedures. -/
theorem allProper_iff {b : Setting} :
    b.AllProper ↔ b.Proper ∧ ∀ before p parameters ds body after,
      b.block.declarations = before ++ .procedure p parameters ds body :: after →
      (b.inside before p parameters ⟨ds, body⟩).AllProper := by
  constructor
  · intro h
    exact ⟨h b (.self b), fun _ _ _ _ _ _ split c inner => h c (.procedure split inner)⟩
  · rintro ⟨proper, procedures⟩ c contained
    cases contained with
    | self => exact proper
    | procedure split inner => exact procedures _ _ _ _ _ _ split c inner

end Setting

/-- A program is well declared if the names of all its blocks are in order. Around the program nothing
is visible. -/
def Program.WellDeclared (p : Program) : Prop :=
  Setting.AllProper ⟨fun _ => False, [], p.block⟩

/-! ## Violations in order -/

/-- The uses of names that are not visible. -/
def undeclaredUses (visible : List String) (ids : List Ident) : List Fault :=
  (ids.filter fun id => id.name ∉ visible).map .undeclared

/-- Nothing is undeclared exactly if every name is visible. -/
theorem undeclaredUses_eq_nil_iff {visible : List String} {ids : List Ident} :
    undeclaredUses visible ids = [] ↔ ∀ id ∈ ids, id.name ∈ visible := by
  simp [undeclaredUses, List.filter_eq_nil_iff]

namespace Decl

mutual

/-- The violations in a declaration, before which the names `visible` can be seen, the names `here` among
them in its own block. -/
def violations (visible here : List String) : Decl → List Fault
  | .var binding => if binding.id.name ∈ here then [.duplicate binding.id] else []
  | .procedure p parameters ds body =>
    violationsAll (Binding.names parameters ++ p :: visible) (Binding.names parameters) ds ++
      undeclaredUses (ds.map name ++ (Binding.names parameters ++ p :: visible)) (Stmt.usesAll body)

/-- The violations in declarations, each of which can be seen from the next one on. -/
def violationsAll (visible here : List String) : List Decl → List Fault
  | [] => []
  | d :: rest =>
    d.violations visible here ++ violationsAll (d.name :: visible) (d.name :: here) rest

end

end Decl

/-- The violations in a block: those in its declarations and then those in its statements. -/
def Block.violations (around parameters : List String) (b : Block) : List Fault :=
  Decl.violationsAll (parameters ++ around) parameters b.declarations ++
    undeclaredUses (b.declarations.map Decl.name ++ (parameters ++ around)) (Stmt.usesAll b.body)

/-- The violations in a program, in the order in which they are met. -/
def Program.violations (p : Program) : List Fault := p.block.violations [] []

/-- The violations in a procedure are those in its block. -/
theorem Decl.violations_procedure {visible here : List String} {p : String}
    {parameters : List Binding} {ds : List Decl} {body : List Stmt} :
    (Decl.procedure p parameters ds body).violations visible here =
      Block.violations (p :: visible) (Binding.names parameters) ⟨ds, body⟩ := by
  rw [Decl.violations, Block.violations]

/-! ## What can be seen at a violation -/

/-- A fault with the names that can be seen where it is met. -/
abbrev Sighting := Fault × List String

/-- Faults that are all met where the same names can be seen. -/
def sightedAt (visible : List String) (faults : List Fault) : List Sighting :=
  faults.map fun fault => (fault, visible)

/-- Without their scopes the sighted faults are the faults themselves. -/
theorem map_fst_sightedAt (visible : List String) (faults : List Fault) :
    (sightedAt visible faults).map Prod.fst = faults := by
  simp [sightedAt, Function.comp_def]

namespace Decl

mutual

/-- The violations in a declaration, each with what can be seen there. -/
def sightings (visible here : List String) : Decl → List Sighting
  | .var binding => sightedAt visible (violations visible here (.var binding))
  | .procedure p parameters ds body =>
    sightingsAll (Binding.names parameters ++ p :: visible) (Binding.names parameters) ds ++
      sightedAt (ds.map name ++ (Binding.names parameters ++ p :: visible))
        (undeclaredUses (ds.map name ++ (Binding.names parameters ++ p :: visible)) (Stmt.usesAll body))

/-- The violations in declarations, each with what can be seen there. -/
def sightingsAll (visible here : List String) : List Decl → List Sighting
  | [] => []
  | d :: rest =>
    d.sightings visible here ++ sightingsAll (d.name :: visible) (d.name :: here) rest

end

mutual

/-- The sightings in a declaration are of its violations. -/
theorem map_fst_sightings (visible here : List String) :
    ∀ d : Decl, (d.sightings visible here).map Prod.fst = d.violations visible here
  | .var binding => by rw [sightings, map_fst_sightedAt]
  | .procedure _ _ ds _ => by
    rw [sightings, violations, List.map_append, map_fst_sightingsAll _ _ ds, map_fst_sightedAt]

/-- The sightings in declarations are of their violations. -/
theorem map_fst_sightingsAll (visible here : List String) :
    ∀ ds : List Decl, (sightingsAll visible here ds).map Prod.fst = violationsAll visible here ds
  | [] => rfl
  | d :: rest => by
    rw [sightingsAll, violationsAll, List.map_append, map_fst_sightings _ _ d,
      map_fst_sightingsAll _ _ rest]

end

end Decl

/-- The violations in a program, each with what can be seen there, if some names can be seen around the
program. -/
def Program.sightings (around : List String) (p : Program) : List Sighting :=
  Decl.sightingsAll around [] p.block.declarations ++
    sightedAt (p.block.declarations.map Decl.name ++ around)
      (undeclaredUses (p.block.declarations.map Decl.name ++ around) (Stmt.usesAll p.block.body))

/-- The sightings in a program are of its violations. -/
theorem Program.map_fst_sightings (around : List String) (p : Program) :
    (p.sightings around).map Prod.fst = p.block.violations around [] := by
  rw [sightings, Block.violations, List.map_append, Decl.map_fst_sightingsAll, map_fst_sightedAt]
  rfl

/-! ## No violations -/

namespace Decl

/-- What it means for declarations to be without violations: their variables are new, and the settings
inside their procedures are proper. -/
def Unviolated (visible here : List String) (ds : List Decl) : Prop :=
  (variableNames ds).Nodup ∧ (∀ s ∈ variableNames ds, s ∉ here) ∧
    ∀ before p parameters inner body after,
      ds = before ++ .procedure p parameters inner body :: after →
      Setting.AllProper ⟨fun s => s ∈ visible ∨ s ∈ before.map name ∨ s = p,
        Binding.names parameters, ⟨inner, body⟩⟩

/-- A block has no violations exactly if all settings inside it are proper, provided that its
declarations are without violations when they should be. -/
theorem block_violations_eq_nil_iff {ds : List Decl} (ordered : AllOrdered ds)
    (declarations : ∀ visible here, violationsAll visible here ds = [] ↔ Unviolated visible here ds)
    (around parameters : List String) (body : List Stmt) :
    Block.violations around parameters ⟨ds, body⟩ = [] ↔
      Setting.AllProper ⟨(· ∈ around), parameters, ⟨ds, body⟩⟩ := by
  rw [Block.violations, List.append_eq_nil_iff, declarations, undeclaredUses_eq_nil_iff,
    Setting.allProper_iff]
  -- the names seen by a procedure, gone through in order or said by kinds, are the same
  have same : ∀ before p ps inner body' after,
      ds = before ++ .procedure p ps inner body' :: after →
      (⟨fun s => s ∈ parameters ++ around ∨ s ∈ before.map name ∨ s = p, Binding.names ps,
        ⟨inner, body'⟩⟩ : Setting) =
      Setting.inside ⟨(· ∈ around), parameters, ⟨ds, body⟩⟩ before p ps ⟨inner, body'⟩ := by
    intro before p ps inner body' after split
    have all : Setting.variableNames ⟨(· ∈ around), parameters, ⟨ds, body⟩⟩ = variableNames before :=
      ordered.variableNames_eq split
    rw [Setting.inside, all]
    congr 1
    funext s
    rw [mem_map_name_iff, List.mem_append]
    exact propext (by grind)
  have seen : ∀ s, s ∈ ds.map name ++ (parameters ++ around) ↔
      Setting.Visible ⟨(· ∈ around), parameters, ⟨ds, body⟩⟩ s := by
    intro s
    rw [List.mem_append, List.mem_append, mem_map_name_iff]
    unfold Setting.Visible Setting.variableNames
    grind
  constructor
  · rintro ⟨⟨distinct, fresh, procedures⟩, uses⟩
    refine ⟨⟨distinct, fresh, fun id member => (seen _).mp (uses id member)⟩, ?_⟩
    intro before p ps inner body' after split
    rw [← same _ _ _ _ _ _ split]
    exact procedures _ _ _ _ _ _ split
  · rintro ⟨⟨distinct, fresh, uses⟩, procedures⟩
    refine ⟨⟨distinct, fresh, ?_⟩, fun id member => (seen _).mpr (uses id member)⟩
    intro before p ps inner body' after split
    rw [same _ _ _ _ _ _ split]
    exact procedures _ _ _ _ _ _ split

/-- A declaration can be seen from the next one on. -/
theorem seen_cons (d : Decl) (visible : List String) (before : List Decl) (p : String) :
    (fun s => s ∈ d.name :: visible ∨ s ∈ before.map name ∨ s = p) =
      fun s => s ∈ visible ∨ s ∈ (d :: before).map name ∨ s = p := by
  funext s
  rw [List.map_cons, List.mem_cons, List.mem_cons]
  exact propext (by grind)

/-- A variable must be new, and so must those behind it when it is known. -/
theorem unviolated_var {visible here : List String} {binding : Binding} {rest : List Decl} :
    Unviolated visible here (.var binding :: rest) ↔
      binding.id.name ∉ here ∧
        Unviolated (binding.id.name :: visible) (binding.id.name :: here) rest := by
  unfold Unviolated
  rw [variableNames, List.nodup_cons]
  constructor
  · rintro ⟨⟨new, distinct⟩, fresh, procedures⟩
    refine ⟨fresh _ List.mem_cons_self, distinct, ?_, ?_⟩
    · intro s member again
      rcases List.mem_cons.mp again with rfl | again
      · exact new member
      · exact fresh s (List.mem_cons_of_mem _ member) again
    · rintro before p ps inner body after rfl
      rw [show binding.id.name = (Decl.var binding).name from rfl, seen_cons]
      exact procedures (.var binding :: before) p ps inner body after rfl
  · rintro ⟨new, distinct, fresh, procedures⟩
    refine ⟨⟨fun member => fresh _ member List.mem_cons_self, distinct⟩, ?_, ?_⟩
    · intro s member again
      rcases List.mem_cons.mp member with rfl | member
      · exact new again
      · exact fresh s member (List.mem_cons_of_mem _ again)
    · intro before p ps inner body after split
      -- the procedure is not the variable
      cases before with
      | nil => simp at split
      | cons d before =>
        obtain ⟨rfl, later⟩ := List.cons_eq_cons.mp split
        rw [← seen_cons]
        exact procedures before p ps inner body after later

/-- Behind a procedure come procedures only; it can be seen in its own block and from there on. -/
theorem unviolated_procedure {visible here : List String} {p : String} {parameters : List Binding}
    {inner rest : List Decl} {body : List Stmt} (none : variableNames rest = []) :
    Unviolated visible here (.procedure p parameters inner body :: rest) ↔
      Setting.AllProper ⟨(· ∈ p :: visible), Binding.names parameters, ⟨inner, body⟩⟩ ∧
        Unviolated (p :: visible) (p :: here) rest := by
  have first : (fun s => s ∈ p :: visible) =
      fun s => s ∈ visible ∨ s ∈ ([] : List Decl).map name ∨ s = p := by
    funext s
    rw [List.mem_cons]
    exact propext (by grind)
  unfold Unviolated
  rw [variableNames, none, first]
  constructor
  · rintro ⟨distinct, _, procedures⟩
    -- the procedures before a later one are this one and those between the two
    refine ⟨procedures [] p parameters inner body rest rfl, distinct, by simp, ?_⟩
    rintro before q ps inner' body' after rfl
    rw [show p = (Decl.procedure p parameters inner body).name from rfl, seen_cons]
    exact procedures (_ :: before) q ps inner' body' after rfl
  · rintro ⟨own, distinct, _, procedures⟩
    refine ⟨distinct, by simp, ?_⟩
    intro before q ps inner' body' after split
    cases before with
    | nil =>
      cases split
      exact own
    | cons d before =>
      obtain ⟨rfl, later⟩ := List.cons_eq_cons.mp split
      rw [← seen_cons]
      exact procedures before q ps inner' body' after later

/-- Declarations in order have no violations exactly if they are without them by kinds. -/
theorem AllOrdered.violationsAll_eq_nil_iff {ds : List Decl} (ordered : AllOrdered ds) :
    ∀ visible here, violationsAll visible here ds = [] ↔ Unviolated visible here ds := by
  induction ordered with
  | nil =>
    intro visible here
    simp [violationsAll, Unviolated, variableNames]
  | @var binding rest _ ih =>
    intro visible here
    have new : violations visible here (.var binding) = [] ↔ binding.id.name ∉ here := by
      rw [violations]
      split <;> simp_all
    rw [violationsAll, List.append_eq_nil_iff, ih, new, unviolated_var]
    rfl
  | @procedure p parameters inner rest body ordered none _ ihInner ih =>
    intro visible here
    rw [violationsAll, List.append_eq_nil_iff, ih, violations_procedure,
      block_violations_eq_nil_iff ordered ihInner, unviolated_procedure none]
    rfl

end Decl

/-- A program whose variables stand before its procedures has no violations exactly if it is well
declared. -/
theorem Program.violations_eq_nil_iff {p : Program} (ordered : Decl.AllOrdered p.block.declarations) :
    p.violations = [] ↔ p.WellDeclared := by
  have none : (fun s => s ∈ ([] : List String)) = fun _ => False := by
    funext s
    exact propext (List.mem_nil_iff s)
  rw [violations, WellDeclared, ← none]
  exact Decl.block_violations_eq_nil_iff ordered ordered.violationsAll_eq_nil_iff [] [] p.block.body

end LittlePascal
