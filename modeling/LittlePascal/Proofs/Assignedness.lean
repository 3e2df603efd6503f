import Mathlib.Data.List.Induction
import LittlePascal.Proofs.Depiction
import LittlePascal.Proofs.Isolation
import LittlePascal.Proofs.Resolution

/-! # Numbers and missing values

A variable that has no value is read as a missing one in the last edition. The analysis asks that a variable be
declared, not that it has been assigned, so a missing value may be stored, and arithmetic may meet it.

Arithmetic on numbers makes numbers, and fails at a division by zero or a number too large for a double only.
What makes a number has met no missing value. From this it follows exactly when a run computes with numbers
only.

Main definitions:
* `ValueFault.isNumeric`: the faults of arithmetic on numbers;
* `AssignsBeforeUse`: variables are assigned before they are read;
* `StepOutcome.KeepsNumbers`: a run meets and stores no missing value.

Main statements:
* `Expr.eval_of_held`, `Expr.held_of_eval`: expressions compute with numbers if their variables hold numbers, and
  only then;
* `Writes.snoc_iff`, `AssignsBeforeUse.isNumber`: one more assignment, and what all of them write;
* `keepsNumbers_iff_assignsBeforeUse`: when the run of an accepted program computes with numbers only. -/

namespace LittlePascal

/-! ## Arithmetic on numbers -/

/-- Whether a fault can arise from numbers; the other ones arise from missing values. -/
def ValueFault.isNumeric : ValueFault → Bool
  | .wholeByZero | .floorByZero | .realByZero | .tooLarge => true
  | .operands _ _ _ | .operand _ _ | .notNumber _ => false

/-- Arithmetic on numbers has failed. -/
def Fault.IsNumeric (fault : Fault) : Prop := ∃ f, fault = .arithmetic f ∧ f.isNumeric = true

/-- Arithmetic has met a missing value. -/
def Fault.IsMissing (fault : Fault) : Prop := ∃ f, fault = .arithmetic f ∧ f.isNumeric = false

namespace Value

/-- A number is brought to a double, or is too large for one. -/
theorem isNumeric_of_toReal {v : Value} (number : v.isNumber = true) {fault : ValueFault}
    (h : v.toReal = .error fault) : fault.isNumeric = true := by
  cases v with
  | whole n =>
    rw [toReal] at h
    split at h <;> cases h
    rfl
  | real x => cases h
  | missing => cases number

/-- What is brought to a double is a number. -/
theorem isNumber_of_toReal {v : Value} {x : Float} (h : v.toReal = .ok x) : v.isNumber = true := by
  cases v with
  | whole | real => rfl
  | missing => cases h

/-- An operation on doubles fails as arithmetic on numbers does. -/
theorem isNumeric_of_applyReals {operation : Operation} {x y : Float} {fault : ValueFault}
    (h : applyReals operation x y = .error fault) : fault.isNumeric = true := by
  cases operation with
  | add | subtract | multiply => cases h
  | floorDivide =>
    rw [applyReals] at h
    split at h <;> cases h
    rfl
  | divide =>
    rw [applyReals, divideReals] at h
    split at h <;> cases h
    rfl

/-- So does one on numbers that are taken as doubles. -/
theorem isNumeric_of_applyMixed {operation : Operation} {v v' : Value} (number : v.isNumber = true)
    (number' : v'.isNumber = true) {fault : ValueFault} (h : applyMixed operation v v' = .error fault) :
    fault.isNumeric = true := by
  rw [applyMixed] at h
  cases x : v.toReal with
  | error first =>
    rw [x] at h
    cases h
    exact isNumeric_of_toReal number x
  | ok x' =>
    cases y : v'.toReal with
    | error second =>
      rw [x, y] at h
      cases h
      exact isNumeric_of_toReal number' y
    | ok y' =>
      rw [x, y] at h
      exact isNumeric_of_applyReals h

/-- An operation on numbers fails as arithmetic on numbers does. -/
theorem isNumeric_of_apply {operation : Operation} {v v' : Value} (number : v.isNumber = true)
    (number' : v'.isNumber = true) {fault : ValueFault} (h : apply operation v v' = .error fault) :
    fault.isNumeric = true := by
  unfold apply at h
  split at h
  · split at h
    · cases h
    · cases h
    · cases h
    · split at h <;> cases h
      rfl
    · exact isNumeric_of_applyMixed number number' h
  · cases number
  · cases number'
  · exact isNumeric_of_applyMixed number number' h

/-- An operation that succeeds is one on numbers. -/
theorem isNumber_of_operands {operation : Operation} {v v' w : Value} (h : apply operation v v' = .ok w) :
    v.isNumber = true ∧ v'.isNumber = true := by
  cases v with
  | missing => cases h
  | whole | real =>
    cases v' with
    | missing => cases h
    | whole | real => exact ⟨rfl, rfl⟩

end Value

/-! ## Expressions -/

/-- Computations one after the other succeed if each one does. -/
theorem Fault.bind_eq_ok {α β : Type} {x : Except Fault α} {f : α → Except Fault β} {b : β} :
    x >>= f = .ok b ↔ ∃ a, x = .ok a ∧ f a = .ok b := by
  cases x with
  | ok a => exact ⟨fun h => ⟨a, rfl, h⟩, by rintro ⟨_, ⟨⟩, h⟩; exact h⟩
  | error fault => exact ⟨by rintro ⟨⟩, by rintro ⟨_, ⟨⟩, _⟩⟩

/-- Arithmetic succeeds as part of a computation. -/
theorem liftArithmetic_eq_ok {α : Type} {x : Except ValueFault α} {a : α} :
    liftArithmetic x = .ok a ↔ x = .ok a := by
  cases x with
  | ok b => exact ⟨by rintro ⟨⟩; rfl, by rintro ⟨⟩; rfl⟩
  | error f => exact ⟨by rintro ⟨⟩, by rintro ⟨⟩⟩

/-- A fault of numbers in arithmetic. -/
theorem Fault.isNumeric_arithmetic {f : ValueFault} (numeric : f.isNumeric = true) :
    (Fault.arithmetic f).IsNumeric := ⟨f, rfl, numeric⟩

namespace Expr

variable {g : Grammar} {rules : EvalRules} {m : Memory}

/-- Numbers are combined to a number, or fail as numbers do. -/
theorem combine_numeric {operation : Operation} {left right : Except Fault Value}
    (first : Within (fun v => v.isNumber = true) Fault.IsNumeric left)
    (second : Within (fun v => v.isNumber = true) Fault.IsNumeric right) :
    Within (fun v => v.isNumber = true) Fault.IsNumeric (combine operation left right) := by
  refine combine_of_values first second ?_ ?_ ?_
  · intro v fault number failed
    exact Fault.isNumeric_arithmetic (Value.isNumeric_of_toReal number failed)
  · intro x y fault failed
    exact Fault.isNumeric_arithmetic (@Value.isNumeric_of_applyReals .divide _ _ _ failed)
  · intro v w fault number number' failed
    exact Fault.isNumeric_arithmetic (Value.isNumeric_of_apply number number' failed)

/-- What is combined to a value are numbers. -/
theorem isNumber_of_combine {operation : Operation} {left right : Except Fault Value} {w : Value}
    (h : combine operation left right = .ok w) :
    ∃ l r, left = .ok l ∧ right = .ok r ∧ l.isNumber = true ∧ r.isNumber = true := by
  have others : ∀ {operation}, (do
      let l ← left
      let r ← right
      liftArithmetic (l.apply operation r)) = Except.ok w →
      ∃ l r, left = .ok l ∧ right = .ok r ∧ l.isNumber = true ∧ r.isNumber = true := by
    intro operation h
    obtain ⟨l, first, h⟩ := Fault.bind_eq_ok.mp h
    obtain ⟨r, second, h⟩ := Fault.bind_eq_ok.mp h
    exact ⟨l, r, first, second, Value.isNumber_of_operands (liftArithmetic_eq_ok.mp h)⟩
  cases operation with
  | divide =>
    -- each operand is brought to a double by itself
    obtain ⟨l, first, h⟩ := Fault.bind_eq_ok.mp h
    obtain ⟨x, number, h⟩ := Fault.bind_eq_ok.mp h
    obtain ⟨r, second, h⟩ := Fault.bind_eq_ok.mp h
    obtain ⟨y, number', _⟩ := Fault.bind_eq_ok.mp h
    exact ⟨l, r, first, second, Value.isNumber_of_toReal (liftArithmetic_eq_ok.mp number),
      Value.isNumber_of_toReal (liftArithmetic_eq_ok.mp number')⟩
  | add | subtract | multiply | floorDivide => exact others h

/-- An expression whose variables hold numbers has a number for its value, or fails as numbers do. -/
theorem eval_of_held (holes : g.holes = false) {e : Expr} (fits : e.Fits g)
    (held : ∀ id ∈ e.mentions, m.Holds id.name) :
    Within (fun v => v.isNumber = true) Fault.IsNumeric (e.eval rules m) := by
  induction e with
  | literal l _ => cases l <;> rfl
  | var id =>
    obtain ⟨v, has, number⟩ := held id List.mem_cons_self
    rw [eval, readVariable, has]
    cases v with
    | whole | real => rfl
    | missing => cases number
  | signed sign _ operand ih =>
    refine (ih fits held).bind fun v number => within_liftArithmetic (fun _ => Value.isNumber_of_applySign) ?_
    intro f failed
    cases v with
    | whole | real => cases sign <;> cases failed
    | missing => cases number
  | binary operator _ left right ihLeft ihRight =>
    rw [mentions, List.forall_mem_append] at held
    exact combine_numeric (ihLeft fits.1 held.1) (ihRight fits.2 held.2)
  | hole => exact (not_fits_hole holes fits).elim

/-- An expression that has a number for its value has met numbers only. -/
theorem held_of_eval {e : Expr} {v : Value} (h : e.eval rules m = .ok v) (number : v.isNumber = true) :
    ∀ id ∈ e.mentions, m.Holds id.name := by
  induction e generalizing v with
  | literal | hole => simp [mentions]
  | var id =>
    rw [mentions, List.forall_mem_singleton]
    rw [eval, readVariable] at h
    split at h
    · rename_i n has
      exact ⟨_, has, rfl⟩
    · rename_i x has
      exact ⟨_, has, rfl⟩
    · split at h <;> cases h
      cases number
  | signed sign _ operand ih =>
    rw [eval] at h
    cases value : operand.eval rules m with
    | error fault =>
      rw [value] at h
      cases h
    | ok w =>
      refine ih value ?_
      rw [value] at h
      cases w with
      | whole | real => rfl
      | missing => cases sign <;> cases h
  | binary operator _ left right ihLeft ihRight =>
    obtain ⟨l, r, first, second, number, number'⟩ := isNumber_of_combine h
    rw [mentions, List.forall_mem_append]
    exact ⟨ihLeft first number, ihRight second number'⟩

/-- Where missing values are handed out, expressions fail as arithmetic does. -/
theorem eval_lenient (lenient : rules.strict = false) (holes : g.holes = false) {e : Expr}
    (fits : e.Fits g) : Within (fun _ => True) (fun fault => ∃ f, fault = .arithmetic f) (e.eval rules m) := by
  have arithmetic : ∀ f, ∃ f', Fault.arithmetic f = .arithmetic f' := fun f => ⟨f, rfl⟩
  induction e with
  | literal => trivial
  | var id =>
    rw [eval, readVariable, lenient]
    split <;> trivial
  | signed sign _ operand ih =>
    exact (ih fits).bind fun v _ => within_liftArithmetic (fun _ _ => trivial) fun f _ => arithmetic f
  | binary operator _ left right ihLeft ihRight =>
    exact Within.imp (combine_within arithmetic (ihLeft fits.1) (ihRight fits.2)) fun _ _ => trivial
  | hole => exact (not_fits_hole holes fits).elim

end Expr

/-! ## Assignments -/

namespace Writes

variable {rules : EvalRules} {m : Memory} {assignments : List Assignment} {writes : List (String × Value)}

/-- The names that are written are those of the targets. -/
theorem map_fst (h : Writes rules m assignments writes) :
    writes.map Prod.fst = assignments.map fun a => a.target.name := by
  induction h with
  | nil => rfl
  | cons _ _ ih => rw [List.map_cons, List.map_cons, ih]

/-- One more assignment completes. -/
theorem snoc_iff {a : Assignment} :
    Writes rules m (assignments ++ [a]) writes ↔
      ∃ earlier v, Writes rules m assignments earlier ∧ a.value.eval rules (m.setAll earlier) = .ok v ∧
        writes = earlier ++ [(a.target.name, v)] := by
  induction assignments generalizing m writes with
  | nil =>
    constructor
    · intro h
      cases h with
      | cons value further =>
        cases further
        exact ⟨[], _, .nil, value, rfl⟩
    · rintro ⟨_, v, written, value, rfl⟩
      cases written
      exact .cons value .nil
  | cons first rest ih =>
    constructor
    · intro h
      cases h with
      | cons value further =>
        obtain ⟨earlier, v, written, last, rfl⟩ := ih.mp further
        exact ⟨_, v, .cons value written, last, rfl⟩
    · rintro ⟨_, v, written, last, rfl⟩
      cases written with
      | cons value further => exact .cons value (ih.mpr ⟨_, v, further, last, rfl⟩)

end Writes

/-- Written from the start, the names of a memory are those that were written. -/
theorem Memory.mem_names_setAll_empty {writes : List (String × Value)} {x : String} :
    x ∈ (OrderedMap.empty.setAll writes).names ↔ x ∈ writes.map Prod.fst := by
  rw [OrderedMap.names_setAll, OrderedMap.names_empty, List.nil_append, List.removeAll_nil, List.mem_eraseDups]

namespace Stmt

variable {g : Grammar} {a : Assignment}

mutual

/-- The right-hand sides of a statement that fits do so too. -/
theorem fits_of_mem_assignments : ∀ {s : Stmt}, s.Fits g → a ∈ s.assignments → a.value.Fits g
  | .compound _, fits, member => fits_of_mem_assignmentsAll fits member
  | .assign _ _ _, fits, member => by
    cases List.mem_singleton.mp member
    exact fits
  | .call _ _, _, member => by cases member
  | .empty, _, member => by cases member

/-- The values that statements assign fit if the statements do. -/
theorem fits_of_mem_assignmentsAll :
    ∀ {body : List Stmt}, AllFit g body → a ∈ assignmentsAll body → a.value.Fits g
  | [], _, member => by cases member
  | _ :: _, fits, member =>
    (List.mem_append.mp member).elim (fits_of_mem_assignments fits.1) (fits_of_mem_assignmentsAll fits.2)

end

end Stmt

/-! ## Runs on numbers -/

/-- As far as assignments are run from an empty memory, each one reads what the ones before it have assigned,
or else it fails as arithmetic on numbers does. -/
def AssignsBeforeUse (rules : EvalRules) (assignments : List Assignment) : Prop :=
  ∀ before a after writes, assignments = before ++ a :: after → Writes rules .empty before writes →
    (∀ id ∈ a.value.mentions, id.name ∈ before.map fun b => b.target.name) ∨
      ∃ fault, a.value.eval rules (OrderedMap.empty.setAll writes) = .error fault ∧ fault.IsNumeric

/-- Between the assignments that are run, a memory holds numbers only. -/
def NumericBetween (rules : EvalRules) (assignments : List Assignment) : Prop :=
  ∀ before after writes, assignments = before ++ after → Writes rules .empty before writes →
    Memory.Numeric (OrderedMap.empty.setAll writes)

section Runs

variable {g : Grammar} {rules : EvalRules} {assignments before after : List Assignment} {a : Assignment}
  {writes : List (String × Value)} {fault? : Option Fault}

/-- An assignment that comes behind numbers computes with numbers. -/
theorem AssignsBeforeUse.eval_within (use : AssignsBeforeUse rules assignments) (holes : g.holes = false)
    (fits : ∀ a ∈ assignments, a.value.Fits g) (parts : assignments = before ++ a :: after)
    (written : Writes rules .empty before writes) (numbers : ∀ write ∈ writes, write.2.isNumber = true) :
    Within (fun v => v.isNumber = true) Fault.IsNumeric
      (a.value.eval rules (OrderedMap.empty.setAll writes)) := by
  rcases use before a after writes parts written with assigned | ⟨fault, failed, numeric⟩
  · refine Expr.eval_of_held holes (fits a (parts ▸ List.mem_append_right _ List.mem_cons_self)) fun id read => ?_
    refine Memory.Numeric.setAll numbers (by rintro x ⟨⟩) _ (Memory.mem_names_setAll_empty.mpr ?_)
    rw [written.map_fst]
    exact assigned id read
  · rw [failed]
    exact numeric

/-- Such assignments write numbers. -/
theorem AssignsBeforeUse.isNumber (use : AssignsBeforeUse rules assignments) (holes : g.holes = false)
    (fits : ∀ a ∈ assignments, a.value.Fits g) (parts : assignments = before ++ after)
    (written : Writes rules .empty before writes) : ∀ write ∈ writes, write.2.isNumber = true := by
  -- the last assignment comes behind numbers, so the induction takes it off
  induction before using List.reverseRecOn generalizing after writes with
  | nil =>
    cases written
    simp
  | append_singleton before a ih =>
    obtain ⟨earlier, v, others, value, rfl⟩ := Writes.snoc_iff.mp written
    rw [List.append_assoc] at parts
    have numbers := ih parts others
    have number := use.eval_within holes fits parts others numbers
    rw [value] at number
    rw [List.forall_mem_append, List.forall_mem_singleton]
    exact ⟨numbers, number⟩

/-- What holds a number at last was written as a number at last. -/
theorem Memory.isNumber_of_numeric {x : String} {v : Value}
    (numeric : Memory.Numeric (OrderedMap.empty.setAll (writes ++ [(x, v)]))) : v.isNumber = true := by
  have member : x ∈ (writes ++ [(x, v)]).map Prod.fst := by simp
  obtain ⟨w, has, number⟩ := numeric x (mem_names_setAll_empty.mpr member)
  have last : (OrderedMap.empty.setAll (writes ++ [(x, v)])).get? x = some v :=
    OrderedMap.get?_setAll.mpr (.inl ⟨writes, [], rfl, by simp⟩)
  cases last.symm.trans has
  exact number

/-- A run from an empty memory meets and stores no missing value exactly if it assigns before it uses. -/
theorem Executes.numeric_iff (executes : Executes rules .empty assignments writes fault?)
    (lenient : rules.strict = false) (holes : g.holes = false) (fits : ∀ a ∈ assignments, a.value.Fits g) :
    (∀ fault, fault? = some fault → ¬fault.IsMissing) ∧ NumericBetween rules assignments ↔
      AssignsBeforeUse rules assignments := by
  constructor
  · rintro ⟨typed, between⟩ before a after earlier parts written
    cases value : a.value.eval rules (OrderedMap.empty.setAll earlier) with
    | ok v =>
      -- the value is stored, so it is a number, and what it was made of were numbers
      left
      have extended : Writes rules .empty (before ++ [a]) (earlier ++ [(a.target.name, v)]) :=
        Writes.snoc_iff.mpr ⟨earlier, v, written, value, rfl⟩
      have number := Memory.isNumber_of_numeric
        (between (before ++ [a]) after _ (by rw [parts, List.append_assoc]; rfl) extended)
      intro id read
      obtain ⟨w, has, _⟩ := Expr.held_of_eval value number id read
      rw [← written.map_fst, ← Memory.mem_names_setAll_empty]
      exact OrderedMap.mem_names_iff.mpr ⟨w, has⟩
    | error fault =>
      -- the run ends here, and its fault tells of no missing value
      right
      refine ⟨fault, rfl, ?_⟩
      have failed := executes.eq_some_iff.mpr ⟨before, a, after, earlier, parts, written, value⟩
      have arithmetic := Expr.eval_lenient (m := OrderedMap.empty.setAll earlier) lenient holes
        (fits a (parts ▸ List.mem_append_right _ List.mem_cons_self))
      rw [value] at arithmetic
      obtain ⟨f, rfl⟩ := arithmetic
      refine ⟨f, rfl, ?_⟩
      cases numeric : f.isNumeric with
      | true => rfl
      | false => exact absurd ⟨f, rfl, numeric⟩ (typed _ failed)
  · intro use
    refine ⟨?_, fun before after earlier parts written =>
      .setAll (use.isNumber holes fits parts written) (by rintro x ⟨⟩)⟩
    rintro fault failed ⟨f, rfl, missing⟩
    obtain ⟨before, a, after, earlier, parts, written, fails⟩ := executes.eq_some_iff.mp failed
    have numeric := use.eval_within holes fits parts written (use.isNumber holes fits parts written)
    rw [fails] at numeric
    obtain ⟨_, ⟨⟩, numeric⟩ := numeric
    rw [missing] at numeric
    cases numeric

/-- The memory that a run leaves is one of those between assignments. -/
theorem NumericBetween.final (between : NumericBetween rules assignments)
    (executes : Executes rules .empty assignments writes fault?) :
    Memory.Numeric (OrderedMap.empty.setAll writes) := by
  cases executes with
  | completed written => exact between _ [] _ (List.append_nil _).symm written
  | failed written _ => exact between _ _ _ rfl written

end Runs

/-- A run computes with numbers only: no fault tells of a missing value, and between the assignments and at the
end the memory holds numbers. -/
structure StepOutcome.KeepsNumbers (done : StepOutcome) (assignments : List Assignment) : Prop where
  typed : ∀ fault, done.result = .error fault → ¬fault.IsMissing
  between : NumericBetween Edition.calls.evalRules assignments
  final : done.session.memory.Numeric

/-- A program that the analysis accepts is well declared. Its run from an empty memory computes with numbers only
exactly if, as far as it goes, every variable that an assignment reads is assigned by one before it; the
analysis does not see to that. -/
theorem keepsNumbers_iff_assignsBeforeUse {text : String} {tree : Node} {reading : Reading} {logs : Bool}
    {analysis : Analysis} {survey : Survey} (parsed : Edition.calls.Accepts text tree reading)
    (found : Edition.calls.analysis? logs = some analysis)
    (accepted : analysis.node tree analysis.initial = .ok () survey) :
    ∃ p, tree = .program p ∧ p.WellDeclared ∧
      let done := (Session.initial (some analysis)).step .calls (some analysis) .run (some text)
      (done.KeepsNumbers p.assignments ↔ AssignsBeforeUse Edition.calls.evalRules p.assignments) := by
  obtain ⟨p, rfl, _, declared⟩ := wellDeclared_of_accepted parsed found accepted
  refine ⟨p, rfl, declared, ?_⟩
  intro done
  have fits : (Node.program p).Fits Edition.calls.grammar := Grammar.fits_of_attempt parsed
  obtain ⟨writes, fault?, executes, ran⟩ :=
    @Session.run_tree Edition.calls.evalRules (.program p) rfl (.initial (some analysis))
  have ends : done = _ := Session.step_run parsed (.initial (some analysis))
  rw [ran] at ends
  have settled := executes.numeric_iff rfl (g := Edition.calls.grammar) rfl fun a member =>
    Stmt.fits_of_mem_assignmentsAll fits.2 member
  rw [ends]
  constructor
  · rintro ⟨typed, between, _⟩
    exact settled.mp ⟨fun fault failed => typed fault (congrArg Fault.outcome failed), between⟩
  · intro use
    obtain ⟨typed, between⟩ := settled.mpr use
    exact ⟨fun fault failed => typed fault (Fault.outcome_inj.mp failed), between, between.final executes⟩

/-- A variable that is declared and never assigned: the analysis accepts the program, and its run adds one to a
missing value. -/
theorem keepsNumbers_iff_assignsBeforeUse_declared_only :
    let text := "PROGRAM p; VAR a, b : INTEGER; BEGIN a := b + 1 END."
    let analysis := Analysis.scoped ⟨true, false⟩
    let done := (Session.initial (some analysis)).step .calls (some analysis) .run (some text)
    ∃ p reading survey, Edition.calls.Accepts text (.program p) reading ∧
      Edition.calls.analysis? false = some analysis ∧
      analysis.node (.program p) analysis.initial = .ok () survey ∧ p.WellDeclared ∧
      done.result = .error (.arithmetic (.operands .add .missing .whole)) ∧
      ¬done.KeepsNumbers p.assignments ∧ ¬AssignsBeforeUse Edition.calls.evalRules p.assignments := by
  intro text analysis done
  have yields : Edition.calls.yields text
      (fun tree => EStateM.run' (analysis.node tree) analysis.initial = some ()) = true := by decide +kernel
  obtain ⟨tree, reading, parsed, passed⟩ := Edition.exists_accepts yields
  obtain ⟨survey, accepted⟩ := Work.run'_eq_some.mp (of_decide_eq_true passed)
  have found : Edition.calls.analysis? false = some analysis := rfl
  obtain ⟨p, rfl, declared, iff⟩ := keepsNumbers_iff_assignsBeforeUse parsed found accepted
  have failed : done.result = .error (.arithmetic (.operands .add .missing .whole)) :=
    StepOutcome.fault?_eq_some.mp (by decide +kernel)
  have breaks : ¬done.KeepsNumbers p.assignments := fun keeps => keeps.typed _ failed ⟨_, rfl, rfl⟩
  exact ⟨p, reading, survey, parsed, found, accepted, declared, failed, breaks, fun use => breaks (iff.mpr use)⟩

end LittlePascal
