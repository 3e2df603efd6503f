import LittlePascal.Proofs.Strictness

/-! # Isolation of runs

In the strict editions the memory of one run is there for the next one. A run after another one is compared with
the same run alone, from an empty memory. What the earlier run has written shows through wherever the later run
has not written, and every assignment keeps it so.

A strict run writes numbers only, so a name that has a value is not refused any more. From this it follows
exactly when the earlier run makes a difference.

Main definitions:
* `Within`: results whose values and faults are of a class;
* `Memory.Holds`: a name has a number for its value;
* `Overlaid`: a memory on top of another one.

Main statements:
* `Expr.eval_within`: values and faults of expressions, from those of variables;
* `Executes.not_holds`: only a name that holds no number is refused;
* `Overlaid.setAll`, `Executes.overlaid`: memories and runs on top of another memory;
* `isolated_iff_rewritten`: when a run is isolated from the one before it. -/

namespace LittlePascal

/-! ## Classes of results -/

/-- The values of a result are of one class and its faults of another. -/
def Within {α : Type} (values : α → Prop) (faults : Fault → Prop) : Except Fault α → Prop
  | .ok a => values a
  | .error fault => faults fault

/-- Results one after the other. -/
theorem Within.bind {α β : Type} {values : α → Prop} {values' : β → Prop} {faults : Fault → Prop}
    {x : Except Fault α} {f : α → Except Fault β} (first : Within values faults x)
    (next : ∀ a, values a → Within values' faults (f a)) : Within values' faults (x >>= f) := by
  cases x with
  | ok a => exact next a first
  | error fault => exact first

/-- A result is of a wider class too. -/
theorem Within.imp {α : Type} {values values' : α → Prop} {faults : Fault → Prop} {x : Except Fault α}
    (h : Within values faults x) (wider : ∀ a, values a → values' a) : Within values' faults x := by
  cases x with
  | ok a => exact wider a h
  | error fault => exact h

namespace Value

/-- A sign before a value makes a number. -/
theorem isNumber_of_applySign {sign : Sign} {v w : Value} (h : v.applySign sign = .ok w) :
    w.isNumber = true := by
  cases sign <;> cases v <;> cases h <;> rfl

/-- An operation on doubles makes a number. -/
theorem isNumber_of_applyReals {operation : Operation} {x y : Float} {w : Value}
    (h : applyReals operation x y = .ok w) : w.isNumber = true := by
  cases operation with
  | add | subtract | multiply =>
    cases h
    rfl
  | floorDivide =>
    rw [applyReals] at h
    split at h <;> cases h
    rfl
  | divide =>
    rw [applyReals, divideReals] at h
    split at h <;> cases h
    rfl

/-- An operation on values that are taken as doubles makes a number. -/
theorem isNumber_of_applyMixed {operation : Operation} {v v' w : Value}
    (h : applyMixed operation v v' = .ok w) : w.isNumber = true := by
  rw [applyMixed] at h
  cases x : v.toReal with
  | error fault =>
    rw [x] at h
    cases h
  | ok x' =>
    cases y : v'.toReal with
    | error fault =>
      rw [x, y] at h
      cases h
    | ok y' =>
      rw [x, y] at h
      exact isNumber_of_applyReals h

/-- An operation on values makes a number. -/
theorem isNumber_of_apply {operation : Operation} {v v' w : Value} (h : apply operation v v' = .ok w) :
    w.isNumber = true := by
  unfold apply at h
  split at h
  · split at h
    · cases h
      rfl
    · cases h
      rfl
    · cases h
      rfl
    · split at h <;> cases h
      rfl
    · exact isNumber_of_applyMixed h
  · cases h
  · cases h
  · exact isNumber_of_applyMixed h

end Value

section Evaluation

variable {faults : Fault → Prop}

/-- Arithmetic as part of a computation. -/
theorem within_liftArithmetic {α : Type} {values : α → Prop} {x : Except ValueFault α}
    (such : ∀ a, x = .ok a → values a) (fails : ∀ fault, x = .error fault → faults (.arithmetic fault)) :
    Within values faults (liftArithmetic x) := by
  cases x with
  | ok a => exact such a rfl
  | error fault => exact fails fault rfl

/-- Operands are combined to a number, or fail in some way, if that is what becomes of them as doubles and of
their values together. -/
theorem Expr.combine_of_values {values : Value → Prop} {operation : Operation} {left right : Except Fault Value}
    (first : Within values faults left) (second : Within values faults right)
    (toReal : ∀ v fault, values v → v.toReal = .error fault → faults (.arithmetic fault))
    (divide : ∀ x y fault, Value.divideReals x y = .error fault → faults (.arithmetic fault))
    (apply : ∀ v w fault, values v → values w → v.apply operation w = .error fault → faults (.arithmetic fault)) :
    Within (fun v => v.isNumber = true) faults (combine operation left right) := by
  have double : ∀ v, values v → Within (fun _ => True) faults (liftArithmetic v.toReal) := fun v such =>
    within_liftArithmetic (fun _ _ => trivial) fun fault => toReal v fault such
  have others : Within (fun v => v.isNumber = true) faults (do
      let l ← left
      let r ← right
      liftArithmetic (l.apply operation r)) :=
    first.bind fun v such => second.bind fun w such' =>
      within_liftArithmetic (fun _ => Value.isNumber_of_apply) fun fault => apply v w fault such such'
  cases operation with
  | divide =>
    exact first.bind fun v such => (double v such).bind fun x _ =>
      second.bind fun w such' => (double w such').bind fun y _ =>
        within_liftArithmetic (fun _ => @Value.isNumber_of_applyReals .divide _ _ _) (divide x y)
  | add | subtract | multiply | floorDivide => exact others

/-- Operands that fail in some way are combined to a number, or fail in that way or as arithmetic does. -/
theorem Expr.combine_within {values : Value → Prop} {operation : Operation} {left right : Except Fault Value}
    (arithmetic : ∀ fault, faults (.arithmetic fault)) (first : Within values faults left)
    (second : Within values faults right) :
    Within (fun v => v.isNumber = true) faults (combine operation left right) :=
  combine_of_values first second (fun _ fault _ _ => arithmetic fault) (fun _ _ fault _ => arithmetic fault)
    fun _ _ fault _ _ _ => arithmetic fault

/-- An expression has a number for its value, or fails as one of its variables or as arithmetic does. -/
theorem Expr.eval_within {rules : EvalRules} {m : Memory} (arithmetic : ∀ fault, faults (.arithmetic fault))
    (unhandled : ∀ name, faults (.unhandled name))
    (reads : ∀ y, Within (fun v => v.isNumber = true) faults (readVariable rules m y)) (e : Expr) :
    Within (fun v => v.isNumber = true) faults (e.eval rules m) := by
  induction e with
  | literal l _ => cases l <;> rfl
  | var id => exact reads id.name
  | signed sign _ operand ih =>
    exact ih.bind fun _ _ =>
      within_liftArithmetic (fun _ => Value.isNumber_of_applySign) fun fault _ => arithmetic fault
  | binary operator _ left right ihLeft ihRight => exact combine_within arithmetic ihLeft ihRight
  | hole => exact unhandled _

end Evaluation

/-! ## Names that hold numbers -/

/-- A name is listed exactly if it has a value. -/
theorem OrderedMap.mem_names_iff {α : Type} {m : OrderedMap α} {x : String} :
    x ∈ m.names ↔ ∃ v, m.get? x = some v := by
  obtain ⟨entries⟩ := m
  induction entries with
  | nil => simp [names, get?]
  | cons entry rest ih =>
    obtain ⟨key, value⟩ := entry
    by_cases same : x = key
    · simp [names, get?, same]
    · simpa [names, get?, List.lookup_cons, same, beq_eq_false_iff_ne.mpr same] using ih

namespace Memory

/-- A name has a number for its value. -/
def Holds (m : Memory) (x : String) : Prop := ∃ v, m.get? x = some v ∧ v.isNumber = true

/-- All values of a memory are numbers. -/
def Numeric (m : Memory) : Prop := ∀ x ∈ m.names, m.Holds x

variable {m : Memory} {x y : String} {v : Value}

/-- A number is held from its assignment on. -/
theorem holds_set (number : v.isNumber = true) (held : x = y ∨ m.Holds x) : Holds (m.set y v) x := by
  by_cases same : x = y
  · exact ⟨v, by simp [same], number⟩
  · obtain ⟨w, has, number'⟩ := held.resolve_left same
    exact ⟨w, by simpa [same] using has, number'⟩

/-- Writing numbers loses none. -/
theorem Holds.setAll {writes : List (String × Value)} (numbers : ∀ write ∈ writes, write.2.isNumber = true)
    (held : m.Holds x) : Holds (m.setAll writes) x := by
  induction writes generalizing m with
  | nil => exact held
  | cons write rest ih =>
    obtain ⟨first, later⟩ := List.forall_mem_cons.mp numbers
    exact ih later (holds_set first (.inr held))

/-- A memory of numbers stays one if numbers are written. -/
theorem Numeric.setAll {writes : List (String × Value)} (numbers : ∀ write ∈ writes, write.2.isNumber = true)
    (numeric : m.Numeric) : Numeric (m.setAll writes) := by
  induction writes generalizing m with
  | nil => exact numeric
  | cons write rest ih =>
    obtain ⟨first, later⟩ := List.forall_mem_cons.mp numbers
    refine ih later fun x listed => holds_set first ?_
    rw [OrderedMap.names_set] at listed
    split at listed
    · exact .inr (numeric x listed)
    · rcases List.mem_append.mp listed with listed | listed
      · exact .inr (numeric x listed)
      · exact .inl (List.mem_singleton.mp listed)

end Memory

section Strict

variable {rules : EvalRules} {m : Memory} {assignments : List Assignment} {writes : List (String × Value)}
  {fault? : Option Fault} {x : String}

/-- A strict value is a number, and a name is refused only if it holds none. -/
theorem Expr.eval_strict (strict : rules.strict = true) (e : Expr) :
    Within (fun v => v.isNumber = true) (fun fault => ∀ x, fault = .unbound x → ¬m.Holds x)
      (e.eval rules m) := by
  refine eval_within (by rintro _ _ ⟨⟩) (by rintro _ _ ⟨⟩) (fun y => ?_) e
  unfold readVariable
  split
  · rfl
  · rfl
  · rename_i unheld unheld'
    rw [strict]
    rintro _ ⟨⟩ ⟨v, has, number⟩
    cases v with
    | whole n => exact unheld n has
    | real r => exact unheld' r has
    | missing => cases number

/-- A strict run writes numbers. -/
theorem Writes.isNumber (strict : rules.strict = true) (h : Writes rules m assignments writes) :
    ∀ write ∈ writes, write.2.isNumber = true := by
  induction h with
  | nil => simp
  | @cons m a v _ _ value _ ih =>
    have number := a.value.eval_strict (m := m) strict
    rw [value] at number
    exact List.forall_mem_cons.mpr ⟨number, ih⟩

/-- A strict run writes numbers up to its failure. -/
theorem Executes.isNumber (strict : rules.strict = true) (h : Executes rules m assignments writes fault?) :
    ∀ write ∈ writes, write.2.isNumber = true := by
  cases h with
  | completed written => exact written.isNumber strict
  | failed written _ => exact written.isNumber strict

/-- A strict run refuses a name only if the memory then holds no number for it. -/
theorem Executes.not_holds (strict : rules.strict = true)
    (h : Executes rules m assignments writes (some (.unbound x))) : ¬Memory.Holds (m.setAll writes) x := by
  cases h with
  | @failed _ _ a _ _ _ fails =>
    have refused := a.value.eval_strict (m := m.setAll writes) strict
    rw [fails] at refused
    exact refused x rfl

end Strict

/-! ## A memory on top of another one -/

/-- A memory is what one memory becomes on top of another one: a value is the upper one if there is one, and new
names are listed behind the lower ones. -/
structure Overlaid (lower upper m : Memory) : Prop where
  value : ∀ x, m.get? x = (upper.get? x).or (lower.get? x)
  names : m.names = lower.names ++ upper.names.filter fun x => x ∉ lower.names

namespace Overlaid

variable {lower upper m : Memory}

/-- With nothing on top of it, a memory is itself. -/
theorem empty : Overlaid lower .empty lower := ⟨fun x => by simp, by simp⟩

/-- A value that is written is on top. -/
theorem set (h : Overlaid lower upper m) (x : String) (v : Value) :
    Overlaid lower (upper.set x v) (m.set x v) := by
  refine ⟨fun y => ?_, ?_⟩
  · by_cases same : y = x
    · simp [same]
    · simpa [same] using h.value y
  · have listed : x ∈ m.names ↔ x ∈ lower.names ∨ x ∈ upper.names := by
      rw [h.names, List.mem_append, List.mem_filter, decide_eq_true_eq]
      tauto
    rw [OrderedMap.names_set, OrderedMap.names_set]
    by_cases above : x ∈ upper.names
    · rw [if_pos above, if_pos (listed.mpr (.inr above)), h.names]
    · by_cases below : x ∈ lower.names
      · rw [if_neg above, if_pos (listed.mpr (.inl below)), h.names]
        simp [below]
      · rw [if_neg above, if_neg fun found => (listed.mp found).elim below above, h.names]
        simp [below]

/-- All values that are written are on top. -/
theorem setAll (h : Overlaid lower upper m) (writes : List (String × Value)) :
    Overlaid lower (upper.setAll writes) (m.setAll writes) := by
  induction writes generalizing upper m with
  | nil => exact h
  | cons write rest ih => exact ih (h.set write.1 write.2)

/-- What is on top hides a memory below all of whose names it has. -/
theorem get?_eq (h : Overlaid lower upper m) (covered : ∀ x ∈ lower.names, x ∈ upper.names) (x : String) :
    m.get? x = upper.get? x := by
  rw [h.value x]
  cases above : upper.get? x with
  | some v => rfl
  | none =>
    cases below : lower.get? x with
    | none => rfl
    | some w =>
      obtain ⟨v, has⟩ := OrderedMap.mem_names_iff.mp (covered x (OrderedMap.mem_names_iff.mpr ⟨w, below⟩))
      rw [above] at has
      cases has

/-- What is on top is all there is exactly if it begins with the names below. -/
theorem eq_iff (h : Overlaid lower upper m) (distinct : upper.names.Nodup) :
    m = upper ↔ lower.names <+: upper.names := by
  constructor
  · rintro rfl
    exact ⟨_, h.names.symm⟩
  · rintro ⟨rest, same⟩
    have covered : ∀ x ∈ lower.names, x ∈ upper.names := by
      intro x below
      rw [← same]
      exact List.mem_append_left rest below
    have names : m.names = upper.names := by
      rw [← same] at distinct
      have apart := (List.nodup_append.mp distinct).2.2
      have below : (lower.names.filter fun x => x ∉ lower.names) = [] := by simp
      have above : (rest.filter fun x => x ∉ lower.names) = rest := by
        rw [List.filter_eq_self]
        intro x member
        exact decide_eq_true fun listed => apart x listed x member rfl
      rw [h.names, ← same, List.filter_append, below, above, List.nil_append]
    have entries : m.entries = upper.entries := by
      rw [OrderedMap.entries_eq (names ▸ distinct), OrderedMap.entries_eq distinct, names]
      simp only [h.get?_eq covered]
    obtain ⟨entries'⟩ := m
    obtain ⟨_⟩ := upper
    exact congrArg OrderedMap.mk entries

end Overlaid

/-- A strict run on top of a memory is the same run, unless by itself it is refused a name that the memory
below has. -/
theorem Executes.overlaid {rules : EvalRules} (strict : rules.strict = true) {lower upper m : Memory}
    (h : Overlaid lower upper m) {assignments : List Assignment} {writes : List (String × Value)} {fault? : Option Fault}
    (executes : Executes rules upper assignments writes fault?) :
    (∃ x ∈ lower.names, fault? = some (.unbound x)) ∨ Executes rules m assignments writes fault? := by
  have reads : ∀ {upper m : Memory}, Overlaid lower upper m → ∀ x,
      SameUnless (fun fault => ∃ x ∈ lower.names, fault = .unbound x)
        (Expr.readVariable rules upper x) (Expr.readVariable rules m x) := by
    intro upper m h x
    by_cases shows : m.get? x = upper.get? x
    · rw [Expr.readVariable, Expr.readVariable, shows]
      exact .refl _
    · -- the value comes from below, and there is none on top
      have none : upper.get? x = none := by
        cases above : upper.get? x with
        | none => rfl
        | some v => exact absurd (by rw [h.value x, above]; rfl) shows
      have below : x ∈ lower.names := by
        rw [h.value x, none, Option.none_or] at shows
        exact OrderedMap.mem_names_iff.mpr (Option.ne_none_iff_exists'.mp shows)
      rw [Expr.readVariable, none, strict]
      exact .inl ⟨_, ⟨x, below, rfl⟩, rfl⟩
  rcases executes.recur rfl reads (fun h => h.set) h with ⟨_, ⟨x, below, rfl⟩, rfl⟩ | again
  · exact .inl ⟨x, below, rfl⟩
  · exact .inr again

/-! ## Runs one after the other -/

namespace Executes

variable {rules : EvalRules} {lower : Memory} {assignments : List Assignment}
  {writes writes' : List (String × Value)} {fault? fault?' : Option Fault}

/-- A run after another one is the same as alone, unless alone it is refused a name that is there already. -/
theorem refused_or_same (strict : rules.strict = true) (alone : Executes rules .empty assignments writes fault?)
    (after : Executes rules lower assignments writes' fault?') :
    (∃ x ∈ lower.names, fault? = some (.unbound x)) ∨ writes' = writes ∧ fault?' = fault? :=
  (alone.overlaid strict .empty).imp id fun again => after.unique again

/-- A name that the run writes itself is not refused. -/
theorem same_of_covered (strict : rules.strict = true) (alone : Executes rules .empty assignments writes fault?)
    (after : Executes rules lower assignments writes' fault?')
    (covered : ∀ x ∈ lower.names, x ∈ (OrderedMap.empty.setAll writes).names) :
    writes' = writes ∧ fault?' = fault? := by
  refine (alone.refused_or_same strict after).resolve_left ?_
  rintro ⟨x, below, rfl⟩
  have numeric : Memory.Numeric (OrderedMap.empty.setAll writes) :=
    .setAll (alone.isNumber strict) (by rintro x ⟨⟩)
  exact alone.not_holds strict (numeric x (covered x below))

/-- A run after another one ends as alone exactly if alone it is not refused a name that is there already. -/
theorem fault_eq_iff (strict : rules.strict = true) (numeric : lower.Numeric)
    (alone : Executes rules .empty assignments writes fault?)
    (after : Executes rules lower assignments writes' fault?') :
    fault?' = fault? ↔ ∀ x ∈ lower.names, fault? ≠ some (.unbound x) := by
  constructor
  · rintro rfl x below rfl
    -- a number that is there already is there at the end
    exact after.not_holds strict ((numeric x below).setAll (after.isNumber strict))
  · intro unrefused
    rcases alone.refused_or_same strict after with ⟨x, below, refused⟩ | ⟨_, same⟩
    · exact absurd refused (unrefused x below)
    · exact same

/-- It also leaves every name with the value that it has alone exactly if it writes all the names itself that
are there already. -/
theorem values_eq_iff (strict : rules.strict = true) (alone : Executes rules .empty assignments writes fault?)
    (after : Executes rules lower assignments writes' fault?') :
    (fault?' = fault? ∧
        ∀ x, (lower.setAll writes').get? x = (OrderedMap.empty.setAll writes).get? x) ↔
      ∀ x ∈ lower.names, x ∈ (OrderedMap.empty.setAll writes).names := by
  constructor
  · rintro ⟨_, values⟩ x below
    have listed : x ∈ (lower.setAll writes').names := by
      rw [OrderedMap.names_setAll]
      exact List.mem_append_left _ below
    rwa [OrderedMap.mem_names_iff, values, ← OrderedMap.mem_names_iff] at listed
  · intro covered
    obtain ⟨rfl, rfl⟩ := alone.same_of_covered strict after covered
    exact ⟨rfl, (Overlaid.empty.setAll writes').get?_eq covered⟩

/-- It leaves the very same memory exactly if it writes the names first, and in the order, in which they are
there already. -/
theorem memory_eq_iff (strict : rules.strict = true) (alone : Executes rules .empty assignments writes fault?)
    (after : Executes rules lower assignments writes' fault?') :
    (fault?' = fault? ∧ lower.setAll writes' = OrderedMap.empty.setAll writes) ↔
      lower.names <+: (OrderedMap.empty.setAll writes).names := by
  have distinct : (OrderedMap.empty.setAll writes).names.Nodup :=
    OrderedMap.nodup_names_setAll (m := .empty) List.nodup_nil writes
  constructor
  · rintro ⟨_, same⟩
    rw [← same, OrderedMap.names_setAll]
    exact List.prefix_append _ _
  · intro first
    obtain ⟨rfl, rfl⟩ := alone.same_of_covered strict after fun x below => first.subset below
    exact ⟨rfl, ((Overlaid.empty.setAll writes').eq_iff distinct).mpr first⟩

end Executes

/-- A run in a strict edition, after another one and alone. It ends as it does alone exactly if alone it is not
refused a name that the run before has written. It leaves every name with the value that it has alone exactly if
it writes all names itself that the run before has written; and it leaves the very same memory exactly if it
writes these names first, in the same order. -/
theorem isolated_iff_rewritten {e : Edition} (strict : e ∈ [.statements, .declarations]) {text text' : String}
    {tree tree' : Node} {reading reading' : Reading} (accepted : e.Accepts text tree reading)
    (accepted' : e.Accepts text' tree' reading') :
    let used := ((Session.initial none).step e none .run (some text)).session
    let alone := (Session.initial none).step e none .run (some text')
    let after := used.step e none .run (some text')
    (after.result = alone.result ↔ ∀ x ∈ used.memory.names, alone.result ≠ .error (.unbound x)) ∧
    (after.result = alone.result ∧
        (∀ x, after.session.memory.get? x = alone.session.memory.get? x) ↔
      ∀ x ∈ used.memory.names, x ∈ alone.session.memory.names) ∧
    (after.result = alone.result ∧ after.session.memory = alone.session.memory ↔
      used.memory.names <+: alone.session.memory.names) := by
  have rules : ∀ e ∈ [Edition.statements, .declarations], e.hasStatements = true ∧ e.evalRules.strict = true := by
    decide
  obtain ⟨statements, strict⟩ := rules e strict
  intro used alone after
  obtain ⟨before, fault?₀, executes₀, ran₀⟩ :=
    @Session.run_tree e.evalRules tree (accepted.hasStatements statements) (.initial none)
  obtain ⟨writes, fault?, executes, ran⟩ :=
    @Session.run_tree e.evalRules tree' (accepted'.hasStatements statements) (.initial none)
  obtain ⟨writes', fault?', executes', ran'⟩ :=
    @Session.run_tree e.evalRules tree' (accepted'.hasStatements statements) used
  have left : used = _ := congrArg StepOutcome.session (Session.step_run accepted (.initial none))
  have first : alone = _ := Session.step_run accepted' (.initial none)
  have second : after = _ := Session.step_run accepted' used
  rw [ran₀] at left
  rw [ran] at first
  rw [ran'] at second
  have numeric : used.memory.Numeric := by
    rw [left]
    exact .setAll (executes₀.isNumber strict) (by rintro x ⟨⟩)
  rw [first, second]
  refine ⟨?_, ?_, ?_⟩
  · rw [Fault.outcome_inj, executes.fault_eq_iff strict numeric executes']
    exact forall₂_congr fun x _ => (@Fault.outcome_inj fault? (some (.unbound x))).not.symm
  · rw [Fault.outcome_inj]
    exact executes.values_eq_iff strict executes'
  · rw [Fault.outcome_inj]
    exact executes.memory_eq_iff strict executes'

/-- A program that reads a name without a value is refused alone, and completes after a program that has
written the name. -/
theorem isolated_iff_rewritten_refused_alone :
    let used := ((Session.initial none).step .statements none .run (some "BEGIN a := 1 END.")).session
    let alone := (Session.initial none).step .statements none .run (some "BEGIN b := a END.")
    let after := used.step .statements none .run (some "BEGIN b := a END.")
    Edition.statements ∈ [Edition.statements, .declarations] ∧
    (∃ tree reading, Edition.statements.Accepts "BEGIN a := 1 END." tree reading) ∧
    (∃ tree reading, Edition.statements.Accepts "BEGIN b := a END." tree reading) ∧
    alone.result = .error (.unbound "a") ∧ after.session.memory = ⟨[("a", .whole 1), ("b", .whole 1)]⟩ ∧
    after.result ≠ alone.result ∧
    ¬∀ x, after.session.memory.get? x = alone.session.memory.get? x := by
  intro used alone after
  have strict : Edition.statements ∈ [Edition.statements, .declarations] := by decide
  have yields : Edition.statements.yields "BEGIN a := 1 END." (fun _ => true) = true := by decide +kernel
  have yields' : Edition.statements.yields "BEGIN b := a END." (fun _ => true) = true := by decide +kernel
  obtain ⟨tree, reading, accepted, _⟩ := Edition.exists_accepts yields
  obtain ⟨tree', reading', accepted', _⟩ := Edition.exists_accepts yields'
  have refused : alone.fault? = some (.unbound "a") := by decide +kernel
  have written : "a" ∈ used.memory.names := by decide +kernel
  have memory : after.session.memory = ⟨[("a", .whole 1), ("b", .whole 1)]⟩ := by decide +kernel
  rw [StepOutcome.fault?_eq_some] at refused
  obtain ⟨results, _⟩ := isolated_iff_rewritten strict accepted accepted'
  have apart : after.result ≠ alone.result := fun same => results.mp same "a" written refused
  refine ⟨strict, ⟨tree, reading, accepted⟩, ⟨tree', reading', accepted'⟩, refused, memory, apart, fun same => ?_⟩
  have unwritten : "b" ∉ alone.session.memory.names := by decide +kernel
  have listed : "b" ∈ after.session.memory.names := by rw [memory]; decide
  rw [OrderedMap.mem_names_iff, same, ← OrderedMap.mem_names_iff] at listed
  exact unwritten listed

end LittlePascal
