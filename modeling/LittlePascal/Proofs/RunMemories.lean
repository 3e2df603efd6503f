import LittlePascal.Proofs.Assignedness

/-! # The moments of a run

A run comes to its assignments one after the other, and evaluating a right-hand side comes to its parts one after
the other. So there is a memory at each moment, and what is computed then can be spoken of by itself.

Where every variable that is read has a value, a memory of numbers stays one: only numbers are computed and
stored, and a run that fails does so at a division by zero or at a number too large for a double.

Main definitions:
* `Expr.Visits`: evaluating an expression comes to a part of it;
* `Reached`: the assignments that a run has completed at a moment, and the memory then;
* `ReadsAssigned`: wherever a run comes, the variables that are read have a value.

Main statements:
* `Expr.Visits.eval_eq_error`, `Expr.exists_visits_of_unbound`: an expression fails where a part of it does;
* `Reached.cons_iff`, `Executes.reached`: a first assignment, and the end of a run;
* `Reached.invariant`: what each assignment keeps holds at every moment;
* `assigned_run_numeric`: a run that reads assigned variables only. -/

namespace LittlePascal

/-! ## Parts of an expression -/

namespace Expr

/-- Evaluating an expression comes to a part of it. It comes to a right operand once the left one has a value, and
for a division of doubles once that value has become one. -/
inductive Visits (rules : EvalRules) (m : Memory) : Expr → Expr → Prop
  | self {e : Expr} : Visits rules m e e
  | operand {sign : Sign} {place : Place} {e part : Expr} (inside : Visits rules m e part) :
      Visits rules m (.signed sign place e) part
  | left {operator : Operator} {place : Place} {left right part : Expr} (inside : Visits rules m left part) :
      Visits rules m (.binary operator place left right) part
  | right {operator : Operator} {place : Place} {left right part : Expr} {v : Value}
      (value : left.eval rules m = .ok v)
      (double : operation rules operator = .divide → ∃ x, v.toReal = .ok x)
      (inside : Visits rules m right part) : Visits rules m (.binary operator place left right) part

variable {rules : EvalRules} {m : Memory} {e part : Expr} {fault : Fault}

/-- Where the left operand fails nothing is combined. -/
theorem combine_error (operation : Operation) (fault : Fault) (right : Except Fault Value) :
    combine operation (.error fault) right = .error fault := by
  cases operation <;> rfl

/-- Where the right operand is come to and fails nothing is combined. -/
theorem combine_ok_error {operation : Operation} {v : Value}
    (double : operation = .divide → ∃ x, v.toReal = .ok x) (fault : Fault) :
    combine operation (.ok v) (.error fault) = .error fault := by
  by_cases divides : operation = .divide
  · obtain ⟨x, brought⟩ := double divides
    subst divides
    show (liftArithmetic v.toReal >>= fun _ => (.error fault : Except Fault Value)) = _
    rw [brought]
    rfl
  · cases operation <;> first | rfl | exact absurd rfl divides

/-- Operands are not combined if the left one fails, if the right one is come to and fails, or if arithmetic
does. -/
theorem combine_eq_error {operation : Operation} {left right : Except Fault Value}
    (h : combine operation left right = .error fault) :
    left = .error fault ∨
      (∃ v, left = .ok v ∧ (operation = .divide → ∃ x, v.toReal = .ok x) ∧ right = .error fault) ∨
      ∃ f, fault = .arithmetic f := by
  cases left with
  | error first =>
    rw [combine_error] at h
    exact .inl h
  | ok v =>
    cases right with
    | ok w =>
      have fails := @combine_within (fun fault => ∃ f, fault = .arithmetic f) (fun _ => True) operation
        (.ok v) (.ok w) (fun f => ⟨f, rfl⟩) trivial trivial
      rw [h] at fails
      exact .inr (.inr fails)
    | error second =>
      by_cases double : operation = .divide → ∃ x, v.toReal = .ok x
      · rw [combine_ok_error double] at h
        exact .inr (.inl ⟨v, rfl, double, h⟩)
      · -- the left operand cannot be brought to a double, so the right one is not come to
        obtain ⟨rfl, none⟩ := Classical.not_imp.mp double
        cases brought : v.toReal with
        | ok x => exact absurd ⟨x, brought⟩ none
        | error f =>
          change (liftArithmetic v.toReal >>= fun _ => (.error second : Except Fault Value)) = _ at h
          rw [brought] at h
          cases h
          exact .inr (.inr ⟨f, rfl⟩)

/-- An expression fails as any part does that evaluating it comes to. -/
theorem Visits.eval_eq_error (h : Visits rules m e part) (fails : part.eval rules m = .error fault) :
    e.eval rules m = .error fault := by
  induction h with
  | self => exact fails
  | operand _ ih =>
    rw [eval, ih fails]
    rfl
  | left _ ih => rw [eval, ih fails, combine_error]
  | right value double _ ih => rw [eval, value, ih fails, combine_ok_error double]

/-- An expression that fails at a variable without a value has come to that variable, which is refused. -/
theorem exists_visits_of_unbound {x : String} (h : e.eval rules m = .error (.unbound x)) :
    ∃ id, id.name = x ∧ Visits rules m e (.var id) ∧ (Expr.var id).eval rules m = .error (.unbound x) := by
  induction e with
  | literal | hole => cases h
  | var id =>
    refine ⟨id, ?_, .self, h⟩
    rw [eval, readVariable] at h
    split at h
    · cases h
    · cases h
    · split at h
      · cases h
        rfl
      · cases h
  | signed sign place operand ih =>
    rw [eval] at h
    cases value : operand.eval rules m with
    | error fault =>
      rw [value] at h
      cases h
      obtain ⟨id, named, inside, refused⟩ := ih value
      exact ⟨id, named, .operand inside, refused⟩
    | ok v =>
      -- arithmetic fails otherwise
      rw [value] at h
      change liftArithmetic (v.applySign sign) = _ at h
      cases applied : v.applySign sign <;> rw [applied] at h <;> cases h
  | binary operator place left right ihLeft ihRight =>
    rcases combine_eq_error h with failed | ⟨v, value, double, failed⟩ | ⟨f, other⟩
    · obtain ⟨id, named, inside, refused⟩ := ihLeft failed
      exact ⟨id, named, .left inside, refused⟩
    · obtain ⟨id, named, inside, refused⟩ := ihRight failed
      exact ⟨id, named, .right value double inside, refused⟩
    · cases other

/-- The variables of a part are among those of the expression. -/
theorem Visits.mentions_subset (h : Visits rules m e part) : part.mentions ⊆ e.mentions := by
  induction h with
  | self => exact fun _ member => member
  | operand _ ih => exact ih
  | left _ ih => exact fun id member => List.mem_append_left _ (ih member)
  | right _ _ _ ih => exact fun id member => List.mem_append_right _ (ih member)

/-- A part of an expression that fits a grammar fits it. -/
theorem Visits.fits {g : Grammar} (h : Visits rules m e part) (fits : e.Fits g) : part.Fits g := by
  induction h with
  | self => exact fits
  | operand _ ih => exact ih fits
  | left _ ih => exact ih fits.1
  | right _ _ _ ih => exact ih fits.2

end Expr

/-- The right-hand sides of a tree that fits a grammar fit it. -/
theorem Node.fits_of_mem_assignments {g : Grammar} {n : Node} {a : Assignment} (fits : n.Fits g)
    (member : a ∈ n.assignments) : a.value.Fits g := by
  cases n with
  | stmt s => exact Stmt.fits_of_mem_assignments fits member
  | block b | program p => exact Stmt.fits_of_mem_assignmentsAll fits.2 member
  | expr | type | parameter | decl => simp [assignments] at member

/-! ## Assignments that a run has completed -/

/-- The run of assignments from a memory on has completed the first ones, and this is the memory then. -/
def Reached (rules : EvalRules) (m : Memory) (assignments before : List Assignment) (now : Memory) : Prop :=
  before <+: assignments ∧ Stmt.runAll rules (before.map Assignment.stmt) m = .ok () now

section Moments

variable {rules : EvalRules} {m now : Memory} {assignments before rest : List Assignment} {a : Assignment}
  {writes : List (String × Value)} {fault? : Option Fault}

/-- Assignments complete exactly if they write something from their memory on. -/
theorem Stmt.runAll_eq_ok_iff :
    Stmt.runAll rules (before.map Assignment.stmt) m = .ok () now ↔
      ∃ writes, Writes rules m before writes ∧ now = m.setAll writes := by
  obtain ⟨writes, fault?, executes, ends⟩ := @Stmt.runAll_executes rules before m
  rw [ends]
  constructor
  · intro done
    cases executes with
    | completed written =>
      cases done
      exact ⟨writes, written, rfl⟩
    | failed => cases done
  · rintro ⟨writes', written, rfl⟩
    obtain ⟨rfl, rfl⟩ := executes.unique (.completed written)
    rfl

namespace Reached

/-- At first nothing is completed. -/
theorem nil_iff : Reached rules m assignments [] now ↔ now = m := by
  have none : Stmt.runAll rules [] m = .ok () m := rfl
  simp [Reached, none, eq_comm]

/-- A first assignment is completed, and then others. -/
theorem cons_iff {b : Assignment} :
    Reached rules m (a :: rest) (b :: before) now ↔
      b = a ∧ ∃ v, a.value.eval rules m = .ok v ∧ Reached rules (m.set a.target.name v) rest before now := by
  simp only [Reached, List.cons_prefix_cons, List.map_cons, Stmt.runAll]
  constructor
  · rintro ⟨⟨rfl, sub⟩, done⟩
    obtain ⟨_, then', first, others⟩ := Work.bind_eq_ok.mp done
    cases value : b.value.eval rules m with
    | error fault => cases first.symm.trans (Stmt.run_assign_of_error value)
    | ok v =>
      cases first.symm.trans (Stmt.run_assign_of_ok value)
      exact ⟨rfl, v, rfl, sub, others⟩
  · rintro ⟨rfl, v, value, sub, others⟩
    exact ⟨⟨rfl, sub⟩, (Work.bind_of_ok (Stmt.run_assign_of_ok value)).trans others⟩

/-- What holds of a memory at first, and is kept by each assignment that the run comes to and completes, holds at
every moment. -/
theorem invariant {P : Memory → Prop} (first : P m)
    (step : ∀ before a now v, Reached rules m assignments before now → before ++ [a] <+: assignments → P now →
      a.value.eval rules now = .ok v → P (now.set a.target.name v))
    (reached : Reached rules m assignments before now) : P now := by
  induction before generalizing m assignments with
  | nil =>
    obtain rfl := nil_iff.mp reached
    exact first
  | cons a before ih =>
    cases assignments with
    | nil => simp [Reached] at reached
    | cons b rest =>
      obtain ⟨rfl, v, value, reached⟩ := cons_iff.mp reached
      refine ih (step [] a m v (nil_iff.mpr rfl) ⟨rest, rfl⟩ first value) ?_ reached
      -- a moment of the run behind the first assignment is one of the whole run
      intro before b now w between next
      exact step (a :: before) b now w (cons_iff.mpr ⟨rfl, v, value, between⟩) (List.cons_prefix_cons.mpr ⟨rfl, next⟩)

/-- What is written up to a moment makes the memory then. -/
theorem iff_writes :
    Reached rules m assignments before now ↔
      before <+: assignments ∧ ∃ writes, Writes rules m before writes ∧ now = m.setAll writes :=
  and_congr_right fun _ => Stmt.runAll_eq_ok_iff

/-- The names of a memory are the earlier ones and those that have been assigned. -/
theorem mem_names_iff (h : Reached rules m assignments before now) {x : String} :
    x ∈ now.names ↔ x ∈ m.names ∨ x ∈ before.map fun b => b.target.name := by
  obtain ⟨_, writes, written, rfl⟩ := iff_writes.mp h
  rw [← written.map_fst, OrderedMap.names_setAll, List.mem_append, List.mem_eraseDups]
  by_cases known : x ∈ m.names
  · simp [known]
  · simp [List.removeAll, known]

end Reached

/-- A run ends at a moment that it has reached. -/
theorem Executes.reached (h : Executes rules m assignments writes fault?) :
    ∃ before, Reached rules m assignments before (m.setAll writes) := by
  cases h with
  | completed written => exact ⟨_, Reached.iff_writes.mpr ⟨List.prefix_refl _, writes, written, rfl⟩⟩
  | @failed before after a _ _ written _ =>
    exact ⟨before, Reached.iff_writes.mpr ⟨List.prefix_append _ _, writes, written, rfl⟩⟩

/-- A run has a fault exactly if it comes to an assignment that fails with it. -/
theorem Executes.eq_some_iff_reached (h : Executes rules m assignments writes fault?) {fault : Fault} :
    fault? = some fault ↔ ∃ before a now, Reached rules m assignments before now ∧
      before ++ [a] <+: assignments ∧ a.value.eval rules now = .error fault := by
  rw [h.eq_some_iff]
  constructor
  · rintro ⟨before, a, after, written', rfl, written, fails⟩
    refine ⟨before, a, _, Reached.iff_writes.mpr ⟨List.prefix_append _ _, _, written, rfl⟩, ?_, fails⟩
    exact ⟨after, by simp⟩
  · rintro ⟨before, a, now, reached, ⟨after, rfl⟩, fails⟩
    obtain ⟨_, written', written, rfl⟩ := Reached.iff_writes.mp reached
    exact ⟨before, a, after, written', by simp, written, fails⟩

/-! ## Variables that have been assigned -/

/-- Wherever a run comes to an assignment, the variables of its right-hand side have a value in the memory
then. -/
def ReadsAssigned (rules : EvalRules) (m : Memory) (assignments : List Assignment) : Prop :=
  ∀ before a now, Reached rules m assignments before now → before ++ [a] <+: assignments →
    ∀ id ∈ a.value.mentions, id.name ∈ now.names

namespace ReadsAssigned

/-- Nothing is read. -/
theorem nil : ReadsAssigned rules m [] := by
  intro before a now _ next
  simp at next

/-- The first assignment reads assigned variables, and if it completes the others do. -/
theorem cons_iff :
    ReadsAssigned rules m (a :: rest) ↔
      (∀ id ∈ a.value.mentions, id.name ∈ m.names) ∧
        ∀ v, a.value.eval rules m = .ok v → ReadsAssigned rules (m.set a.target.name v) rest := by
  constructor
  · intro h
    refine ⟨h [] a m (Reached.nil_iff.mpr rfl) ⟨rest, rfl⟩, fun v value before b now reached next => ?_⟩
    refine h (a :: before) b now (Reached.cons_iff.mpr ⟨rfl, v, value, reached⟩) ?_
    exact List.cons_prefix_cons.mpr ⟨rfl, next⟩
  · rintro ⟨first, others⟩ before b now reached next
    cases before with
    | nil =>
      obtain rfl := Reached.nil_iff.mp reached
      obtain ⟨rfl, _⟩ := List.cons_prefix_cons.mp next
      exact first
    | cons a' before =>
      obtain ⟨rfl, v, value, reached⟩ := Reached.cons_iff.mp reached
      exact others v value before b now reached (List.cons_prefix_cons.mp next).2

/-- Whether a run reads assigned variables only can be decided by running it. -/
def decided (rules : EvalRules) : (m : Memory) → (assignments : List Assignment) →
    Decidable (ReadsAssigned rules m assignments)
  | _, [] => .isTrue nil
  | m, a :: rest =>
    match value : a.value.eval rules m with
    | .ok v =>
      have := decided rules (m.set a.target.name v) rest
      decidable_of_iff
        ((∀ id ∈ a.value.mentions, id.name ∈ m.names) ∧ ReadsAssigned rules (m.set a.target.name v) rest) (by
          rw [cons_iff, value]
          simp)
    | .error _ =>
      decidable_of_iff (∀ id ∈ a.value.mentions, id.name ∈ m.names) (by
          rw [cons_iff, value]
          simp)

instance (rules : EvalRules) (m : Memory) (assignments : List Assignment) :
    Decidable (ReadsAssigned rules m assignments) := decided rules m assignments

variable {g : Grammar}

/-- The first assignment of such a run has a number for its value, or fails as arithmetic on numbers does; and
so has every part that evaluating it comes to. -/
theorem eval_within (holes : g.holes = false) {e part : Expr} (fits : e.Fits g) (numeric : m.Numeric)
    (assigned : ∀ id ∈ e.mentions, id.name ∈ m.names) (inside : e.Visits rules m part) :
    Within (fun v => v.isNumber = true) Fault.IsNumeric (part.eval rules m) :=
  Expr.eval_of_held holes (inside.fits fits) fun id read =>
    numeric id.name (assigned id (inside.mentions_subset read))

/-- At every moment of such a run from a memory of numbers the memory holds numbers only. -/
theorem numeric (h : ReadsAssigned rules m assignments) (holes : g.holes = false)
    (fits : ∀ a ∈ assignments, a.value.Fits g) (numbers : m.Numeric)
    (reached : Reached rules m assignments before now) : now.Numeric := by
  refine reached.invariant numbers fun before a now v reached next numbers value => ?_
  have member : a ∈ assignments := next.subset (by simp)
  have number : v.isNumber = true := by
    have whole : a.value.Visits rules now a.value := .self
    have within := eval_within holes (fits a member) numbers (h before a now reached next) whole
    rwa [value] at within
  have stored : Memory.Numeric (now.setAll [(a.target.name, v)]) := numbers.setAll (by simpa using number)
  exact stored

end ReadsAssigned

end Moments

/-! ## Runs in a session -/

/-- In the editions that read a variable without a value as a missing one, a run from a memory of numbers whose
right-hand sides read assigned variables only computes and stores nothing but numbers. It completes, or it fails
at a division by zero or at a number that is too large for a double. -/
theorem assigned_run_numeric {e : Edition} (lenient : e ∈ Edition.analysing) {text : String} {tree : Node}
    {reading : Reading} (parsed : e.Accepts text tree reading) (analysis? : Option Analysis) {s : Session}
    (numbers : s.memory.Numeric) (assigned : ReadsAssigned e.evalRules s.memory tree.assignments) :
    let done := s.step e analysis? .run (some text)
    (∀ before a now, Reached e.evalRules s.memory tree.assignments before now →
      before ++ [a] <+: tree.assignments → ∀ part, a.value.Visits e.evalRules now part →
        Within (fun v => v.isNumber = true) Fault.IsNumeric (part.eval e.evalRules now)) ∧
    (∀ before now, Reached e.evalRules s.memory tree.assignments before now → now.Numeric) ∧
    done.session.memory.Numeric ∧
    (done.result = .ok (some .missing) ∨ ∃ fault, done.result = .error fault ∧ fault.IsNumeric) := by
  have decisions : ∀ e ∈ Edition.analysing, e.hasStatements = true ∧ e.grammar.holes = false := by decide
  obtain ⟨statements, holes⟩ := decisions e lenient
  intro done
  have fits : ∀ a ∈ tree.assignments, a.value.Fits e.grammar := fun a =>
    Node.fits_of_mem_assignments (Grammar.fits_of_attempt parsed)
  have numeric : ∀ before now, Reached e.evalRules s.memory tree.assignments before now → now.Numeric :=
    fun _ _ => assigned.numeric holes fits numbers
  have computed : ∀ before a now, Reached e.evalRules s.memory tree.assignments before now →
      before ++ [a] <+: tree.assignments → ∀ part, a.value.Visits e.evalRules now part →
        Within (fun v => v.isNumber = true) Fault.IsNumeric (part.eval e.evalRules now) := by
    intro before a now reached next part inside
    have member : a ∈ tree.assignments := next.subset (by simp)
    exact ReadsAssigned.eval_within holes (fits a member) (numeric before now reached)
      (assigned before a now reached next) inside
  obtain ⟨writes, fault?, executes, ran⟩ :=
    @Session.run_tree e.evalRules tree (parsed.hasStatements statements) s
  have ends : done = _ := Session.step_run parsed s
  rw [ran] at ends
  obtain ⟨before, reached⟩ := executes.reached
  refine ⟨computed, numeric, ?_, ?_⟩
  · rw [ends]
    exact numeric before _ reached
  · rw [ends]
    cases fault? with
    | none => exact .inl rfl
    | some fault =>
      -- the run ends at an assignment whose right-hand side fails
      obtain ⟨before, a, now, reached, next, fails⟩ := executes.eq_some_iff_reached.mp rfl
      have within := computed before a now reached next a.value .self
      rw [fails] at within
      exact .inr ⟨fault, rfl, within⟩

/-- A memory with one number in it: what is assigned is read behind signs and in a compound statement, and the
divisor that comes of it is zero. -/
theorem assigned_run_numeric_divisor_zero :
    let text := "PROGRAM p; BEGIN b := a DIV 2; BEGIN c := -b * b END; d := c DIV (b - 3) END."
    let s : Session := ⟨⟨[("a", .whole 7)]⟩, none⟩
    let done := s.step .calls none .run (some text)
    Edition.calls ∈ Edition.analysing ∧ s.memory.Numeric ∧
      ∃ tree reading, Edition.calls.Accepts text tree reading ∧
        ReadsAssigned Edition.calls.evalRules s.memory tree.assignments ∧
        done.result = .error (.arithmetic .wholeByZero) ∧ done.session.memory.names = ["a", "b", "c"] ∧
        done.session.memory.Numeric := by
  intro text s
  have later : Edition.calls ∈ Edition.analysing := by decide
  have numbers : s.memory.Numeric := by
    intro x listed
    cases List.mem_singleton.mp listed
    exact ⟨.whole 7, rfl, rfl⟩
  have yields : Edition.calls.yields text
      (fun tree => ReadsAssigned Edition.calls.evalRules s.memory tree.assignments) = true := by decide +kernel
  obtain ⟨tree, reading, parsed, checked⟩ := Edition.exists_accepts yields
  have assigned := of_decide_eq_true checked
  have failed : (s.step .calls none .run (some text)).fault? = some (.arithmetic .wholeByZero) := by decide +kernel
  have names : (s.step .calls none .run (some text)).session.memory.names = ["a", "b", "c"] := by decide +kernel
  obtain ⟨_, _, numeric, _⟩ := assigned_run_numeric later parsed none numbers assigned
  exact ⟨later, numbers, tree, reading, parsed, assigned, StepOutcome.fault?_eq_some.mp failed, names, numeric⟩

end LittlePascal
