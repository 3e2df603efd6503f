import LittlePascal.Proofs.Execution
import LittlePascal.Proofs.Succession

/-! # Strict and lenient reading of variables

Two runs of the same assignments, by different rules or from different memories, are compared from one
variable to a whole run. If each variable that is read comes to the same in both, unless the first run fails
there in a way that is excused, then the runs write the same values and end alike, unless the first run fails
in such a way.

The edition with declarations is strict: it refuses to read a variable without a value, where the later
editions take the value to be missing. A strict run that is not refused so never meets a missing value, and
the lenient run is the same.

Main definitions: `SameUnless`, results that are the same unless the first is an excused failure;
`Node.assignments`, the assignments that a tree runs.

Main statements:
* `Expr.eval_sameUnless`, `Executes.recur`: from variables to expressions and to whole runs;
* `Session.run_tree`: what running a tree of statements comes to in a session;
* `strict_run_recurs`: strict runs and lenient ones. -/

namespace LittlePascal

/-! ## Results that are the same unless excused -/

/-- Two results are the same, unless the first is a failure that is excused. -/
def SameUnless {α : Type} (excused : Fault → Prop) (x y : Except Fault α) : Prop :=
  (∃ fault, excused fault ∧ x = .error fault) ∨ x = y

namespace SameUnless

variable {α β : Type} {excused : Fault → Prop}

theorem refl (x : Except Fault α) : SameUnless excused x x := .inr rfl

/-- Results that are used in ways which are the same. -/
theorem bind {x y : Except Fault α} {f g : α → Except Fault β} (first : SameUnless excused x y)
    (next : ∀ a, SameUnless excused (f a) (g a)) : SameUnless excused (x >>= f) (y >>= g) := by
  rcases first with ⟨fault, allowed, rfl⟩ | rfl
  · exact .inl ⟨fault, allowed, rfl⟩
  · cases x with
    | error fault => exact .refl _
    | ok a => exact next a

end SameUnless

namespace Expr

variable {excused : Fault → Prop} {rules rules' : EvalRules} {m m' : Memory}

/-- Operands that are the same are combined to the same. -/
theorem combine_sameUnless {operation : Operation} {left left' right right' : Except Fault Value}
    (first : SameUnless excused left left') (second : SameUnless excused right right') :
    SameUnless excused (combine operation left right) (combine operation left' right') := by
  cases operation with
  | divide =>
    -- the left operand becomes a double before the right one is looked at
    exact first.bind fun l => (SameUnless.refl (liftArithmetic l.toReal)).bind fun _ =>
      second.bind fun _ => .refl _
  | add | subtract | multiply | floorDivide => exact first.bind fun _ => second.bind fun _ => .refl _

/-- Expressions have the same value if their variables have. -/
theorem eval_sameUnless (slash : rules.slashFloors = rules'.slashFloors)
    (reads : ∀ x, SameUnless excused (readVariable rules m x) (readVariable rules' m' x)) (e : Expr) :
    SameUnless excused (e.eval rules m) (e.eval rules' m') := by
  have operations : operation rules = operation rules' := by
    funext o
    cases o <;> simp only [operation, slash]
  induction e with
  | literal _ _ | hole => exact .refl _
  | var id => exact reads id.name
  | signed sign _ operand ih => exact ih.bind fun _ => .refl _
  | binary operator _ left right ihLeft ihRight =>
    rw [eval, eval, operations]
    exact combine_sameUnless ihLeft ihRight

end Expr

/-- Runs from related memories are the same, unless the first one fails in an excused way, if variables that
are read come to the same in related memories and writing keeps memories related. -/
theorem Executes.recur {excused : Fault → Prop} {rules rules' : EvalRules} {Related : Memory → Memory → Prop}
    (slash : rules.slashFloors = rules'.slashFloors)
    (reads : ∀ {m m'}, Related m m' → ∀ x,
      SameUnless excused (Expr.readVariable rules m x) (Expr.readVariable rules' m' x))
    (keeps : ∀ {m m'}, Related m m' → ∀ x v, Related (m.set x v) (m'.set x v))
    {m m' : Memory} (related : Related m m') {assignments : List Assignment}
    {writes : List (String × Value)} {fault? : Option Fault}
    (executes : Executes rules m assignments writes fault?) :
    (∃ fault, excused fault ∧ fault? = some fault) ∨ Executes rules' m' assignments writes fault? := by
  induction assignments generalizing m m' writes with
  | nil =>
    obtain ⟨rfl, rfl⟩ := executes.nil_inv
    exact .inr (.completed .nil)
  | cons a rest ih =>
    have value := Expr.eval_sameUnless slash (reads related) a.value
    rcases executes.cons_inv with ⟨fault, failed, rfl, rfl⟩ | ⟨v, further, done, rfl, others⟩
    · rw [failed] at value
      rcases value with ⟨fault', allowed, same⟩ | same
      · cases same
        exact .inl ⟨fault, allowed, rfl⟩
      · exact .inr (@Executes.failed rules' m' [] rest a [] fault .nil same.symm)
    · rw [done] at value
      rcases value with ⟨_, _, same⟩ | same
      · cases same
      · exact (ih (keeps related _ v) others).imp id (.cons same.symm)

/-! ## Trees of statements in a session -/

namespace Node

/-- Whether a tree is made of statements. -/
def hasStatements : Node → Bool
  | .stmt _ | .block _ | .program _ => true
  | _ => false

/-- The assignments that a tree of statements runs, in order. -/
def assignments : Node → List Assignment
  | .stmt s => s.assignments
  | .block b => Stmt.assignmentsAll b.body
  | .program p => p.assignments
  | _ => []

/-- A tree of statements runs as its assignments do. -/
theorem run_assignments {rules : EvalRules} {n : Node} (statements : n.hasStatements = true) :
    n.run rules = (do Stmt.runAll rules (n.assignments.map Assignment.stmt); return .missing) := by
  cases n with
  | stmt s => rw [run, Stmt.run_assignments, assignments]
  | block b => rw [run, Stmt.runAll_assignments, assignments]
  | program p => rw [run, Stmt.runAll_assignments, assignments, Program.assignments]
  | expr _ | type _ | parameter _ | decl _ => cases statements

end Node

namespace Session

variable {rules : EvalRules} {tree : Node}

/-- Running a tree of statements in a session executes its assignments. -/
theorem run_tree (statements : tree.hasStatements = true) (s : Session) :
    ∃ writes fault?, Executes rules s.memory tree.assignments writes fault? ∧
      s.run rules tree = (Fault.outcome fault?, { s with memory := s.memory.setAll writes }) := by
  obtain ⟨writes, fault?, executes, ends⟩ := @Stmt.runAll_executes rules tree.assignments s.memory
  refine ⟨writes, fault?, executes, ?_⟩
  rw [Session.run, Node.run_assignments statements]
  cases fault? with
  | none => rw [Work.bind_of_ok ends]; rfl
  | some fault => rw [Work.bind_of_error ends]; rfl

end Session

/-- What an edition with statements reads is a tree of statements. -/
theorem Edition.Accepts.hasStatements {e : Edition} {text : String} {tree : Node} {reading : Reading}
    (accepted : e.Accepts text tree reading) (statements : e.hasStatements = true) :
    tree.hasStatements = true := by
  obtain ⟨r, _, read⟩ := Lexis.attempt_eq_done.mp accepted
  have holes : e.grammar.holes = false := by simp [grammar, statements]
  cases header : e.grammar.header with
  | true =>
    obtain ⟨p, rfl⟩ := Grammar.exists_program_of_parse holes header read
    rfl
  | false =>
    obtain ⟨s, rfl⟩ := Grammar.exists_stmt_of_parse holes header read
    rfl

/-! ## From strict runs to lenient ones -/

/-- A variable that can be read strictly has the same value when it is read leniently. -/
theorem Expr.readVariable_sameUnless {rules rules' : EvalRules} (lenient : rules'.strict = false) (m : Memory)
    (x : String) :
    SameUnless (fun fault => ∃ x, fault = .unbound x) (readVariable rules m x) (readVariable rules' m x) := by
  unfold readVariable
  split
  · exact .refl _
  · exact .refl _
  · rw [lenient]
    cases rules.strict with
    | false => exact .refl _
    | true => exact .inl ⟨_, ⟨x, rfl⟩, rfl⟩

namespace Session

variable {rules rules' : EvalRules} {tree tree' : Node}

/-- Places make no difference to a run. -/
theorem run_of_unplaced (alike : tree'.unplaced = tree.unplaced) (s : Session) :
    s.run rules tree' = s.run rules tree := by
  have runs : tree'.run rules = tree.run rules := by
    rw [← Node.run_unplaced, alike, Node.run_unplaced]
  rw [Session.run, Session.run, runs]

/-- A strict run is refused at a variable without a value, or a lenient run from the same memory is the same. -/
theorem run_lenient (slash : rules.slashFloors = rules'.slashFloors) (lenient : rules'.strict = false)
    (statements : tree.hasStatements = true) {s s' : Session} (same : s.memory = s'.memory) :
    (∃ x, (s.run rules tree).1 = .error (.unbound x)) ∨
      (s'.run rules' tree).1 = (s.run rules tree).1 ∧
        (s'.run rules' tree).2.memory = (s.run rules tree).2.memory := by
  obtain ⟨writes, fault?, executes, ran⟩ := @run_tree rules tree statements s
  obtain ⟨writes', fault?', executes', ran'⟩ := @run_tree rules' tree statements s'
  have reads : ∀ {m m' : Memory}, m = m' → ∀ x, SameUnless (fun fault => ∃ x, fault = .unbound x)
      (Expr.readVariable rules m x) (Expr.readVariable rules' m' x) := by
    rintro m _ rfl x
    exact Expr.readVariable_sameUnless lenient m x
  have keeps : ∀ {m m' : Memory}, m = m' → ∀ x v, m.set x v = m'.set x v := by
    rintro m _ rfl x v
    rfl
  rw [ran, ran']
  rcases executes.recur slash reads keeps same with ⟨_, ⟨x, rfl⟩, rfl⟩ | recurs
  · exact .inl ⟨x, rfl⟩
  · obtain ⟨rfl, rfl⟩ := recurs.unique executes'
    exact .inr ⟨rfl, by rw [same]⟩

end Session

/-- The run of a text that the edition with declarations reads recurs in every later edition, on any tree that
is the same but for places. If it completes, so does the later run; if it fails other than at a variable
without a value, the later run fails with the same fault; and the memory is the same, with its names in the
same order. -/
theorem strict_run_recurs {text : String} {tree tree' : Node} {reading : Reading} {e : Edition} (logs : Bool)
    (accepted : Edition.declarations.Accepts text tree reading) (later : e ∈ Edition.analysing)
    (alike : tree'.unplaced = tree.unplaced) :
    let early := (Session.initial none).step .declarations none .run (some text)
    let late := (Session.initial (e.analysis? logs)).run e.evalRules tree'
    (∀ value, early.result = .ok value → late.1 = .ok value ∧ late.2.memory = early.session.memory) ∧
    ∀ fault, early.result = .error fault → (∀ x, fault ≠ .unbound x) →
      late.1 = .error fault ∧ late.2.memory = early.session.memory := by
  intro early late
  have rules : ∀ e ∈ Edition.analysing, e.evalRules = ⟨false, false⟩ := by decide
  have first : early = _ := Session.step_run accepted (.initial none)
  have second : late = _ := Session.run_of_unplaced alike (.initial (e.analysis? logs))
  rw [first, second, rules e later]
  have run := @Session.run_lenient Edition.declarations.evalRules ⟨false, false⟩ tree rfl rfl
    (accepted.hasStatements rfl) (.initial none) (.initial (e.analysis? logs)) rfl
  rcases run with ⟨x, refused⟩ | ⟨result, memory⟩
  · refine ⟨fun value done => ?_, fun fault failed other => ?_⟩
    · cases refused.symm.trans done
    · cases refused.symm.trans failed
      exact absurd rfl (other x)
  · exact ⟨fun value done => ⟨result.trans done, memory⟩, fun fault failed _ => ⟨result.trans failed, memory⟩⟩

/-- A quotient by zero behind two assignments ends the run of the last edition too. -/
theorem strict_run_recurs_quotient_by_zero :
    let text := "PROGRAM p; VAR a : INTEGER; BEGIN a := 7; b := - - a * 2; c := b DIV (a - 7); a := c END."
    ∃ tree reading, Edition.declarations.Accepts text tree reading ∧ Edition.calls ∈ Edition.analysing ∧
      let late := (Session.initial (Edition.calls.analysis? true)).run Edition.calls.evalRules tree
      late.1 = .error (.arithmetic .wholeByZero) ∧ late.2.memory = ⟨[("a", .whole 7), ("b", .whole 14)]⟩ := by
  intro text
  have yields : Edition.declarations.yields text (fun _ => true) = true := by decide +kernel
  obtain ⟨tree, reading, accepted, _⟩ := Edition.exists_accepts yields
  let early := (Session.initial none).step .declarations none .run (some text)
  have failed : early.fault? = some (.arithmetic .wholeByZero) := by decide +kernel
  have left : early.session.memory = ⟨[("a", .whole 7), ("b", .whole 14)]⟩ := by decide +kernel
  have later : Edition.calls ∈ Edition.analysing := by decide
  obtain ⟨result, memory⟩ := (strict_run_recurs true accepted later rfl).2 _
    (StepOutcome.fault?_eq_some.mp failed) (by simp)
  exact ⟨tree, reading, accepted, later, result, memory.trans left⟩

end LittlePascal
