import Mathlib.Data.List.Nodup
import LittlePascal.Proofs.Sessions

/-! # Execution of assignments

Running a program executes the assignments of its body one after the other, those of nested compound
statements in their place. Each gives its target the value that its right-hand side has in the memory left
by the assignments before it. The first right-hand side that fails ends the run, and the memory stays as the
assignments before it made it. The next program of a session goes on from there.

Main definitions:
* `Program.assignments`: the assignments of a program's body in order;
* `Writes`: assignments that all complete, with the values that they write;
* `Executes`, `ExecutesAll`: assignments up to the first that fails, of one program or of several.

Main statements:
* `Stmt.runAll_assignments`: statements run as their assignments do;
* `OrderedMap.names_setAll`, `OrderedMap.get?_setAll`: what a memory lists and holds after writing;
* `Session.run_step`, `Session.run_all`: one run in a session, and any number of them;
* `run_executes`: a step of a session, and the memory after it. -/

namespace LittlePascal

/-! ## Writing many values -/

namespace OrderedMap

variable {α : Type} {m : OrderedMap α}

/-- The map in which names have new values, given one after the other. -/
def setAll (m : OrderedMap α) (writes : List (String × α)) : OrderedMap α :=
  writes.foldl (fun m write => m.set write.1 write.2) m

@[simp] theorem setAll_nil : m.setAll [] = m := rfl

@[simp] theorem setAll_cons (write : String × α) (writes : List (String × α)) :
    m.setAll (write :: writes) = (m.set write.1 write.2).setAll writes := rfl

@[simp] theorem setAll_append (first second : List (String × α)) :
    m.setAll (first ++ second) = (m.setAll first).setAll second :=
  List.foldl_append

/-- New names are listed behind the old ones, in the order in which they were first written. -/
theorem names_setAll (m : OrderedMap α) (writes : List (String × α)) :
    (m.setAll writes).names = m.names ++ ((writes.map Prod.fst).removeAll m.names).eraseDups := by
  induction writes generalizing m with
  | nil => simp
  | cons write rest ih =>
    rw [setAll_cons, ih, names_set, List.map_cons]
    by_cases known : write.1 ∈ m.names
    · rw [if_pos known, List.cons_removeAll]
      simp [known]
    · -- the name is new: it is listed next, and later writes of it add nothing
      have later : (rest.map Prod.fst).removeAll (m.names ++ [write.1]) =
          ((rest.map Prod.fst).removeAll m.names).filter fun name => !(name == write.1) := by
        rw [List.removeAll, List.removeAll, List.filter_filter]
        apply List.filter_congr
        intro name _
        rw [Bool.eq_iff_iff]
        simp [and_comm]
      rw [if_neg known, later, List.cons_removeAll]
      simp [known, List.eraseDups_cons]

/-- A name has the value that was written last, or its old one if none was. -/
theorem get?_setAll {name : String} {value : α} {writes : List (String × α)} :
    (m.setAll writes).get? name = some value ↔
      (∃ before after, writes = before ++ (name, value) :: after ∧ name ∉ after.map Prod.fst) ∨
        name ∉ writes.map Prod.fst ∧ m.get? name = some value := by
  induction writes generalizing m with
  | nil => simp
  | cons write rest ih =>
    obtain ⟨key, written⟩ := write
    rw [setAll_cons, ih, get?_set]
    constructor
    · -- what the rest does not write is held after the first write
      rintro (⟨before, after, rfl, last⟩ | ⟨unwritten, held⟩)
      · exact .inl ⟨(key, written) :: before, after, rfl, last⟩
      · split at held
        · rename_i same
          cases held
          exact .inl ⟨[], rest, by rw [same]; rfl, unwritten⟩
        · rename_i other
          exact .inr ⟨by simpa [other] using unwritten, held⟩
    · rintro (⟨before, after, split, last⟩ | ⟨unwritten, held⟩)
      · cases before with
        | nil =>
          cases split
          exact .inr ⟨last, if_pos rfl⟩
        | cons first before =>
          cases split
          exact .inl ⟨before, after, rfl, last⟩
      · simp only [List.map_cons, List.mem_cons, not_or] at unwritten
        exact .inr ⟨unwritten.2, by rw [if_neg unwritten.1, held]⟩

/-- A map whose names are distinct is told by them and their values. -/
theorem entries_eq (distinct : m.names.Nodup) :
    m.entries = m.names.filterMap fun name => (m.get? name).map (name, ·) := by
  obtain ⟨entries⟩ := m
  induction entries with
  | nil => rfl
  | cons entry rest ih =>
    obtain ⟨key, value⟩ := entry
    obtain ⟨new, distinct⟩ := List.nodup_cons.mp distinct
    have first : get? ⟨(key, value) :: rest⟩ key = some value := by
      simp [get?]
    have later : ∀ name ∈ names ⟨rest⟩,
        (get? ⟨(key, value) :: rest⟩ name).map (name, ·) = (get? ⟨rest⟩ name).map (name, ·) := by
      intro name member
      have other : name ≠ key := by
        rintro rfl
        exact new member
      simp [get?, List.lookup_cons, beq_eq_false_iff_ne.mpr other]
    have split : names ⟨(key, value) :: rest⟩ = key :: names ⟨rest⟩ := rfl
    rw [split, List.filterMap_cons, first, Option.map_some, List.filterMap_congr later, ← ih distinct]

/-- Names stay distinct. -/
theorem nodup_names_setAll (distinct : m.names.Nodup) (writes : List (String × α)) :
    (m.setAll writes).names.Nodup := by
  induction writes generalizing m with
  | nil => exact distinct
  | cons write rest ih =>
    refine ih ?_
    rw [names_set]
    split
    · exact distinct
    · rename_i new
      exact List.nodup_append.mpr ⟨distinct, List.nodup_singleton _, by
        rintro a member b among rfl
        rw [List.mem_singleton] at among
        exact new (among ▸ member)⟩

end OrderedMap

/-! ## Assignments -/

/-- An assignment by itself. -/
structure Assignment where
  target : Ident
  place : Place
  value : Expr

/-- The statement that is an assignment. -/
def Assignment.stmt (a : Assignment) : Stmt := .assign a.target a.place a.value

namespace Stmt

mutual

/-- The assignments of a statement in order. Calls have none. -/
def assignments : Stmt → List Assignment
  | .compound children => assignmentsAll children
  | .assign target place value => [⟨target, place, value⟩]
  | .call _ _ => []
  | .empty => []

/-- The assignments of statements in order. -/
def assignmentsAll : List Stmt → List Assignment
  | [] => []
  | statement :: rest => statement.assignments ++ assignmentsAll rest

end

variable {rules : EvalRules} {target : Ident} {place : Place} {x : Expr} {m : Memory}

/-- An assignment gives its target the value of the right-hand side. -/
theorem run_assign_of_ok {v : Value} (h : x.eval rules m = .ok v) :
    (Stmt.assign target place x).run rules m = .ok () (m.set target.name v) := by
  rw [run, Work.get_bind, h]
  rfl

/-- An assignment whose right-hand side fails leaves the memory as it is. -/
theorem run_assign_of_error {fault : Fault} (h : x.eval rules m = .error fault) :
    (Stmt.assign target place x).run rules m = .error fault m := by
  rw [run, Work.get_bind, h]
  rfl

theorem runAll_append (first second : List Stmt) :
    runAll rules (first ++ second) = (do runAll rules first; runAll rules second) := by
  induction first with
  | nil => rfl
  | cons statement rest ih => simp only [List.cons_append, runAll, ih, bind_assoc]

mutual

/-- A statement runs as its assignments do. -/
theorem run_assignments :
    ∀ s : Stmt, s.run rules = runAll rules (s.assignments.map Assignment.stmt)
  | .compound children => by
    rw [run, assignments, runAll_assignments children]
  | .assign target place value => by
    simp only [assignments, List.map_cons, List.map_nil, runAll, Assignment.stmt]
    exact bind_pure_unit.symm
  | .call _ _ => by
    rw [run, assignments]
    rfl
  | .empty => by
    rw [run, assignments]
    rfl

/-- Statements run as their assignments do. -/
theorem runAll_assignments :
    ∀ statements : List Stmt,
      runAll rules statements = runAll rules ((assignmentsAll statements).map Assignment.stmt)
  | [] => rfl
  | statement :: rest => by
    rw [runAll, assignmentsAll, List.map_append, runAll_append, ← run_assignments statement,
      ← runAll_assignments rest]

end

end Stmt

/-- The assignments of a program's body in order. Those of its procedures are not among them. -/
def Program.assignments (p : Program) : List Assignment := Stmt.assignmentsAll p.block.body

/-! ## Execution -/

/-- Assignments that all complete from a memory on, with the names and values that they write. -/
inductive Writes (rules : EvalRules) : Memory → List Assignment → List (String × Value) → Prop
  | nil {m : Memory} : Writes rules m [] []
  | cons {m : Memory} {a : Assignment} {v : Value} {rest : List Assignment}
      {writes : List (String × Value)} (value : a.value.eval rules m = .ok v)
      (further : Writes rules (m.set a.target.name v) rest writes) :
      Writes rules m (a :: rest) ((a.target.name, v) :: writes)

/-- Assignments from a memory on, with what is written before the first right-hand side that fails and the
fault of that one, if there is one. -/
inductive Executes (rules : EvalRules) (m : Memory) :
    List Assignment → List (String × Value) → Option Fault → Prop
  | completed {assignments : List Assignment} {writes : List (String × Value)}
      (written : Writes rules m assignments writes) : Executes rules m assignments writes none
  | failed {before after : List Assignment} {a : Assignment} {writes : List (String × Value)}
      {fault : Fault} (written : Writes rules m before writes)
      (fails : a.value.eval rules (m.setAll writes) = .error fault) :
      Executes rules m (before ++ a :: after) writes (some fault)

/-- The assignments of several programs, each from the memory on that the ones before it left, with all
that is written. -/
inductive ExecutesAll (rules : EvalRules) :
    Memory → List (List Assignment) → List (String × Value) → Prop
  | nil {m : Memory} : ExecutesAll rules m [] []
  | cons {m : Memory} {assignments : List Assignment} {rest : List (List Assignment)}
      {writes further : List (String × Value)} {fault? : Option Fault}
      (first : Executes rules m assignments writes fault?)
      (others : ExecutesAll rules (m.setAll writes) rest further) :
      ExecutesAll rules m (assignments :: rest) (writes ++ further)

/-- The end of a run with this fault, if any. -/
def Fault.ending (m : Memory) : Option Fault → EStateM.Result Fault Memory Unit
  | none => .ok () m
  | some fault => .error fault m

section

variable {rules : EvalRules} {m : Memory}

namespace Executes

variable {a : Assignment} {rest : List Assignment} {v : Value} {writes : List (String × Value)}
  {fault? : Option Fault}

/-- An assignment that completes is executed before the others. -/
theorem cons (value : a.value.eval rules m = .ok v)
    (further : Executes rules (m.set a.target.name v) rest writes fault?) :
    Executes rules m (a :: rest) ((a.target.name, v) :: writes) fault? := by
  cases further with
  | completed written => exact .completed (.cons value written)
  | failed written fails => exact .failed (.cons value written) fails

/-- Without assignments nothing is written. -/
theorem nil_inv (h : Executes rules m [] writes fault?) : writes = [] ∧ fault? = none := by
  -- a list that is split at a failing assignment is not a pattern of `cases`
  generalize empty : ([] : List Assignment) = assignments at h
  cases h with
  | completed written =>
    subst empty
    cases written
    exact ⟨rfl, rfl⟩
  | failed => simp at empty

/-- A first assignment that fails ends the execution, and one that completes is followed by the others. -/
theorem cons_inv (h : Executes rules m (a :: rest) writes fault?) :
    (∃ fault, a.value.eval rules m = .error fault ∧ writes = [] ∧ fault? = some fault) ∨
      ∃ v further, a.value.eval rules m = .ok v ∧ writes = (a.target.name, v) :: further ∧
        Executes rules (m.set a.target.name v) rest further fault? := by
  generalize whole : a :: rest = assignments at h
  cases h with
  | completed written =>
    subst whole
    cases written with
    | cons value further => exact .inr ⟨_, _, value, rfl, .completed further⟩
  | failed written fails =>
    cases written with
    | nil =>
      cases whole
      exact .inl ⟨_, fails, rfl, rfl⟩
    | cons value further =>
      cases whole
      exact .inr ⟨_, _, value, rfl, .failed further fails⟩

/-- Assignments are executed in one way. -/
theorem unique {assignments : List Assignment} {writes' : List (String × Value)}
    {fault?' : Option Fault} (h : Executes rules m assignments writes fault?)
    (h' : Executes rules m assignments writes' fault?') : writes = writes' ∧ fault? = fault?' := by
  induction assignments generalizing m writes writes' with
  | nil =>
    obtain ⟨rfl, rfl⟩ := h.nil_inv
    obtain ⟨rfl, rfl⟩ := h'.nil_inv
    exact ⟨rfl, rfl⟩
  | cons a rest ih =>
    -- the first right-hand side either fails or has a value, in both executions alike
    rcases h.cons_inv with ⟨fault, value, rfl, rfl⟩ | ⟨v, further, value, rfl, others⟩ <;>
      rcases h'.cons_inv with ⟨fault', value', rfl, rfl⟩ | ⟨v', further', value', rfl, others'⟩ <;>
      rw [value] at value' <;> cases value'
    · exact ⟨rfl, rfl⟩
    · obtain ⟨rfl, rfl⟩ := ih others others'
      exact ⟨rfl, rfl⟩

/-- An execution has no fault exactly if all assignments complete. -/
theorem eq_none_iff {assignments : List Assignment} (h : Executes rules m assignments writes fault?) :
    fault? = none ↔ ∃ writes, Writes rules m assignments writes := by
  constructor
  · rintro rfl
    cases h with
    | completed written => exact ⟨writes, written⟩
  · rintro ⟨_, written⟩
    exact (h.unique (.completed written)).2

/-- An execution has a fault exactly if that is the fault of an assignment and all before it complete. -/
theorem eq_some_iff {assignments : List Assignment} {fault : Fault}
    (h : Executes rules m assignments writes fault?) :
    fault? = some fault ↔
      ∃ before a after writes, assignments = before ++ a :: after ∧ Writes rules m before writes ∧
        a.value.eval rules (m.setAll writes) = .error fault := by
  constructor
  · rintro rfl
    cases h with
    | failed written fails => exact ⟨_, _, _, writes, rfl, written, fails⟩
  · rintro ⟨before, a, after, _, rfl, written, fails⟩
    exact (h.unique (.failed written fails)).2

end Executes

/-- Running assignments executes them. -/
theorem Stmt.runAll_executes (assignments : List Assignment) (m : Memory) :
    ∃ writes fault?, Executes rules m assignments writes fault? ∧
      Stmt.runAll rules (assignments.map Assignment.stmt) m =
        Fault.ending (m.setAll writes) fault? := by
  induction assignments generalizing m with
  | nil => exact ⟨[], none, .completed .nil, rfl⟩
  | cons a rest ih =>
    rw [List.map_cons, runAll]
    cases value : a.value.eval rules m with
    | error fault =>
      exact ⟨[], some fault, @Executes.failed rules m [] rest a [] fault .nil value,
        Work.bind_of_error (run_assign_of_error value)⟩
    | ok v =>
      obtain ⟨writes, fault?, executes, ends⟩ := ih (m.set a.target.name v)
      exact ⟨_, fault?, executes.cons value, (Work.bind_of_ok (run_assign_of_ok value)).trans ends⟩

/-- The assignments of several programs are executed in one way. -/
theorem ExecutesAll.unique {programs : List (List Assignment)} {writes writes' : List (String × Value)}
    (h : ExecutesAll rules m programs writes) (h' : ExecutesAll rules m programs writes') :
    writes = writes' := by
  induction h generalizing writes' with
  | nil =>
    cases h'
    rfl
  | cons first _ ih =>
    cases h' with
    | cons first' others' =>
      obtain ⟨rfl, _⟩ := first.unique first'
      rw [ih others']

end

/-! ## Runs in a session -/

namespace Session

variable {e : Edition} {analysis? : Option Analysis}

/-- One run in a session executes the assignments of its program. -/
theorem run_step (source : e.Source) (s : Session) :
    let done := s.step e analysis? .run (some source.text)
    ∃ writes fault?, Executes e.evalRules s.memory source.program.assignments writes fault? ∧
      done.result = Fault.outcome fault? ∧ done.session.memory = s.memory.setAll writes := by
  obtain ⟨writes, fault?, executes, ends⟩ :=
    @Stmt.runAll_executes e.evalRules source.program.assignments s.memory
  rw [Program.assignments, ← Stmt.runAll_assignments] at ends
  intro done
  refine ⟨writes, fault?, executes, ?_⟩
  rw [show done = _ from step_source source, perform, Session.run, Node.run]
  cases fault? with
  | none =>
    rw [Work.bind_of_ok ends]
    exact ⟨rfl, rfl⟩
  | some fault =>
    rw [Work.bind_of_error ends]
    exact ⟨rfl, rfl⟩

/-- Any number of runs in a session execute the assignments of all programs. -/
theorem run_all (sources : List e.Source) (s : Session) :
    ∃ writes, ExecutesAll e.evalRules s.memory
        (sources.map fun source => source.program.assignments) writes ∧
      (s.afterAll e analysis? .run (sources.map Edition.Source.text)).memory =
        s.memory.setAll writes := by
  induction sources generalizing s with
  | nil => exact ⟨[], .nil, rfl⟩
  | cons source rest ih =>
    obtain ⟨writes, fault?, executes, _, left⟩ := @run_step e analysis? source s
    obtain ⟨further, others, after⟩ := ih (s.step e analysis? .run (some source.text)).session
    rw [left] at others after
    refine ⟨writes ++ further, .cons executes others, ?_⟩
    rw [OrderedMap.setAll_append, ← after]
    rfl

end Session

/-- A step of a session that runs a program after others fails exactly if one of its assignments does in
the memory that the ones before it left, and with the fault of the first such assignment. The memory
afterwards is what the assignments of all programs write, each program up to its first failure: names are
listed in the order in which they were first written, and hold the value that was written last. -/
theorem run_executes (e : Edition) (analysis? : Option Analysis) (sources : List e.Source)
    (source : e.Source) :
    let rules := e.evalRules
    let used := (Session.initial analysis?).afterAll e analysis? .run (sources.map Edition.Source.text)
    let done := used.step e analysis? .run (some source.text)
    (∀ fault, done.result = .error fault ↔
      ∃ before a after writes, source.program.assignments = before ++ a :: after ∧
        Writes rules used.memory before writes ∧
        a.value.eval rules (used.memory.setAll writes) = .error fault) ∧
    (done.result = .ok (some .missing) ↔
      ∃ writes, Writes rules used.memory source.program.assignments writes) ∧
    ∃ writes,
      (∀ writes', ExecutesAll rules .empty
        ((sources ++ [source]).map fun source => source.program.assignments) writes' ↔
          writes' = writes) ∧
      done.session.memory = OrderedMap.empty.setAll writes ∧
      done.session.memory.names = (writes.map Prod.fst).eraseDups ∧
      ∀ name value, done.session.memory.get? name = some value ↔
        ∃ before after, writes = before ++ (name, value) :: after ∧ name ∉ after.map Prod.fst := by
  intro rules used done
  obtain ⟨writes, fault?, executes, result, _⟩ := @Session.run_step e analysis? source used
  refine ⟨fun fault => ?_, ?_, ?_⟩
  · rw [← executes.eq_some_iff, ← Fault.outcome_inj]
    exact result ▸ Iff.rfl
  · rw [← executes.eq_none_iff, ← Fault.outcome_inj]
    exact result ▸ Iff.rfl
  · obtain ⟨writes, all, memory⟩ :=
      @Session.run_all e analysis? (sources ++ [source]) (Session.initial analysis?)
    -- the step is the last of the runs
    rw [List.map_append, Session.afterAll, List.foldl_append] at memory
    have memory : done.session.memory = OrderedMap.empty.setAll writes := memory
    refine ⟨writes, fun writes' => ⟨fun all' => all'.unique all, fun same => same ▸ all⟩, memory, ?_, ?_⟩
    · rw [memory, OrderedMap.names_setAll, OrderedMap.names_empty, List.nil_append,
        List.removeAll_nil]
    · intro name value
      rw [memory, OrderedMap.get?_setAll]
      simp

set_option maxRecDepth 10000 in
/-- A program that fails leaves what it had written before, and the next one reads it. -/
theorem run_executes_after_failure :
    ∃ first second : Edition.calls.Source,
      first.text = "PROGRAM p; BEGIN b := 2; a := b DIV 0 END." ∧
      second.text = "PROGRAM q; BEGIN a := b END." ∧
      let analysis? := Edition.calls.analysis? false
      let failed := (Session.initial analysis?).step .calls analysis? .run (some first.text)
      let done := failed.session.step .calls analysis? .run (some second.text)
      failed.result = .error (.arithmetic .wholeByZero) ∧ done.result = .ok (some .missing) ∧
        done.session.memory.names = ["b", "a"] ∧ done.session.memory.get? "a" = some (.whole 2) := by
  let p : Program := ⟨"p", ⟨[],
    [.assign ⟨"b", ⟨1, 18⟩⟩ ⟨1, 20⟩ (.literal (.whole 2) ⟨1, 23⟩),
     .assign ⟨"a", ⟨1, 26⟩⟩ ⟨1, 28⟩
      (.binary .div ⟨1, 33⟩ (.var ⟨"b", ⟨1, 31⟩⟩) (.literal (.whole 0) ⟨1, 37⟩))]⟩⟩
  let q : Program := ⟨"q", ⟨[], [.assign ⟨"a", ⟨1, 18⟩⟩ ⟨1, 20⟩ (.var ⟨"b", ⟨1, 23⟩⟩)]⟩⟩
  let marks : List Mark :=
    [⟨.reserved .program, ⟨1, 1⟩, ' '⟩, ⟨.name "p", ⟨1, 9⟩, ';'⟩,
     ⟨.punctuation .semicolon, ⟨1, 10⟩, ' '⟩, ⟨.reserved .beginBlock, ⟨1, 12⟩, ' '⟩,
     ⟨.name "b", ⟨1, 18⟩, ' '⟩, ⟨.punctuation .assign, ⟨1, 20⟩, ' '⟩,
     ⟨.literal (.whole 2), ⟨1, 23⟩, ';'⟩, ⟨.punctuation .semicolon, ⟨1, 24⟩, ' '⟩,
     ⟨.name "a", ⟨1, 26⟩, ' '⟩, ⟨.punctuation .assign, ⟨1, 28⟩, ' '⟩,
     ⟨.name "b", ⟨1, 31⟩, ' '⟩, ⟨.operator .div, ⟨1, 33⟩, ' '⟩,
     ⟨.literal (.whole 0), ⟨1, 37⟩, ' '⟩, ⟨.reserved .endBlock, ⟨1, 39⟩, '.'⟩,
     ⟨.punctuation .dot, ⟨1, 42⟩, none⟩]
  let marks' : List Mark :=
    [⟨.reserved .program, ⟨1, 1⟩, ' '⟩, ⟨.name "q", ⟨1, 9⟩, ';'⟩,
     ⟨.punctuation .semicolon, ⟨1, 10⟩, ' '⟩, ⟨.reserved .beginBlock, ⟨1, 12⟩, ' '⟩,
     ⟨.name "a", ⟨1, 18⟩, ' '⟩, ⟨.punctuation .assign, ⟨1, 20⟩, ' '⟩,
     ⟨.name "b", ⟨1, 23⟩, ' '⟩, ⟨.reserved .endBlock, ⟨1, 25⟩, '.'⟩,
     ⟨.punctuation .dot, ⟨1, 28⟩, none⟩]
  have reads : Edition.calls.lexis.Reads "PROGRAM p; BEGIN b := 2; a := b DIV 0 END." marks := by decide
  have reads' : Edition.calls.lexis.Reads "PROGRAM q; BEGIN a := b END." marks' := by decide
  have two : DerivesExpr .sum [marks[6]] (.literal (.whole 2) ⟨1, 23⟩) :=
    .product (.factor (.literal rfl))
  have quotient : DerivesExpr .sum [marks[10], marks[11], marks[12]] _ :=
    .product (.multiplied (.factor (.var rfl)) rfl (by decide) (.literal rfl))
  have derives : Edition.calls.grammar.Derives marks p :=
    .program rfl rfl rfl (.block .absent .nil
      (.compound rfl (.more (.assign rfl rfl two) rfl (.one (.assign rfl rfl quotient))) rfl)) rfl
  have derives' : Edition.calls.grammar.Derives marks' q :=
    .program rfl rfl rfl (.block .absent .nil
      (.compound rfl (.one (.assign rfl rfl (.product (.factor (.var rfl))))) rfl)) rfl
  obtain ⟨reading, yields⟩ := Grammar.attempt_of_derives Edition.full_calls reads derives
  obtain ⟨reading', yields'⟩ := Grammar.attempt_of_derives Edition.full_calls reads' derives'
  let first : Edition.calls.Source := ⟨_, p, reading, yields⟩
  let second : Edition.calls.Source := ⟨_, q, reading', yields'⟩
  let b : Assignment := ⟨⟨"b", ⟨1, 18⟩⟩, ⟨1, 20⟩, .literal (.whole 2) ⟨1, 23⟩⟩
  have before : Writes Edition.calls.evalRules .empty [b] [("b", .whole 2)] := .cons rfl .nil
  have executes : Executes Edition.calls.evalRules .empty p.assignments [("b", .whole 2)]
      (some (.arithmetic .wholeByZero)) := .failed before rfl
  have after : Writes Edition.calls.evalRules (OrderedMap.empty.setAll [("b", .whole 2)]) q.assignments
      [("a", .whole 2)] := .cons rfl .nil
  obtain ⟨fails, _, writes, only, left, _⟩ := run_executes .calls (Edition.calls.analysis? false) [] first
  obtain ⟨_, completes, writes', only', _, names, holds⟩ :=
    run_executes .calls (Edition.calls.analysis? false) [first] second
  cases (only _).mp (.cons executes .nil)
  cases (only' _).mp (.cons executes (.cons (.completed after) .nil))
  refine ⟨first, second, rfl, rfl, ?_, ?_, names, ?_⟩
  · exact (fails _).mpr ⟨[b], _, [], _, rfl, before, rfl⟩
  · exact completes.mpr ⟨_, left ▸ after⟩
  · exact (holds _ _).mpr ⟨[("b", .whole 2)], [], rfl, by simp⟩

end LittlePascal
