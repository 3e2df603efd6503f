import LittlePascal.Session
import LittlePascal.Proofs.Recognition

/-! # Sessions over programs

A session goes through texts one after the other. Here the texts are those that yield a program, and a
step of the session comes down to what is done with that program.

Main definitions: `Edition.Source`, a text with the program that it yields; `Session.afterAll`, the session
after a list of texts.

Main statements:
* `Edition.exists_source`: in an edition with declarations every text that yields a tree is a source;
* `Session.step_source`: a step comes down to its program. -/

namespace LittlePascal

/-- A text of an edition with the program that it yields. -/
structure Edition.Source (e : Edition) where
  text : String
  program : Program
  reading : Reading
  yields : e.lexis.attempt e.grammar.parse text = .done (.program program) reading

/-- Whatever is asked behind a whole text, its tree is returned as it is. -/
theorem Grammar.whole_of_parse {g : Grammar} {r s : Reading} {tree : Node} (h : g.parse r = .ok tree s) :
    ∃ t, g.whole r = .ok tree t := by
  rw [parse] at h
  obtain ⟨node, t, whole, h⟩ := Work.bind_eq_ok.mp h
  obtain ⟨_, _, _, h⟩ := Work.bind_eq_ok.mp h
  split at h
  · obtain ⟨_, _, rejected, _⟩ := Work.bind_eq_ok.mp h
    cases rejected
  · cases h
    exact ⟨t, whole⟩

/-- In a grammar with headers a whole text is a program. -/
theorem Grammar.exists_program_of_parse {g : Grammar} (holes : g.holes = false)
    (header : g.header = true) {r s : Reading} {tree : Node} (h : g.parse r = .ok tree s) :
    ∃ p, tree = .program p := by
  obtain ⟨_, h⟩ := whole_of_parse h
  rw [whole_headed holes header] at h
  obtain ⟨p, _, _, h⟩ := Work.bind_eq_ok.mp h
  cases h
  exact ⟨p, rfl⟩

/-- In a grammar without headers a whole text is a statement. -/
theorem Grammar.exists_stmt_of_parse {g : Grammar} (holes : g.holes = false) (header : g.header = false)
    {r s : Reading} {tree : Node} (h : g.parse r = .ok tree s) : ∃ s, tree = .stmt s := by
  obtain ⟨_, h⟩ := whole_of_parse h
  rw [whole_bare holes header] at h
  obtain ⟨s, _, _, h⟩ := Work.bind_eq_ok.mp h
  cases h
  exact ⟨s, rfl⟩

/-- In an edition with declarations every text that yields a tree is a source. -/
theorem Edition.exists_source {e : Edition} (declarations : e.hasDeclarations = true) {text : String}
    {tree : Node} {reading : Reading}
    (h : e.lexis.attempt e.grammar.parse text = .done tree reading) :
    ∃ source : e.Source, source.text = text ∧ tree = .program source.program := by
  obtain ⟨r, _, read⟩ := Lexis.attempt_eq_done.mp h
  have statements : e.hasStatements = true := (Bool.and_eq_true_iff.mp declarations).1
  obtain ⟨p, rfl⟩ := Grammar.exists_program_of_parse (by simp [grammar, statements])
    (by simpa [grammar] using declarations) read
  exact ⟨⟨text, p, reading, h⟩, rfl, rfl⟩

/-- The outcome of a step that ends with this fault, if any. -/
def Fault.outcome : Option Fault → Except Fault (Option Value)
  | none => .ok (some .missing)
  | some fault => .error fault

/-- Outcomes tell the faults. -/
theorem Fault.outcome_inj {first second : Option Fault} :
    Fault.outcome first = Fault.outcome second ↔ first = second := by
  cases first <;> cases second <;> simp [Fault.outcome]

namespace StepOutcome

/-- The fault with which a step of a session has failed. -/
def fault? (outcome : StepOutcome) : Option Fault :=
  match outcome.result with
  | .ok _ => none
  | .error fault => some fault

/-- A step has a fault exactly if it fails with it. -/
theorem fault?_eq_some {outcome : StepOutcome} {fault : Fault} :
    outcome.fault? = some fault ↔ outcome.result = .error fault := by
  unfold fault?
  split <;> simp_all

end StepOutcome

namespace Session

variable {e : Edition} {analysis? : Option Analysis} {purpose : Purpose} {s : Session}

/-- The session after texts that were all taken for one purpose, one after the other. -/
def afterAll (e : Edition) (analysis? : Option Analysis) (purpose : Purpose) (texts : List String)
    (s : Session) : Session :=
  texts.foldl (fun s text => (s.step e analysis? purpose (some text)).session) s

/-- A source is read, so a step comes down to its program. -/
theorem step_source (source : e.Source) :
    s.step e analysis? purpose (some source.text) =
      ⟨(s.perform e analysis? purpose (.program source.program)).1, some source.reading,
        (s.perform e analysis? purpose (.program source.program)).2⟩ := by
  rw [step, source.yields]

end Session

end LittlePascal
