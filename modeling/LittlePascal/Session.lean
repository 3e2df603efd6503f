import LittlePascal.Attempt
import LittlePascal.Edition

/-! # Sessions

A session runs and analyses any number of texts one after the other. What one text leaves behind is
there for the next: the values of variables, and what the analysis has found, the scopes included that
a failed analysis did not close. -/

namespace LittlePascal

/-- What the texts of a session have left behind. -/
structure Session where
  memory : Memory
  /-- The findings of the analysis, if there is one. -/
  survey? : Option Survey

/-- What is done with a text. -/
inductive Purpose where
  | run
  | analyse
  deriving DecidableEq, Repr

/-- What became of one step of a session. -/
structure StepOutcome where
  /-- The result; absent if there was nothing to run. -/
  result : Except Fault (Option Value)
  /-- How far the reading of the text got, if it began. -/
  reading? : Option Reading
  session : Session

namespace Session

/-- The session before the first text. -/
def initial (analysis? : Option Analysis) : Session := ⟨.empty, analysis?.map Analysis.initial⟩

/-- The lines written by the analysis. -/
def log (s : Session) : Array String := (s.survey?.map Survey.log).getD #[]

/-- The session with no lines written yet. -/
def withoutLog (s : Session) : Session := { s with survey? := s.survey?.map Survey.withoutLog }

/-- A tree is run in a session. -/
def run (rules : EvalRules) (tree : Node) (s : Session) : Except Fault (Option Value) × Session :=
  match tree.run rules s.memory with
  | .ok value memory => (.ok (some value), { s with memory })
  | .error fault memory => (.error fault, { s with memory })

/-- A tree is analysed in a session. -/
def analyse (a : Analysis) (tree : Node) (s : Session) : Except Fault (Option Value) × Session :=
  match a.node tree (s.survey?.getD a.initial) with
  | .ok _ survey => (.ok (some .missing), { s with survey? := some survey })
  | .error fault survey => (.error fault, { s with survey? := some survey })

/-- A tree is run or analysed in a session. An edition without an analysis finds nothing. -/
def perform (e : Edition) (analysis? : Option Analysis) (purpose : Purpose) (tree : Node) (s : Session) :
    Except Fault (Option Value) × Session :=
  match purpose, analysis? with
  | .run, _ => s.run e.evalRules tree
  | .analyse, some a => s.analyse a tree
  | .analyse, none => (.ok none, s)

/-- One step of a session: a text is read, and what was read is run or analysed. Without a text there
is nothing to do. -/
def step (e : Edition) (analysis? : Option Analysis) (purpose : Purpose) (text? : Option String)
    (s : Session) : StepOutcome :=
  match text? with
  | none => ⟨.ok none, none, s⟩
  | some text =>
    match e.lexis.attempt e.grammar.parse text with
    | .unopened fault => ⟨.error fault, none, s⟩
    | .failed fault reading => ⟨.error fault, some reading, s⟩
    | .done tree reading =>
      let (result, after) := s.perform e analysis? purpose tree
      ⟨result, some reading, after⟩

end Session

end LittlePascal
