import LittlePascal.Parse

/-! # Attempts at reading a text

An `Attempt` tells what became of reading a text by a rule: whether it could begin at all, how far it
got, and the result or the fault. -/

namespace LittlePascal

/-- What became of reading a text by a rule. -/
inductive Attempt (α : Type) where
  /-- Not even the first token could be read. -/
  | unopened (fault : Fault)
  /-- The rule failed, having come this far. -/
  | failed (fault : Fault) (reading : Reading)
  /-- The rule has a result. -/
  | done (result : α) (reading : Reading)

namespace Attempt

variable {α : Type}

/-- The result or the fault. -/
def result : Attempt α → Except Fault α
  | .unopened fault => .error fault
  | .failed fault _ => .error fault
  | .done a _ => .ok a

/-- How far the reading got, if it began. -/
def reading? : Attempt α → Option Reading
  | .unopened _ => none
  | .failed _ reading => some reading
  | .done _ reading => some reading

end Attempt

/-- A text is read by a rule. -/
def Lexis.attempt {α : Type} (lx : Lexis) (rule : Parse α) (text : String) : Attempt α :=
  match lx.openReading text with
  | .error fault => .unopened fault
  | .ok reading =>
    match rule reading with
    | .error fault reading => .failed fault reading
    | .ok a reading => .done a reading

end LittlePascal
