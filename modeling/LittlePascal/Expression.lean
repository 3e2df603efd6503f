import LittlePascal.Edition
import LittlePascal.Evaluate.Traced

/-! # Evaluating expressions

The editions without statements evaluate one expression. `Edition.evaluate` does so for any of them,
whether it evaluates while reading or by way of a tree, and tells how far the reading got. -/

namespace LittlePascal

/-- The outcome of evaluating a text. -/
structure Evaluation where
  result : Except Fault Value
  /-- The current token at the end; absent if none was read. -/
  token : Option Token
  /-- The number of characters passed. -/
  pos : Nat
  /-- The lines written on the way. -/
  trace : Array String

namespace Evaluation

/-- The outcome of a rule that reads on demand. -/
def ofPending : EStateM.Result Fault PendingReading Value → Evaluation
  | .ok value pending => ⟨.ok value, pending.token, pending.cursor.pos, #[]⟩
  | .error fault pending => ⟨.error fault, pending.token, pending.cursor.pos, #[]⟩

/-- The outcome of a rule. -/
def ofReading : EStateM.Result Fault Reading Value → Evaluation
  | .ok value reading => ⟨.ok value, some reading.token, reading.cursor.pos, #[]⟩
  | .error fault reading => ⟨.error fault, some reading.token, reading.cursor.pos, #[]⟩

end Evaluation

namespace Edition

/-- The value of a tree, and the lines written on the way. Only the first edition with trees writes
any, and only its evaluation depends on how many digits may be written. -/
def evaluateTree (e : Edition) (tree : Expr) (limit : DigitLimit := .off) :
    Except Fault Value × Array String :=
  if e = .trees then
    match tree.evalTraced e.evalRules limit #[] with
    | .ok value trace => (.ok value, trace)
    | .error fault trace => (.error fault, trace)
  else (tree.eval e.evalRules .empty, #[])

/-- The outcome of reading a tree and evaluating it. -/
def evaluateByTree (e : Edition) (reading : Reading) (limit : DigitLimit := .off) : Evaluation :=
  match (e.grammar limit).expr reading with
  | .ok tree reading =>
    let (result, trace) := e.evaluateTree tree limit
    ⟨result, some reading.token, reading.cursor.pos, trace⟩
  | .error fault reading => ⟨.error fault, some reading.token, reading.cursor.pos, #[]⟩

/-- The outcome of evaluating a text; a fault if reading cannot even begin. -/
def evaluate (e : Edition) (text : String) (limit : DigitLimit := .off) : Except Fault Evaluation := do
  let lx := e.lexis limit
  match e.calculator? limit with
  | some expression =>
    if e.readsOnDemand then
      let cursor ← lx.openText text
      return .ofPending (PendingReading.expression lx expression ⟨none, cursor⟩)
    else
      return .ofReading (expression (← lx.openReading text))
  | none => return e.evaluateByTree (← lx.openReading text) limit

end Edition

end LittlePascal
