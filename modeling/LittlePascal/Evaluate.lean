import LittlePascal.Fault
import LittlePascal.OrderedMap
import LittlePascal.Tree

/-! # Running trees

Expressions have a value in a memory; statements change the memory. Declarations and calls do
nothing when a program runs. A run that fails leaves the memory as the last completed assignment
made it. How deep the stack of a machine may grow is left out: no tree is too deep to be evaluated.

These are the visits of the `Interpreter` in parts 7 to 16 of the series; the memory is its
`GLOBAL_SCOPE`, later `GLOBAL_MEMORY`. -/

namespace LittlePascal

/-- The values of variables, in order of first assignment. -/
abbrev Memory := OrderedMap Value

/-- What an edition decides about values. -/
structure EvalRules where
  /-- Whether the slash divides whole numbers and rounds down; otherwise it divides doubles. -/
  slashFloors : Bool
  /-- Whether reading a variable that has no value is a fault; otherwise the value is missing. -/
  strict : Bool
  deriving DecidableEq, Repr

namespace Expr

/-- The operation of an operator. -/
def operation (rules : EvalRules) : Operator → Operation
  | .plus => .add
  | .minus => .subtract
  | .times => .multiply
  | .div => .floorDivide
  | .slash => if rules.slashFloors then .floorDivide else .divide

/-- The value of a variable. -/
def readVariable (rules : EvalRules) (m : Memory) (name : String) : Except Fault Value :=
  match m.get? name with
  | some (.whole n) => .ok (.whole n)
  | some (.real x) => .ok (.real x)
  | _ => if rules.strict then .error (.unbound name) else .ok .missing

/-- Two operands combined, the left one computed first. Division of doubles brings the left operand
to a double before the right one is computed. -/
def combine (operation : Operation) (left right : Except Fault Value) : Except Fault Value :=
  match operation with
  | .divide => do
    let x ← liftArithmetic (← left).toReal
    let y ← liftArithmetic (← right).toReal
    liftArithmetic (Value.divideReals x y)
  | _ => do
    let l ← left
    let r ← right
    liftArithmetic (l.apply operation r)

/-- The value of an expression in a memory. -/
def eval (rules : EvalRules) (m : Memory) : Expr → Except Fault Value
  | .literal l _ => .ok l.value
  | .var id => readVariable rules m id.name
  | .signed sign _ operand => do
    liftArithmetic ((← operand.eval rules m).applySign sign)
  | .binary operator _ left right =>
    combine (operation rules operator) (left.eval rules m) (right.eval rules m)
  | .hole => .error (.unhandled Expr.hole.className)

end Expr

/-- Running changes a memory and may fail. -/
abbrev Run := EStateM Fault Memory

namespace Stmt

mutual

/-- Running a statement. -/
def run (rules : EvalRules) : Stmt → Run Unit
  | .compound children => runAll rules children
  | .assign target _ value => do
    let result ← MonadExcept.ofExcept (value.eval rules (← get))
    modify fun m => m.set target.name result
  | .call _ _ => pure ()
  | .empty => pure ()

/-- Running statements in order. -/
def runAll (rules : EvalRules) : List Stmt → Run Unit
  | [] => pure ()
  | statement :: rest => do
    statement.run rules
    runAll rules rest

end

end Stmt

namespace Node

/-- Running any node. Only expressions have a value. -/
def run (rules : EvalRules) : Node → Run Value
  | .expr e => do MonadExcept.ofExcept (e.eval rules (← get))
  | .stmt s => do s.run rules; return .missing
  | .type _ => return .missing
  | .parameter binding => throw (.unhandled (Node.parameter binding).className)
  | .decl _ => return .missing
  | .block b => do Stmt.runAll rules b.body; return .missing
  | .program p => do Stmt.runAll rules p.block.body; return .missing

end Node

/-- Running a fragment: a list of nodes cannot be run. -/
def Fragment.run (rules : EvalRules) : Fragment → Run Value
  | .node n => n.run rules
  | .list nodes => throw (.unhandled (Fragment.list nodes).className)

end LittlePascal
