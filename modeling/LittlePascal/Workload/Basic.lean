import LittlePascal.Evaluate

/-! # Workloads

A workload is a job of adjustable size that leads one edition, or all of them, through its whole
work, and reports what came of it: a sum, the lengths of texts, the variables at the end. -/

namespace LittlePascal

/-- One thing that a workload reports. -/
inductive Measure where
  | value (v : Value)
  | text (s : String)
  /-- Variables with their values. -/
  | memory (items : List (String × Value))

/-- What a workload reports. -/
inductive WorkloadResult where
  | single (m : Measure)
  | several (ms : List Measure)

/-- The memories that outlive a run: those of the two editions whose runs share one memory. -/
structure SharedMemory where
  statements : Memory
  declarations : Memory

/-- The memories before the first run. -/
def SharedMemory.initial : SharedMemory := ⟨.empty, .empty⟩

/-- Work on the shared memories. -/
abbrev Work := EStateM Fault SharedMemory

namespace Measure

/-- The length of a text. -/
def length (s : String) : Measure := .value (.whole s.length)

end Measure

namespace Work

/-- The result of a calculation. -/
def ofExcept {α : Type} : Except Fault α → Work α
  | .ok a => pure a
  | .error fault => throw fault

/-- The sum of two values. -/
def add (a b : Value) : Work Value := ofExcept (liftArithmetic (a.apply .add b))

/-- A value that grows by a whole number. -/
def addWhole (a : Value) (n : Nat) : Work Value := add a (.whole n)

end Work

/-- A job of adjustable size. -/
structure Workload where
  name : String
  /-- What the size is the number of. -/
  parameter : String
  /-- The size if none is given. -/
  standard : Nat
  /-- Sizes worth comparing. -/
  sizes : List Nat
  /-- The job of a size. A size below zero is allowed: there is nothing to count then. -/
  run : Int → Work WorkloadResult

namespace Workload

/-- The positions below a size: none if it is negative. -/
def positions (size : Int) : List Nat := List.range size.toNat

/-- A workload for each of the given sizes in turn, until one fails. These are the results so far and
the fault, if there is one. -/
def runAll (w : Workload) : List (Option Int) → SharedMemory → List WorkloadResult × Option Fault
  | [], _ => ([], none)
  | size :: rest, shared =>
    match w.run (size.getD (w.standard : Int)) shared with
    | .error fault _ => ([], some fault)
    | .ok result shared =>
      let (results, fault?) := w.runAll rest shared
      (result :: results, fault?)

end Workload

end LittlePascal
