import LittlePascal.Command.Demonstrate
import LittlePascal.Workload.Programs

/-! # The workload on commands

Every command is given a program of its own kind. The results are the lengths of all that was written
by then, after each command, and some symbols as text. -/

namespace LittlePascal.Workload

open Generate

/-- A command that is carried out and must not stop early. -/
def carriedOut {α : Type} (command : Console α) : Work (α × Nat) :=
  match command "" with
  | .ok a output => return (a, output.length)
  | .error (.fault (.program fault)) _ => throw fault
  | .error _ _ => throw .exhausted

/-- A program of statements. -/
def statementsText (n : Int) : String := "BEGIN\n   a := 2;\n" ++ multiples "a" n ++ "END.\n"

/-- The program that an edition is given. -/
def textFor (n : Int) : Edition → String
  | .statements => statementsText n
  | .declarations | .symbols => (ProgramPlan.plain n).text
  | .procedures | .checks => (ProgramPlan.withProcedure n).text
  | .scopes | .places | .calls => (ProgramPlan.withParameters n).text
  | _ => "(1 + 2) * 3 - 8 / 4"

/-- The length of what an edition writes when it runs its program. The two editions with a shared
memory go on with it. -/
def executed (n : Int) (e : Edition) : Work Nat := do
  let shared ← get
  let memory := match e with
    | .statements => shared.statements
    | .declarations => shared.declarations
    | _ => .empty
  let (memory, length) ← carriedOut (e.execute false memory (textFor n e))
  match e with
  | .statements => modify fun shared => { shared with statements := memory }
  | .declarations => modify fun shared => { shared with declarations := memory }
  | _ => pure ()
  return length

/-- The length of what an edition writes when it draws its program. -/
def illustrated (n : Int) (e : Edition) : Work Nat := do
  return (← carriedOut (e.illustrate (textFor n e))).2

/-- Lengths added up one after the other. -/
def runningTotals : Nat → List Nat → List Nat
  | _, [] => []
  | total, length :: rest => (total + length) :: runningTotals (total + length) rest

/-- Some symbols as text. -/
def symbolTexts : List String :=
  let x := Symbol.var "x" (some (.builtin "INTEGER"))
  [x.text .full, (Symbol.builtin "REAL").text .full, (Symbol.procedure "p" [x]).text .full, "E"]

/-- All commands. -/
def commands : Workload := onStatements "entrypoints" 60 [15, 60, 200] fun n => do
  let executions ← [Edition.statements, .declarations, .symbols, .procedures, .checks, .scopes,
    .places, .calls].mapM (executed n)
  let illustrations ← [Edition.trees, .statements, .declarations, .procedures, .scopes,
    .calls].mapM (illustrated n)
  return (runningTotals 0 (executions ++ illustrations)).map (fun length => .value (.whole length)) ++
    (symbolTexts ++ symbolTexts).map .text

end LittlePascal.Workload

namespace LittlePascal.Edition

/-- The workload on an edition. -/
def workload : Edition → Workload
  | .digits => Workload.singleDigit
  | .pairs => Workload.pairs
  | .chains => Workload.chain
  | .flat => Workload.arithmetic
  | .products => Workload.precedence
  | .parentheses => Workload.parentheses
  | .trees => Workload.trees
  | .signs => Workload.signs
  | .statements => Workload.compound
  | .declarations => Workload.program
  | .symbols => Workload.symbols
  | .procedures => Workload.procedures
  | .checks => Workload.checks
  | .scopes => Workload.scopes
  | .places => Workload.places
  | .calls => Workload.calls

end LittlePascal.Edition
