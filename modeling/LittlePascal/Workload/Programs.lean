import LittlePascal.Command.Demonstrate
import LittlePascal.Generate.Program
import LittlePascal.Workload.Expressions

/-! # Workloads on programs

Each edition with statements reads, checks, draws and runs programs of its own kind. The results are
lengths of diagrams and tables and the variables at the end of the run. -/

namespace LittlePascal.Workload

open Generate

/-! ## Steps -/

/-- The tree of a text. -/
def treeOf (e : Edition) (text : String) : Except Fault Node :=
  (e.lexis.attempt e.grammar.parse text).result

/-- The length of a diagram, as a measure. -/
def diagram (e : Edition) (text : String) : Except Fault Measure := do
  return .value (.whole (← diagramLength e text))

/-- What an analysis finds in a text. -/
def surveyOf (e : Edition) (a : Analysis) (text : String) : Except Fault Survey := do
  match a.node (← treeOf e text) a.initial with
  | .ok _ survey => return survey
  | .error fault _ => throw fault

/-- The length of the tables that an analysis finds in a text. -/
def tables (e : Edition) (a : Analysis) (text : String) : Except Fault Measure := do
  return .length (String.join (a.tableTexts (← surveyOf e a text)))

/-- The memory after a run of a text from a given memory on. -/
def memoryAfter (e : Edition) (m : Memory) (text : String) : Except Fault Memory := do
  match (← treeOf e text).run e.evalRules m with
  | .ok _ memory => return memory
  | .error fault _ => throw fault

/-- The variables of a memory, sorted by name. -/
def variablesOf (m : Memory) : Measure := .memory m.sortedItems

/-- The variables after a run of a text from an empty memory on. -/
def variablesAfter (e : Edition) (text : String) : Except Fault Measure := do
  return variablesOf (← memoryAfter e .empty text)

/-- The analysis of a text finds no fault. -/
def checked (e : Edition) (text : String) : Except Fault Unit := do
  match e.analysis? false with
  | some a => let _ ← surveyOf e a text
  | none => pure ()

/-- A workload whose size is the number of statements. -/
def onStatements (name : String) (standard : Nat) (sizes : List Nat)
    (run : Int → Work (List Measure)) : Workload where
  name := name
  parameter := "n_stmts"
  standard := standard
  sizes := sizes
  run n := do return .several (← run n)

/-- A workload of this kind that leaves nothing behind. -/
def onStatementsAlone (name : String) (standard : Nat) (sizes : List Nat)
    (run : Int → Except Fault (List Measure)) : Workload :=
  onStatements name standard sizes fun n => Work.ofExcept (run n)

/-! ## Statements and declarations -/

/-- A variable that is given the multiple of another one. -/
def multiple (other : String) (i : Nat) : String :=
  "   x" ++ i.repr ++ " := a + " ++ other ++ " * " ++ (i + 1).repr ++ " - 4 / a;\n"

/-- The multiples of a variable. -/
def multiples (other : String) (n : Int) : String :=
  String.join ((positions n).map (multiple other))

/-- A program of statements with a block at its end. -/
def compoundText (n : Int) : String :=
  "BEGIN\n   a := 2;\n   b := (10 + a * 3) / 2;\n" ++ multiples "b" n ++
    "   BEGIN\n      c := - - b + a\n   END;\nEND.\n"

/-- Statements; the memory outlives the run. -/
def compound : Workload := onStatements "compound" 80 [20, 80, 300] fun n => do
  let e := Edition.statements
  let memory ← Work.ofExcept (memoryAfter e (← get).statements (compoundText n))
  modify fun shared => { shared with statements := memory }
  return [← Work.ofExcept (diagram e (compoundText n)), variablesOf memory]

/-- A whole program; the memory outlives the run. -/
def program : Workload := onStatements "program" 60 [15, 60, 240] fun n => do
  let e := Edition.declarations
  let text := (ProgramPlan.plain n).text
  let memory ← Work.ofExcept (memoryAfter e (← get).declarations text)
  modify fun shared => { shared with declarations := memory }
  return [← Work.ofExcept (diagram e text), variablesOf memory]

/-! ## Tables of names -/

/-- A program and its table. -/
def symbols : Workload := onStatementsAlone "symtab" 40 [10, 40, 160] fun n => do
  let e := Edition.symbols
  let text := (ProgramPlan.plain n).text
  return [← tables e .declared text, ← variablesAfter e text]

/-- A program with a procedure, and its table. -/
def procedures : Workload := onStatementsAlone "procedures" 40 [10, 40, 160] fun n => do
  let e := Edition.procedures
  let text := (ProgramPlan.withProcedure n).text
  return [← tables e .declared text, ← diagram e text, ← variablesAfter e text]

/-- A program without numbers whose variables all have a use. With no variable at all it is not
well-formed. -/
def declarationsText (n : Int) : String :=
  let names := (positions (n + 1)).map ProgramPlan.variableName
  "program Checks;\n   var " ++ ", ".intercalate names ++ " : integer;\nbegin\n" ++
    String.join (names.map fun name => "   " ++ name ++ " := v0;\n") ++ "end.\n"

/-- The tables of the three analyses without scopes. -/
def checks : Workload := onStatementsAlone "semantic" 40 [10, 40, 160] fun n => do
  let e := Edition.checks
  let text := declarationsText n
  let tables ← [Analysis.flat true, Demonstration.undeclared.analysis,
    Demonstration.duplicate.analysis].mapM fun a => tables e a text
  return tables ++ [← variablesAfter e (ProgramPlan.withProcedure n).text]

/-! ## Scopes -/

/-- A scope with the built-in types and one variable. -/
def sampleScope (name : String) : Scope :=
  (Symbol.builtins.foldl Scope.insert (.opened name 1)).insert (.var "x" (some (.builtin "INTEGER")))

/-- The length of a scope as text. -/
def scopeLength (name : String) : Nat := ((sampleScope name).text none).length

/-- Procedures with parameters, and a scope. The analysis of this edition has no rule for numbers, so
what it checks is the program that has none. -/
def scopes : Workload := onStatementsAlone "scopes" 40 [10, 40, 160] fun n => do
  let e := Edition.scopes
  let text := (ProgramPlan.withParameters n).text
  checked e (declarationsText n)
  let shown := scopeLength "global" + ((Symbol.builtin "REAL").entryText .full).length
  return [← diagram e text, .value (.whole shown), ← variablesAfter e text]

/-- The length of the message about a text that the analysis refuses. -/
def refusalLength (e : Edition) (text : String) : Nat :=
  match checked e text with
  | .ok _ => 0
  | .error fault => (e.message fault).length

/-- The lengths of a scope and of the messages about two faulty programs. -/
def scopeAndMessages (e : Edition) : List Measure :=
  let undeclared := refusalLength e "PROGRAM Demo; VAR num : INTEGER; BEGIN num := sum END."
  let duplicate := refusalLength e "PROGRAM Demo; VAR num : INTEGER; num : REAL; BEGIN END."
  [.value (.whole (scopeLength "main")), .value (.whole (undeclared + duplicate : Nat))]

/-- Programs and messages with places. -/
def places : Workload := onStatementsAlone "full" 50 [12, 50, 200] fun n => do
  let e := Edition.places
  let text := (ProgramPlan.withParameters n).text
  checked e text
  return scopeAndMessages e ++ [← variablesAfter e text]

/-- Programs with a procedure call. -/
def calls : Workload := onStatementsAlone "proccall" 50 [12, 50, 200] fun n => do
  let e := Edition.calls
  let text := (ProgramPlan.withParameters n).textWith ["   P1(-1, v0 - 1.5);"]
  checked e text
  return [← diagram e text] ++ scopeAndMessages e ++ [← variablesAfter e text]

end LittlePascal.Workload
