import LittlePascal.Command.Execute

/-! # Two demonstrations of faulty programs

Each demonstration analyses a program that is wrong, tells the fault and shows the table of names as
it stood by then. -/

namespace LittlePascal

/-- A program with its analysis. -/
structure Demonstration where
  analysis : Analysis
  text : String

namespace Demonstration

/-- A variable that is not declared. -/
def undeclared : Demonstration where
  analysis := .flat false
  text := "\nPROGRAM error1;\n    VAR x : integer;\n\nBEGIN\n    x := y;\nEND.\n"

/-- A variable that is declared twice. -/
def duplicate : Demonstration where
  analysis := .flat true
  text := "\nprogram SymTab6;\n   var x, y : integer;\n   var y : real;\nbegin\n   x := x + y;\nend.\n"

/-- The command that demonstrates a fault. -/
def run (d : Demonstration) : Console Unit := Edition.checks.inspect d.analysis d.text

end Demonstration

end LittlePascal
