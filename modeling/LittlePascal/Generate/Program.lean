import LittlePascal.Token

/-! # Generated programs

A generated program declares whole variables `v0`, `v1`, … and two reals, with a procedure if that is
asked for. Its body gives the variables their values one after the other, each from the one before it,
and ends with a block of its own. -/

namespace LittlePascal.Generate

/-- What a program is generated from. -/
structure ProgramPlan where
  statements : Int
  /-- Whether a procedure is declared. -/
  procedure : Bool
  /-- Whether the procedure has parameters. -/
  parameters : Bool
  /-- Whether reserved words are written in capitals. -/
  capitals : Bool
  deriving DecidableEq, Repr

namespace ProgramPlan

/-- A program without a procedure, in capitals. -/
def plain (statements : Int) : ProgramPlan := ⟨statements, false, false, true⟩

/-- A program with a procedure that has no parameters, in capitals. -/
def withProcedure (statements : Int) : ProgramPlan := ⟨statements, true, false, true⟩

/-- A program with a procedure that has parameters, in capitals. -/
def withParameters (statements : Int) : ProgramPlan := ⟨statements, true, true, true⟩

/-- A spelling in the letters of the plan. -/
def letters (p : ProgramPlan) (spelling : String) : String :=
  if p.capitals then spelling else spelling.map Char.toLower

/-- A reserved word. -/
def word (p : ProgramPlan) (r : Reserved) : String := p.letters r.spelling

/-- The variable with a number. -/
def variableName (i : Nat) : String := "v" ++ i.repr

/-- The variables that are declared: there are always two. -/
def declaredNames (p : ProgramPlan) : List String :=
  (List.range (if p.statements < 2 then 2 else p.statements.toNat)).map variableName

/-- The declarations of the variables. -/
def declarationLines (p : ProgramPlan) : List String :=
  ["   " ++ p.word .var ++ " " ++ ", ".intercalate p.declaredNames ++ " : " ++
    p.word .integerType ++ ";",
   "   r1, r2 : " ++ p.word .realType ++ ";"]

/-- The first line of the procedure. -/
def procedureHeading (p : ProgramPlan) : String :=
  p.word .procedure ++ " P1" ++
    (if p.parameters then
      "(a, b : " ++ p.word .integerType ++ "; c : " ++ p.word .realType ++ ")"
    else "") ++ ";"

/-- The declaration of the procedure, if there is one. -/
def procedureLines (p : ProgramPlan) : List String :=
  if p.procedure then
    [p.procedureHeading,
     p.word .var ++ " q : " ++ p.word .integerType ++ ";",
     p.word .beginBlock,
     "   q := " ++ (if p.parameters then "a + b - c" else "1"),
     p.word .endBlock ++ ";"]
  else []

/-- The statement that gives the variable with a number its value. -/
def assignmentLine (p : ProgramPlan) (i : Nat) : String :=
  "   " ++ variableName i ++ " := +" ++ variableName (i - 1) ++ " - (-2) + " ++ i.repr ++ " * 2 " ++
    p.letters Operator.div.spelling ++ " 3 - 1.5 / 0.5;"

/-- The statements for the variables after the first one. -/
def assignmentLines (p : ProgramPlan) : List String :=
  (List.range (p.statements.toNat - 1)).map fun k => p.assignmentLine (k + 1)

/-- The lines of the program, up to the last `END`. -/
def lines (p : ProgramPlan) : List String :=
  ["\x7b generated \x7d", p.word .program ++ " Bench;"] ++ p.declarationLines ++ p.procedureLines ++
  [p.word .beginBlock, "   v0 := 10;", "   r1 := 3.14;"] ++ p.assignmentLines ++
  ["   " ++ p.word .beginBlock, "      r2 := r1 * 2.0", "   " ++ p.word .endBlock ++ ";"]

/-- The text of the program, with more statements at the end of its body. -/
def textWith (p : ProgramPlan) (statements : List String) : String :=
  String.join ((p.lines ++ statements ++ [p.word .endBlock ++ "."]).map (· ++ "\n"))

/-- The text of the program. -/
def text (p : ProgramPlan) : String := p.textWith []

end ProgramPlan

end LittlePascal.Generate
