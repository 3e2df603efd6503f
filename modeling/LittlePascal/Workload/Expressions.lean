import LittlePascal.Command.Illustrate
import LittlePascal.Expression
import LittlePascal.Generate.Chain
import LittlePascal.Workload.Basic

/-! # Workloads on expressions

Each edition without statements evaluates expressions of its own kind. Added to their values are the
length of a token as text and the number of texts that the edition refuses. -/

namespace LittlePascal

namespace Edition

/-- The value of an expression in this edition, and the outcome it came from. -/
def evaluated (e : Edition) (text : String) : Except Fault (Value × Evaluation) := do
  let evaluation ← e.evaluate text
  return (← evaluation.result, evaluation)

/-- Whether this edition has no value for a text. -/
def refuses (e : Edition) (text : String) : Bool :=
  match e.evaluated text with
  | .ok _ => false
  | .error _ => true

/-- How many texts this edition has no value for. -/
def refusals (e : Edition) (texts : List String) : Nat := (texts.filter e.refuses).length

/-- The length of a lexeme as the text of a token. -/
def lexemeLength (e : Edition) (l : Lexeme) : Nat :=
  ((Token.lexeme l ⟨1, 1⟩).text e.naming).length

end Edition

namespace Workload

/-- The sum over texts of their values, each with an addition of its own. -/
def sum (e : Edition) (addition : String → Evaluation → Except Fault Nat) (texts : List String) :
    Work Value :=
  texts.foldlM (fun total text => do
    let (value, evaluation) ← Work.ofExcept (e.evaluated text)
    let n ← Work.ofExcept (addition text evaluation)
    Work.addWhole (← Work.add total value) n) (.whole 0)

/-- No addition. -/
def noAddition (_ : String) (_ : Evaluation) : Except Fault Nat := .ok 0

/-- A sum as a result, with the length of a token and the number of refused texts added. -/
def concluded (e : Edition) (sample : Lexeme) (faulty : List String) (total : Value) :
    Work WorkloadResult := do
  let total ← Work.addWhole total (e.lexemeLength sample)
  return .single (.value (← Work.addWhole total (e.refusals faulty)))

/-- The text of a chain of the given operators. -/
def chainText (operators : List Char) (base n : Int) : String :=
  match (Generate.Chain.mk n operators base).text with
  | .ok text => text
  | .error fault => fault.message

/-! ## Sums of two numbers -/

/-- The sum of two digits. -/
def digitSum (i : Nat) : String := (i % 9 + 1).repr ++ "+" ++ (3 * i % 9 + 1).repr

/-- The length of the current token as text. -/
def currentTokenLength (e : Edition) (_ : String) (evaluation : Evaluation) : Except Fault Nat :=
  .ok ((evaluation.token.map fun t => (t.text e.naming).length).getD 0)

/-- Sums of two digits, each with the length of the token behind it. -/
def singleDigit : Workload where
  name := "single_digit"
  parameter := "n_exprs"
  standard := 600
  sizes := [150, 600, 2400]
  run n := do
    let e := Edition.digits
    let total ← sum e (currentTokenLength e) ((positions n).map digitSum)
    return .single (.value (← Work.addWhole total (e.refusals ["3+", "a+1"])))

/-- The sum, or in every other place the difference, of two numbers. The first one grows without end,
the second one starts again after every fifty. -/
def pair (i : Nat) : String :=
  (i + 10).repr ++ (if i % 2 = 0 then " + " else " - ") ++ (i % 50 + 3).repr

/-- Sums and differences of two numbers. -/
def pairs : Workload where
  name := "addsub"
  parameter := "n_exprs"
  standard := 500
  sizes := [120, 500, 2000]
  run n := do
    let e := Edition.pairs
    concluded e (.operator .minus) ["3 +", "3 $ 4"]
      (← sum e noAddition ((positions n).map pair))

/-! ## Chains -/

/-- A workload on a chain. -/
def onChain (e : Edition) (name : String) (operators : List Char) (base : Int) (sample : Operator) :
    Workload where
  name := name
  parameter := "n_terms"
  standard := 400
  sizes := [100, 400, 1600]
  run n := do
    concluded e (.operator sample) ["3 +", "3 $ 4"]
      (← sum e noAddition [chainText operators base n])

/-- A chain of sums and differences. -/
def chain : Workload := onChain .chains "chain" ['+', '-'] 2 .plus

/-- A chain of the four operators. -/
def arithmetic : Workload := onChain .flat "arithmetic" Generate.Chain.fourOperators 2 .times

/-- A chain with products between the sums. -/
def precedence : Workload :=
  onChain .products "precedence" ['+', '*', '-', '*', '+', '/'] 3 .slash

/-! ## Groups, trees and signs -/

/-- Half of a sum in parentheses. -/
def group (i : Nat) : String :=
  "(" ++ (i + 1).repr ++ " + " ++ (i + 2).repr ++ " * " ++ (i % 5 + 1).repr ++ ") / 2"

/-- Groups subtracted from one another, and a product at the end. -/
def groups (n : Int) : String :=
  " - ".intercalate ((positions n).map group) ++ " + (3 + 4) * 2"

/-- An expression with many parentheses. -/
def parentheses : Workload where
  name := "parentheses"
  parameter := "n_groups"
  standard := 150
  sizes := [40, 150, 600]
  run n := do
    let e := Edition.parentheses
    concluded e (.punctuation .leftParen) ["(3 + 4", "3 $ 4"] (← sum e noAddition [groups n])

/-- An expression with all four operators. -/
def treeText (i : Nat) : String :=
  "(" ++ (i + 1).repr ++ " + " ++ (i + 2).repr ++ ") * " ++ (i % 3 + 1).repr ++ " - " ++
    (i + 4).repr ++ " / " ++ (i % 4 + 1).repr

/-- The length of the diagram of a text. -/
def diagramLength (e : Edition) (text : String) : Except Fault Nat := do
  let tree ← (e.lexis.attempt e.grammar.parse text).result
  match e.draw (.node tree) .blank with
  | .ok _ drawing => return drawing.text.length
  | .error fault _ => throw fault

/-- Expressions that are evaluated and drawn. -/
def trees : Workload where
  name := "ast"
  parameter := "n_exprs"
  standard := 30
  sizes := [8, 30, 120]
  run n := do
    let e := Edition.trees
    concluded e (.operator .minus) ["(3 + 4", "3 $ 4"]
      (← sum e (fun text _ => diagramLength e text) ((positions n).map treeText))

/-- A product with a sign. -/
def signedProduct (i : Nat) : String :=
  (if i % 2 = 0 then "+" else "-") ++ (i % 6 + 1).repr ++ " * " ++ (i % 5 + 2).repr

/-- The sum of products with signs, less a number that has signs of its own. With no product before
it the first of these signs is a sign as well, so the text is an expression at every size. -/
def signedSum (n : Int) : String :=
  " + ".intercalate ((positions n).map signedProduct) ++ " - - - 4"

/-- An expression with many signs. -/
def signs : Workload where
  name := "unary"
  parameter := "n_terms"
  standard := 300
  sizes := [80, 300, 1200]
  run n := do
    let e := Edition.signs
    concluded e (.operator .minus) ["(3 + 4", "3 $ 4"] (← sum e noAddition [signedSum n])

end Workload

end LittlePascal
