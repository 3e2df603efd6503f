import LittlePascal.Value

/-! # Generated chains

A chain is an expression of any number of terms joined by operators. The terms count up from a base
and start again after seven of them; the operators are taken in turn. -/

namespace LittlePascal.Generate

/-- What a chain is generated from. -/
structure Chain where
  terms : Int
  operators : List Char
  base : Int
  deriving DecidableEq, Repr

/-- Why a chain cannot be generated. -/
inductive ChainFault where
  /-- Terms are to be joined and there is no operator. -/
  | noOperators
  deriving DecidableEq, Repr

/-- The message of a fault. -/
def ChainFault.message : ChainFault → String
  | .noOperators => "integer modulo by zero"

namespace Chain

/-- The four operators. -/
def fourOperators : List Char := ['+', '-', '*', '/']

/-- The term at a position. -/
def term (c : Chain) (i : Nat) : Int := c.base + (i % 7 : Nat)

/-- The operator before the term at a position. -/
def operator (c : Chain) (i : Nat) : Except ChainFault Char :=
  match c.operators[i % c.operators.length]? with
  | some operator => .ok operator
  | none => .error .noOperators

/-- The operator and the term at a position. -/
def link (c : Chain) (i : Nat) : Except ChainFault String := do
  let operator ← c.operator i
  return " " ++ String.singleton operator ++ " " ++ wholeText (c.term i)

/-- The text of a chain. There is always a first term. -/
def text (c : Chain) : Except ChainFault String := do
  let links ← (List.range (c.terms.toNat - 1)).mapM fun k => c.link (k + 1)
  return wholeText (c.term 0) ++ String.join links

end Chain

end LittlePascal.Generate
