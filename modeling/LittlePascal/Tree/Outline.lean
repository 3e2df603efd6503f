import LittlePascal.Tree

/-! # Trees as s-expressions

`Node.outline` writes a tree in one line of nested parentheses. Places are written behind the words
they belong to if the edition shows places; the parameters of a procedure are written, in brackets,
if the edition has parameters. -/

namespace LittlePascal

/-- What an outline shows. -/
structure OutlineStyle where
  /-- Whether places are shown. -/
  places : Bool
  /-- Whether procedures have parameters. -/
  parameters : Bool
  deriving DecidableEq, Repr

namespace OutlineStyle

/-- A place behind a word. -/
def behind (style : OutlineStyle) (place : Place) : String :=
  if style.places then " @" ++ place.text else ""

end OutlineStyle

/-- A literal with its type. -/
def Literal.outline : Literal → String
  | .whole n => "int:" ++ n.repr
  | .real x => "float:" ++ Number.realText x

/-- A name with its place. -/
def Ident.outline (style : OutlineStyle) (id : Ident) : String :=
  "(Var " ++ id.name ++ style.behind id.place ++ ")"

/-- An expression as an s-expression. -/
def Expr.outline (style : OutlineStyle) : Expr → String
  | .literal l place => "(Num " ++ l.outline ++ style.behind place ++ ")"
  | .var id => id.outline style
  | .signed sign place operand =>
    "(UnaryOp " ++ sign.operator.spelling ++ style.behind place ++ " " ++ operand.outline style ++ ")"
  | .binary operator place left right =>
    "(BinOp " ++ operator.spelling ++ style.behind place ++ " " ++ left.outline style ++ " " ++
      right.outline style ++ ")"
  | .hole => "None"

/-- Items in brackets. -/
def bracketed (items : List String) : String := "[" ++ " ".intercalate items ++ "]"

namespace Stmt

mutual

/-- A statement as an s-expression. -/
def outline (style : OutlineStyle) : Stmt → String
  | .compound children => "(Compound" ++ outlineAll style children ++ ")"
  | .assign target place value =>
    "(Assign :=" ++ style.behind place ++ " " ++ target.outline style ++ " " ++ value.outline style ++ ")"
  | .call procedure arguments =>
    "(ProcedureCall " ++ procedure.name ++ style.behind procedure.place ++ " " ++
      bracketed (arguments.map (·.outline style)) ++ ")"
  | .empty => "(NoOp)"

/-- Statements, each after a space. -/
def outlineAll (style : OutlineStyle) : List Stmt → String
  | [] => ""
  | statement :: rest => " " ++ statement.outline style ++ outlineAll style rest

end

end Stmt

/-- A type as an s-expression. -/
def TypeRef.outline (style : OutlineStyle) (t : TypeRef) : String :=
  "(Type " ++ t.type.name ++ style.behind t.place ++ ")"

/-- A name with its type, under the given head. -/
def Binding.outline (style : OutlineStyle) (head : String) (b : Binding) : String :=
  "(" ++ head ++ " " ++ b.id.outline style ++ " " ++ b.type.outline style ++ ")"

namespace Decl

mutual

/-- A declaration as an s-expression. -/
def outline (style : OutlineStyle) : Decl → String
  | .var binding => binding.outline style "VarDecl"
  | .procedure name parameters declarations body =>
    "(ProcedureDecl " ++ name ++ " " ++
      (if style.parameters then
        bracketed (parameters.map (·.outline style "Param")) ++ " " else "") ++
      "(Block " ++ bracketed (outlineAll style declarations) ++ " " ++
      (Stmt.compound body).outline style ++ "))"

/-- Declarations as s-expressions. -/
def outlineAll (style : OutlineStyle) : List Decl → List String
  | [] => []
  | declaration :: rest => declaration.outline style :: outlineAll style rest

end

end Decl

/-- A block as an s-expression. -/
def Block.outline (style : OutlineStyle) (b : Block) : String :=
  "(Block " ++ bracketed (Decl.outlineAll style b.declarations) ++ " " ++
    (Stmt.compound b.body).outline style ++ ")"

/-- A node as an s-expression. -/
def Node.outline (style : OutlineStyle) : Node → String
  | .expr e => e.outline style
  | .stmt s => s.outline style
  | .type t => t.outline style
  | .parameter binding => binding.outline style "Param"
  | .decl d => d.outline style
  | .block b => b.outline style
  | .program p => "(Program " ++ p.name ++ " " ++ p.block.outline style ++ ")"

end LittlePascal
