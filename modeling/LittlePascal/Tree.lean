import LittlePascal.Token

/-! # Syntax trees

Trees of expressions, statements, declarations and programs. Nodes that stem from one token carry its
place. A `Node` is any tree that a grammar rule can yield, and a `Fragment` is one node or a list of
them. -/

namespace LittlePascal

/-- Expressions. -/
inductive Expr where
  | literal (l : Literal) (place : Place)
  | var (id : Ident)
  | signed (sign : Sign) (place : Place) (operand : Expr)
  | binary (operator : Operator) (place : Place) (left right : Expr)
  /-- An operand that was left out. -/
  | hole
  deriving DecidableEq, Repr

/-- Statements. -/
inductive Stmt where
  | compound (children : List Stmt)
  /-- An assignment; the place is that of the assignment mark. -/
  | assign (target : Ident) (place : Place) (value : Expr)
  | call (procedure : Ident) (arguments : List Expr)
  | empty
  deriving Repr

/-- The types of variables. -/
inductive BaseType where
  | integer
  | real
  deriving DecidableEq, Repr

/-- A type where it is named. -/
structure TypeRef where
  type : BaseType
  place : Place
  deriving DecidableEq, Repr

/-- A name with its type, as a variable or a parameter. -/
structure Binding where
  id : Ident
  type : TypeRef
  deriving DecidableEq, Repr

/-- Declarations. -/
inductive Decl where
  | var (binding : Binding)
  /-- A procedure with its parameters and its block, that is its declarations and its body. -/
  | procedure (name : String) (parameters : List Binding) (declarations : List Decl)
      (body : List Stmt)
  deriving Repr

/-- Declarations and the statements that may use them. -/
structure Block where
  declarations : List Decl
  body : List Stmt
  deriving Repr

/-- A program. -/
structure Program where
  name : String
  block : Block
  deriving Repr

/-- Any tree that a grammar rule can yield. -/
inductive Node where
  | expr (e : Expr)
  | stmt (s : Stmt)
  | type (t : TypeRef)
  | parameter (binding : Binding)
  | decl (d : Decl)
  | block (b : Block)
  | program (p : Program)
  deriving Repr

/-- One node, or a list of them. -/
inductive Fragment where
  | node (n : Node)
  | list (nodes : List Node)
  deriving Repr

/-- The reserved word of a type. -/
def BaseType.word : BaseType → Reserved
  | .integer => .integerType
  | .real => .realType

/-- The name of a type. -/
def BaseType.name (t : BaseType) : String := t.word.spelling

/-- The operator that is spelled as a sign. -/
def Sign.operator : Sign → Operator
  | .plus => .plus
  | .minus => .minus

/-- The block of a procedure. -/
def Decl.block? : Decl → Option Block
  | .procedure _ _ declarations body => some ⟨declarations, body⟩
  | .var _ => none

/-! ## Classes of nodes -/

/-- The class of an expression. -/
def Expr.className : Expr → String
  | .literal _ _ => "Num"
  | .var _ => "Var"
  | .signed _ _ _ => "UnaryOp"
  | .binary _ _ _ _ => "BinOp"
  | .hole => "NoneType"

/-- The class of a statement. -/
def Stmt.className : Stmt → String
  | .compound _ => "Compound"
  | .assign _ _ _ => "Assign"
  | .call _ _ => "ProcedureCall"
  | .empty => "NoOp"

/-- The class of a declaration. -/
def Decl.className : Decl → String
  | .var _ => "VarDecl"
  | .procedure _ _ _ _ => "ProcedureDecl"

/-- The class of a node. -/
def Node.className : Node → String
  | .expr e => e.className
  | .stmt s => s.className
  | .type _ => "Type"
  | .parameter _ => "Param"
  | .decl d => d.className
  | .block _ => "Block"
  | .program _ => "Program"

/-- The class of a fragment. -/
def Fragment.className : Fragment → String
  | .node n => n.className
  | .list _ => "list"

end LittlePascal
