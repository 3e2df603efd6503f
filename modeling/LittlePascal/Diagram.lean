import LittlePascal.Evaluate.Traced

/-! # Diagrams

A diagram is a directed graph in the DOT language. A tree is first turned into a `Figure`, a tree of
labels, and then drawn: every label gets the next number, before its children, and an edge to each
child. The edges of a label follow each child at once, or come after all of them. Drawing is the
`ASTVisualizer` of the series, and `Drawing.text` its `gendot`. -/

namespace LittlePascal

/-- When the edges of a label are drawn. -/
inductive EdgeOrder where
  /-- Each edge after its child. -/
  | afterEach
  /-- All edges after all children. -/
  | afterAll
  deriving DecidableEq, Repr

/-- A tree of labels. -/
inductive Figure where
  | node (label : String) (order : EdgeOrder) (children : List Figure)
  /-- A node that cannot be drawn, with its class. -/
  | undrawable (className : String)
  deriving Repr

/-! ## Trees as figures -/

/-- A label without children. -/
def Figure.leaf (label : String) : Figure := .node label .afterEach []

/-- The figure of a name. -/
def Ident.figure (id : Ident) : Figure := .leaf id.name

/-- The figure of a type. -/
def TypeRef.figure (t : TypeRef) : Figure := .leaf t.type.name

/-- The figure of an expression. -/
def Expr.figure : Expr → Figure
  | .literal l _ => .leaf l.value.text
  | .var id => id.figure
  | .signed sign _ operand => .node ("unary " ++ sign.operator.spelling) .afterEach [operand.figure]
  | .binary operator _ left right =>
    .node operator.spelling .afterAll [left.figure, right.figure]
  | .hole => .undrawable Expr.hole.className

namespace Stmt

mutual

/-- The figure of a statement. -/
def figure : Stmt → Figure
  | .compound children => .node "Compound" .afterEach (figures children)
  | .assign target _ value =>
    .node Punctuation.assign.spelling .afterAll [target.figure, value.figure]
  | .call procedure arguments =>
    .node ("ProcCall:" ++ procedure.name) .afterEach (arguments.map Expr.figure)
  | .empty => .leaf "NoOp"

/-- The figures of statements. -/
def figures : List Stmt → List Figure
  | [] => []
  | statement :: rest => statement.figure :: figures rest

end

end Stmt

/-- The figure of a name with its type. -/
def Binding.figure (label : String) (b : Binding) : Figure :=
  .node label .afterEach [b.id.figure, b.type.figure]

namespace Decl

mutual

/-- The figure of a declaration. -/
def figure : Decl → Figure
  | .var binding => binding.figure "VarDecl"
  | .procedure name parameters declarations body =>
    .node ("ProcDecl:" ++ name) .afterEach
      (parameters.map (·.figure "Param") ++
        [.node "Block" .afterAll (figures declarations ++ [(Stmt.compound body).figure])])

/-- The figures of declarations. -/
def figures : List Decl → List Figure
  | [] => []
  | declaration :: rest => declaration.figure :: figures rest

end

end Decl

/-- The figure of a block. -/
def Block.figure (b : Block) : Figure :=
  .node "Block" .afterAll (Decl.figures b.declarations ++ [(Stmt.compound b.body).figure])

/-- The figure of a node. -/
def Node.figure : Node → Figure
  | .expr e => e.figure
  | .stmt s => s.figure
  | .type t => t.figure
  | .parameter binding => binding.figure "Param"
  | .decl d => d.figure
  | .block b => b.figure
  | .program p => .node "Program" .afterEach [p.block.figure]

/-- The figure of a fragment: a list of nodes cannot be drawn. -/
def Fragment.figure : Fragment → Figure
  | .node n => n.figure
  | .list nodes => .undrawable (Fragment.list nodes).className

/-! ## Drawing -/

/-- A drawing in progress. -/
structure Drawing where
  /-- The number of the next label. -/
  next : Nat
  /-- The lines of the graph. -/
  body : Array String
  /-- The lines written besides. -/
  trace : Array String

/-- Work on a drawing. -/
abbrev Draw := EStateM Fault Drawing

namespace Drawing

/-- The drawing without labels. -/
def blank : Drawing := ⟨1, #[], #[]⟩

/-- The line of a label. -/
def labelLine (number : Nat) (label : String) : String :=
  "  node" ++ number.repr ++ " [label=\"" ++ label ++ "\"]\n"

/-- The line of an edge. -/
def edgeLine (parent child : Nat) : String :=
  "  node" ++ parent.repr ++ " -> node" ++ child.repr ++ "\n"

/-- A label is drawn; this is its number. -/
def label (text : String) : Draw Nat := do
  let number := (← get).next
  modify fun d => { d with next := d.next + 1, body := d.body.push (labelLine number text) }
  return number

/-- An edge is drawn. -/
def edge (parent child : Nat) : Draw Unit :=
  modify fun d => { d with body := d.body.push (edgeLine parent child) }

/-- Edges from a label to each of the given ones. -/
def edges (parent : Nat) (children : List Nat) : Draw Unit := children.forM (edge parent)

mutual

/-- A figure is drawn; this is the number of its label. -/
def figure : Figure → Draw Nat
  | .node text order children => do
    let number ← label text
    match order with
    | .afterEach => figuresEach number children
    | .afterAll => edges number (← figuresAll children)
    return number
  | .undrawable className => throw (.unhandled className)

/-- Figures are drawn, each with the edge to it. -/
def figuresEach (parent : Nat) : List Figure → Draw Unit
  | [] => pure ()
  | child :: rest => do
    edge parent (← figure child)
    figuresEach parent rest

/-- Figures are drawn; these are the numbers of their labels. -/
def figuresAll : List Figure → Draw (List Nat)
  | [] => pure []
  | child :: rest => do
    let number ← figure child
    return number :: (← figuresAll rest)

end

/-- A drawing done twice, with a trace line in between. -/
def again (once : Draw Nat) : Draw Nat := do
  let _ ← once
  modify fun d => { d with trace := d.trace.push (traceLine "None") }
  once

mutual

/-- A figure is drawn twice, and so is every figure in it; this is the number of the last label. -/
def figureTwice : Figure → Draw Nat
  | .node text _ children => again do
    let number ← label text
    edges number (← figuresTwice children)
    return number
  | .undrawable className => throw (.unhandled className)

/-- Figures are drawn twice; these are the numbers of their last labels. -/
def figuresTwice : List Figure → Draw (List Nat)
  | [] => pure []
  | child :: rest => do
    let number ← figureTwice child
    return number :: (← figuresTwice rest)

end

/-- The text before the lines of a graph. -/
def header : String :=
  "digraph astgraph \x7b\n  node [shape=circle, fontsize=12, fontname=\"Courier\", height=.1];\n" ++
    "  ranksep=.3;\n  edge [arrowsize=.5]\n\n"

/-- A drawing as a graph in the DOT language. -/
def text (d : Drawing) : String := header ++ String.join d.body.toList ++ "\x7d"

end Drawing

end LittlePascal
