import LittlePascal.Parse
import LittlePascal.Tree

/-! # Grammars

A `Grammar` is what an edition decides about its trees on top of its lexemes. The rules are written
once, for all grammars:

```text
program    : [PROGRAM name ;] block .            block     : declaration* compound
declaration: VAR (names : type ;)* | PROCEDURE name [( parameters )] ; block ;
compound   : BEGIN statement (; statement)* END
statement  : compound | call | name := sum | nothing
call       : name ( [sum (, sum)*] )             sum       : product ((+ | -) product)*
product    : factor ((* | DIV | /) factor)*
factor     : (+ | -) factor | literal | ( sum ) | name
```

A rule that recurs is bounded by a level count; `Parse.budget` exceeds the number of levels that a
text can open. How deep the stack of a machine may grow is left out: no rule fails because a text is
nested too deeply.

The rules are those of the `Parser` in parts 7 to 16 of the series, under the names that they have there
or plainer ones. -/

namespace LittlePascal

/-- What an edition decides about its trees. -/
structure Grammar where
  /-- The lexemes. -/
  lexis : Lexis
  /-- Whether signs may stand before an operand. -/
  signs : Bool
  /-- Whether an operand may be left out, which leaves a hole in the tree. -/
  holes : Bool
  /-- Whether a program has a header and declarations. -/
  header : Bool
  /-- Whether variables and procedures may be declared in any order and number of sections. -/
  interleaved : Bool
  /-- Whether procedures may have parameters. -/
  parameters : Bool
  /-- Whether a list of statements must not be followed by a name. -/
  guardsNames : Bool
  /-- Whether a name that a parenthesis directly follows is a call. -/
  calls : Bool

namespace Grammar

/-! ## Expressions -/

/-- A first operand and then, as long as one of the operators follows, more operands. -/
def chain (g : Grammar) (operators : List Operator) (operand : Parse Expr) : Parse Expr := do
  let first ← operand
  Parse.foldLeft g.lexis (Parse.operatorAmong operators)
    (fun operator place left right => return .binary operator place left right) operand
    (← Parse.budget) first

/-- A chain of products and quotients. -/
def product (g : Grammar) (factor : Parse Expr) : Parse Expr :=
  g.chain [.times, .div, .slash] factor

/-- A chain of sums and differences. -/
def sum (g : Grammar) (factor : Parse Expr) : Parse Expr :=
  g.chain [.plus, .minus] (g.product factor)

/-- An operand that is neither a sign, a literal nor in parentheses. -/
def lastFactor (g : Grammar) : Parse Expr :=
  if g.holes then return .hole else return .var (← Parse.ident g.lexis)

/-- An operand with at most so many levels of signs and parentheses. -/
def factorWithin (g : Grammar) : Nat → Parse Expr
  | 0 => Parse.exhausted
  | n + 1 => do
    match ← Parse.current with
    | .lexeme (.literal l) place =>
      Parse.next g.lexis
      return .literal l place
    | .lexeme (.punctuation .leftParen) _ =>
      Parse.next g.lexis
      let inner ← g.sum (g.factorWithin n)
      Parse.expect g.lexis (.punctuation .rightParen)
      return inner
    | .lexeme (.operator .plus) place =>
      if g.signs then
        Parse.next g.lexis
        return .signed .plus place (← g.factorWithin n)
      else g.lastFactor
    | .lexeme (.operator .minus) place =>
      if g.signs then
        Parse.next g.lexis
        return .signed .minus place (← g.factorWithin n)
      else g.lastFactor
    | _ => g.lastFactor

/-- An operand. -/
def factor (g : Grammar) : Parse Expr := do g.factorWithin (← Parse.budget)

/-- A chain of products and quotients of operands. -/
def term (g : Grammar) : Parse Expr := do g.product (g.factorWithin (← Parse.budget))

/-- An expression. -/
def expr (g : Grammar) : Parse Expr := do g.sum (g.factorWithin (← Parse.budget))

/-! ## Statements -/

/-- An assignment. -/
def assignment (g : Grammar) : Parse Stmt := do
  let target ← Parse.ident g.lexis
  match ← Parse.current with
  | .lexeme (.punctuation .assign) place =>
    Parse.next g.lexis
    return .assign target place (← g.expr)
  | _ => Parse.reject

/-- The arguments of a call, up to the closing parenthesis. -/
def arguments (g : Grammar) : Parse (List Expr) := do
  if (← Parse.kind) = .punctuation .rightParen then return []
  else Parse.separated g.lexis (.punctuation .comma) g.expr

/-- A procedure call. -/
def call (g : Grammar) : Parse Stmt := do
  let procedure ← Parse.ident g.lexis
  Parse.expect g.lexis (.punctuation .leftParen)
  let arguments ← g.arguments
  Parse.expect g.lexis (.punctuation .rightParen)
  return .call procedure arguments

/-- Statements with semicolons between them. -/
def statementsOf (g : Grammar) (statement : Parse Stmt) : Parse (List Stmt) := do
  let statements ← Parse.separated g.lexis (.punctuation .semicolon) statement
  if g.guardsNames && (← Parse.kind) = .name then Parse.reject
  return statements

/-- Statements between the words that begin and end them. -/
def compoundOf (g : Grammar) (statement : Parse Stmt) : Parse (List Stmt) := do
  Parse.expect g.lexis (.reserved .beginBlock)
  let statements ← g.statementsOf statement
  Parse.expect g.lexis (.reserved .endBlock)
  return statements

/-- Whether the current token is a name that a parenthesis directly follows. -/
def startsCall (g : Grammar) : Parse Bool :=
  return g.calls && (← get).cursor.char? = some '('

/-- A statement with at most so many levels of compound statements. -/
def statementWithin (g : Grammar) : Nat → Parse Stmt
  | 0 => Parse.exhausted
  | n + 1 => do
    match ← Parse.kind with
    | .reserved .beginBlock => return .compound (← g.compoundOf (g.statementWithin n))
    | .name => if ← g.startsCall then g.call else g.assignment
    | _ => return .empty

/-- A statement. -/
def statement (g : Grammar) : Parse Stmt := do g.statementWithin (← Parse.budget)

/-- Statements with semicolons between them. -/
def statements (g : Grammar) : Parse (List Stmt) := do
  g.statementsOf (g.statementWithin (← Parse.budget))

/-- The children of a compound statement. -/
def compound (g : Grammar) : Parse (List Stmt) := do
  g.compoundOf (g.statementWithin (← Parse.budget))

/-! ## Declarations -/

/-- A type. -/
def typeRef (g : Grammar) : Parse TypeRef := do
  match ← Parse.current with
  | .lexeme (.reserved .integerType) place =>
    Parse.next g.lexis
    return ⟨.integer, place⟩
  | .lexeme (.reserved .realType) place =>
    Parse.next g.lexis
    return ⟨.real, place⟩
  | _ => Parse.reject

/-- Names that share a type. -/
def bindings (g : Grammar) : Parse (List Binding) := do
  let names ← Parse.separated g.lexis (.punctuation .comma) (Parse.ident g.lexis)
  Parse.expect g.lexis (.punctuation .colon)
  let type ← g.typeRef
  return names.map fun id => ⟨id, type⟩

/-- The parameters of a procedure, if there are any. -/
def parameterList (g : Grammar) : Parse (List Binding) := do
  if (← Parse.kind) = .name then
    return (← Parse.separated g.lexis (.punctuation .semicolon) g.bindings).flatten
  else return []

/-- The parameters of a procedure in their parentheses, which may be left out. -/
def parameterSection (g : Grammar) : Parse (List Binding) := do
  if g.parameters && (← Parse.kind) = .punctuation .leftParen then
    Parse.next g.lexis
    let parameters ← g.parameterList
    Parse.expect g.lexis (.punctuation .rightParen)
    return parameters
  else return []

/-- Names that share a type, with the semicolon behind them, as variables. -/
def variableDecls (g : Grammar) : Parse (List Decl) := do
  let group ← g.bindings
  Parse.expect g.lexis (.punctuation .semicolon)
  return group.map .var

/-- A section of variables. -/
def variableSection (g : Grammar) : Parse (List Decl) := do
  Parse.expect g.lexis (.reserved .var)
  return (← Parse.many .name g.variableDecls).flatten

/-- A procedure. -/
def procedureOf (g : Grammar) (block : Parse Block) : Parse Decl := do
  Parse.expect g.lexis (.reserved .procedure)
  let id ← Parse.ident g.lexis
  let parameters ← g.parameterSection
  Parse.expect g.lexis (.punctuation .semicolon)
  let inner ← block
  Parse.expect g.lexis (.punctuation .semicolon)
  return .procedure id.name parameters inner.declarations inner.body

/-- Whether a kind of token opens a section of declarations. -/
def opensSection : Kind → Bool
  | .reserved .var => true
  | .reserved .procedure => true
  | _ => false

/-- A section of variables, or one procedure. -/
def sectionOf (g : Grammar) (block : Parse Block) : Parse (List Decl) := do
  if (← Parse.kind) = .reserved .var then g.variableSection
  else return [← g.procedureOf block]

/-- The declarations of a block. -/
def declarationsOf (g : Grammar) (block : Parse Block) : Parse (List Decl) := do
  if g.interleaved then
    return (← Parse.manyWhile opensSection (g.sectionOf block) (← Parse.budget)).flatten
  else
    let vars ← if (← Parse.kind) = .reserved .var then g.variableSection else pure []
    let procedures ← Parse.many (.reserved .procedure) (g.procedureOf block)
    return vars ++ procedures

/-- A block with at most so many levels of procedures. -/
def blockWithin (g : Grammar) : Nat → Parse Block
  | 0 => Parse.exhausted
  | n + 1 => do
    let declarations ← g.declarationsOf (g.blockWithin n)
    let body ← g.compound
    return ⟨declarations, body⟩

/-- A block. -/
def block (g : Grammar) : Parse Block := do g.blockWithin (← Parse.budget)

/-- The declarations of a block. -/
def declarations (g : Grammar) : Parse (List Decl) := do
  g.declarationsOf (g.blockWithin (← Parse.budget))

/-- A procedure. -/
def procedure (g : Grammar) : Parse Decl := do g.procedureOf (g.blockWithin (← Parse.budget))

/-! ## Programs -/

/-- A program with its header. -/
def program (g : Grammar) : Parse Program := do
  Parse.expect g.lexis (.reserved .program)
  let id ← Parse.ident g.lexis
  Parse.expect g.lexis (.punctuation .semicolon)
  let block ← g.block
  Parse.expect g.lexis (.punctuation .dot)
  return ⟨id.name, block⟩

/-- A program without header: a compound statement. -/
def bareProgram (g : Grammar) : Parse Stmt := do
  let children ← g.compound
  Parse.expect g.lexis (.punctuation .dot)
  return .compound children

/-- The largest rule of a grammar. -/
def whole (g : Grammar) : Parse Node := do
  if g.holes then return .expr (← g.expr)
  else if g.header then return .program (← g.program)
  else return .stmt (← g.bareProgram)

/-- The tree of a whole text. A program must be followed by the end of the text; after an expression
anything may follow. -/
def parse (g : Grammar) : Parse Node := do
  let node ← g.whole
  if !g.holes && (← Parse.kind) ≠ .endOfText then Parse.reject
  return node

/-! ## Rules by themselves -/

/-- The rules that can be read by themselves. -/
inductive Rule where
  | expr
  | term
  | factor
  | var
  | assignment
  | call
  | empty
  | statement
  | statements
  | compound
  | typeRef
  | bindings
  | parameters
  | parameterList
  | procedure
  | declarations
  | block
  | program
  | parse
  deriving DecidableEq, Repr

/-- What a rule yields on its own. -/
def read (g : Grammar) : Rule → Parse Fragment
  | .expr => return .node (.expr (← g.expr))
  | .term => return .node (.expr (← g.term))
  | .factor => return .node (.expr (← g.factor))
  | .var => return .node (.expr (.var (← Parse.ident g.lexis)))
  | .assignment => return .node (.stmt (← g.assignment))
  | .call => return .node (.stmt (← g.call))
  | .empty => return .node (.stmt .empty)
  | .statement => return .node (.stmt (← g.statement))
  | .statements => return .list ((← g.statements).map .stmt)
  | .compound => return .node (.stmt (.compound (← g.compound)))
  | .typeRef => return .node (.type (← g.typeRef))
  | .bindings => return .list ((← g.bindings).map fun binding => .decl (.var binding))
  | .parameters => return .list ((← g.bindings).map .parameter)
  | .parameterList => return .list ((← g.parameterList).map .parameter)
  | .procedure => return .node (.decl (← g.procedure))
  | .declarations => return .list ((← g.declarations).map .decl)
  | .block => return .node (.block (← g.block))
  | .program => return .node (← g.whole)
  | .parse => return .node (← g.parse)

end Grammar

end LittlePascal
