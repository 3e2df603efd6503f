import LittlePascal.Grammar
import LittlePascal.Proofs.Passage

/-! # Derivations

The grammar of programs as a relation between the marks of a text and its tree:

```text
program   : PROGRAM name ; block .
block     : [VAR (names : type ;)*] procedure* compound
procedure : PROCEDURE name [( [names : type (; names : type)*] )] ; block ;
compound  : BEGIN statement (; statement)* END
statement : compound | call | name := sum | nothing
call      : name ( [sum (, sum)*] )             the parenthesis directly behind the name
sum       : product | sum (+ | -) product       names : name (, name)*
product   : factor | product (* | DIV | /) factor
factor    : (+ | -) factor | literal | ( sum ) | name
```

No rule of this module reads from left to right or looks ahead: a list of marks is cut into parts in
whatever way the parts can be derived. The end of the text is the end of the list. -/

namespace LittlePascal

/-! ## Lists -/

section Lists

variable {α : Type}

/-- Any number of items, one after the other. -/
inductive Repeated (Item : List Mark → α → Prop) : List Mark → List α → Prop where
  | nil : Repeated Item [] []
  | cons {ms ns : List Mark} {a : α} {as : List α} :
      Item ms a → Repeated Item ns as → Repeated Item (ms ++ ns) (a :: as)

/-- One item or more, with a separator between each two of them. -/
inductive Separated (separator : Punctuation) (Item : List Mark → α → Prop) :
    List Mark → List α → Prop where
  | one {ms : List Mark} {a : α} : Item ms a → Separated separator Item ms [a]
  | more {ms ns : List Mark} {m : Mark} {a : α} {as : List α} :
      Item ms a → m.lexeme = .punctuation separator → Separated separator Item ns as →
      Separated separator Item (ms ++ m :: ns) (a :: as)

end Lists

/-! ## Expressions -/

/-- The levels of expressions, the tightest first. -/
inductive Level where
  | factor
  | product
  | sum
  deriving DecidableEq, Repr

/-- An expression of a level. Chains of operators lean to the left. -/
inductive DerivesExpr : Level → List Mark → Expr → Prop where
  | literal {m : Mark} {l : Literal} :
      m.lexeme = .literal l → DerivesExpr .factor [m] (.literal l m.place)
  | var {m : Mark} {s : String} :
      m.lexeme = .name s → DerivesExpr .factor [m] (.var ⟨s, m.place⟩)
  | signed {m : Mark} {ms : List Mark} {sign : Sign} {e : Expr} :
      m.lexeme = .operator sign.operator → DerivesExpr .factor ms e →
      DerivesExpr .factor (m :: ms) (.signed sign m.place e)
  | parens {m n : Mark} {ms : List Mark} {e : Expr} :
      m.lexeme = .punctuation .leftParen → DerivesExpr .sum ms e →
      n.lexeme = .punctuation .rightParen → DerivesExpr .factor (m :: (ms ++ [n])) e
  | factor {ms : List Mark} {e : Expr} : DerivesExpr .factor ms e → DerivesExpr .product ms e
  | multiplied {m : Mark} {ms ns : List Mark} {o : Operator} {left right : Expr} :
      DerivesExpr .product ms left → m.lexeme = .operator o → o ∈ [.times, .div, .slash] →
      DerivesExpr .factor ns right →
      DerivesExpr .product (ms ++ m :: ns) (.binary o m.place left right)
  | product {ms : List Mark} {e : Expr} : DerivesExpr .product ms e → DerivesExpr .sum ms e
  | added {m : Mark} {ms ns : List Mark} {o : Operator} {left right : Expr} :
      DerivesExpr .sum ms left → m.lexeme = .operator o → o ∈ [.plus, .minus] →
      DerivesExpr .product ns right →
      DerivesExpr .sum (ms ++ m :: ns) (.binary o m.place left right)

/-! ## Statements -/

/-- The arguments of a call. -/
inductive DerivesArguments : List Mark → List Expr → Prop where
  | none : DerivesArguments [] []
  | some {ms : List Mark} {es : List Expr} :
      Separated .comma (DerivesExpr .sum) ms es → DerivesArguments ms es

/-- A statement. Calls are among them if the grammar has calls. -/
inductive DerivesStmt (g : Grammar) : List Mark → Stmt → Prop where
  | compound {m n : Mark} {ms : List Mark} {children : List Stmt} :
      m.lexeme = .reserved .beginBlock → Separated .semicolon (DerivesStmt g) ms children →
      n.lexeme = .reserved .endBlock → DerivesStmt g (m :: (ms ++ [n])) (.compound children)
  | call {m n k : Mark} {ms : List Mark} {s : String} {arguments : List Expr} :
      g.calls = true → m.lexeme = .name s → m.behind = some '(' →
      n.lexeme = .punctuation .leftParen → DerivesArguments ms arguments →
      k.lexeme = .punctuation .rightParen →
      DerivesStmt g (m :: n :: (ms ++ [k])) (.call ⟨s, m.place⟩ arguments)
  | assign {m n : Mark} {ms : List Mark} {s : String} {e : Expr} :
      m.lexeme = .name s → n.lexeme = .punctuation .assign → DerivesExpr .sum ms e →
      DerivesStmt g (m :: n :: ms) (.assign ⟨s, m.place⟩ n.place e)
  | empty : DerivesStmt g [] .empty

/-! ## Declarations -/

/-- A name. -/
inductive DerivesIdent : List Mark → Ident → Prop where
  | name {m : Mark} {s : String} : m.lexeme = .name s → DerivesIdent [m] ⟨s, m.place⟩

/-- A type. -/
inductive DerivesType : List Mark → TypeRef → Prop where
  | word {m : Mark} {type : BaseType} :
      m.lexeme = .reserved type.word → DerivesType [m] ⟨type, m.place⟩

/-- Names that share a type: one binding for each of them, in their order. -/
inductive DerivesBindings : List Mark → List Binding → Prop where
  | group {m : Mark} {ms ns : List Mark} {ids : List Ident} {type : TypeRef} :
      Separated .comma DerivesIdent ms ids → m.lexeme = .punctuation .colon →
      DerivesType ns type → DerivesBindings (ms ++ m :: ns) (ids.map fun id => ⟨id, type⟩)

/-- The parameters of a procedure. -/
inductive DerivesParameters : List Mark → List Binding → Prop where
  | absent : DerivesParameters [] []
  | none {m n : Mark} :
      m.lexeme = .punctuation .leftParen → n.lexeme = .punctuation .rightParen →
      DerivesParameters [m, n] []
  | some {m n : Mark} {ms : List Mark} {groups : List (List Binding)} :
      m.lexeme = .punctuation .leftParen → Separated .semicolon DerivesBindings ms groups →
      n.lexeme = .punctuation .rightParen → DerivesParameters (m :: (ms ++ [n])) groups.flatten

/-- Variables that share a type, with the semicolon behind them. -/
inductive DerivesGroup : List Mark → List Decl → Prop where
  | group {m : Mark} {ms : List Mark} {bindings : List Binding} :
      DerivesBindings ms bindings → m.lexeme = .punctuation .semicolon →
      DerivesGroup (ms ++ [m]) (bindings.map .var)

/-- The variables of a block. -/
inductive DerivesVariables : List Mark → List Decl → Prop where
  | absent : DerivesVariables [] []
  | some {m : Mark} {ms : List Mark} {groups : List (List Decl)} :
      m.lexeme = .reserved .var → Repeated DerivesGroup ms groups →
      DerivesVariables (m :: ms) groups.flatten

mutual

/-- A procedure. -/
inductive DerivesProcedure (g : Grammar) : List Mark → Decl → Prop where
  | procedure {m n k l : Mark} {ms ns : List Mark} {s : String} {parameters : List Binding}
      {b : Block} :
      m.lexeme = .reserved .procedure → n.lexeme = .name s → DerivesParameters ms parameters →
      k.lexeme = .punctuation .semicolon → DerivesBlock g ns b →
      l.lexeme = .punctuation .semicolon →
      DerivesProcedure g (m :: n :: (ms ++ k :: (ns ++ [l])))
        (.procedure s parameters b.declarations b.body)

/-- A block: variables, then procedures, then statements. -/
inductive DerivesBlock (g : Grammar) : List Mark → Block → Prop where
  | block {ms ns ks : List Mark} {vars procedures : List Decl} {body : List Stmt} :
      DerivesVariables ms vars → Repeated (DerivesProcedure g) ns procedures →
      DerivesStmt g ks (.compound body) →
      DerivesBlock g (ms ++ (ns ++ ks)) ⟨vars ++ procedures, body⟩

end

/-! ## Programs -/

/-- A program. -/
inductive Grammar.Derives (g : Grammar) : List Mark → Program → Prop where
  | program {m n k l : Mark} {ms : List Mark} {s : String} {b : Block} :
      m.lexeme = .reserved .program → n.lexeme = .name s → k.lexeme = .punctuation .semicolon →
      DerivesBlock g ms b → l.lexeme = .punctuation .dot →
      g.Derives (m :: n :: k :: (ms ++ [l])) ⟨s, b⟩

end LittlePascal
