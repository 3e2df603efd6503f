import LittlePascal.Analysis
import LittlePascal.Calculator
import LittlePascal.Evaluate
import LittlePascal.Grammar
import LittlePascal.Tree.Outline

/-! # Editions

The language grows in sixteen editions, from sums of two digits to programs with procedure calls.
This module names them and gives each its lexemes, its grammar, its rules of evaluation and of
analysis, its way to show tokens and trees and its wording of faults. Each edition is one part of the
series. -/

namespace LittlePascal

/-- The editions of the language, in order. -/
inductive Edition where
  /-- Part 1: the sum of two digits. -/
  | digits
  /-- Part 2: the sum or difference of two numbers. -/
  | pairs
  /-- Part 3: chains of sums and differences. -/
  | chains
  /-- Part 4: chains of the four operators. -/
  | flat
  /-- Part 5: products as operands. -/
  | products
  /-- Part 6: parentheses. -/
  | parentheses
  /-- Part 7: expressions as trees. -/
  | trees
  /-- Part 8: signs before operands. -/
  | signs
  /-- Part 9: assignments and compound statements. -/
  | statements
  /-- Part 10: programs with declared variables, reals and comments. -/
  | declarations
  /-- Part 11: a symbol table. -/
  | symbols
  /-- Part 12: procedure declarations. -/
  | procedures
  /-- Part 13: checks of declarations; reserved words in any letter case. -/
  | checks
  /-- Part 14: nested scopes and parameters. -/
  | scopes
  /-- Part 15: places in tokens and faults. -/
  | places
  /-- Part 16: procedure calls. -/
  | calls
  deriving DecidableEq, Repr

namespace Edition

/-- The editions in order. -/
def all : List Edition :=
  [.digits, .pairs, .chains, .flat, .products, .parentheses, .trees, .signs, .statements,
   .declarations, .symbols, .procedures, .checks, .scopes, .places, .calls]

/-- The number of an edition, from one on. -/
def number (e : Edition) : Nat := all.idxOf e + 1

/-- The edition with a number. -/
def ofNumber? (n : Nat) : Option Edition := if n = 0 then none else all[n - 1]?

/-! ## Lexemes -/

/-- The signs. -/
def signMark : Char → Option Lexeme
  | '+' => some (.operator .plus)
  | '-' => some (.operator .minus)
  | _ => none

/-- The signs for products and quotients. -/
def productMark : Char → Option Lexeme
  | '*' => some (.operator .times)
  | '/' => some (.operator .slash)
  | _ => none

/-- The parentheses. -/
def parenMark : Char → Option Lexeme
  | '(' => some (.punctuation .leftParen)
  | ')' => some (.punctuation .rightParen)
  | _ => none

/-- The marks between statements. -/
def statementMark : Char → Option Lexeme
  | ';' => some (.punctuation .semicolon)
  | '.' => some (.punctuation .dot)
  | _ => none

/-- The marks of declarations. -/
def declarationMark : Char → Option Lexeme
  | ':' => some (.punctuation .colon)
  | ',' => some (.punctuation .comma)
  | _ => none

/-- The mark with a spelling of one character, looked up among all kinds. -/
def spelledMark (c : Char) : Option Lexeme :=
  (Kind.ofSpelling? (String.singleton c)).bind Kind.lexeme?

/-- The lexemes of one character. -/
def mark : Edition → Char → Option Lexeme
  | .digits, c => if c = '+' then some (.operator .plus) else none
  | .pairs, c | .chains, c => signMark c
  | .flat, c | .products, c => (signMark c).or (productMark c)
  | .parentheses, c | .trees, c | .signs, c =>
    (signMark c).or ((productMark c).or (parenMark c))
  | .statements, c =>
    (statementMark c).or ((signMark c).or ((productMark c).or (parenMark c)))
  | .declarations, c | .symbols, c | .procedures, c | .checks, c | .scopes, c =>
    (statementMark c).or ((declarationMark c).or
      ((signMark c).or ((productMark c).or (parenMark c))))
  | .places, c | .calls, c => spelledMark c

/-- A reserved word with its lexeme. -/
def reservedEntry (r : Reserved) : String × Lexeme := (r.spelling, .reserved r)

/-- The reserved words of statements. -/
def blockWords : List (String × Lexeme) :=
  [reservedEntry .beginBlock, reservedEntry .endBlock]

/-- The reserved words of programs with declarations. -/
def programWords : List (String × Lexeme) :=
  [reservedEntry .program, reservedEntry .var, (Operator.div.spelling, .operator .div),
   reservedEntry .integerType, reservedEntry .realType] ++ blockWords

/-- The reserved words among all kinds: the block from the first to the last of them. -/
def spelledWords : List (String × Lexeme) :=
  let onward := Kind.all.dropWhile (· ≠ .reserved .program)
  let block := onward.takeWhile (· ≠ .reserved .endBlock) ++ [.reserved .endBlock]
  block.filterMap fun k => k.lexeme?.map (k.spelling, ·)

/-- The reserved words, in order. -/
def reserved : Edition → List (String × Lexeme)
  | .statements => blockWords
  | .declarations | .symbols => programWords
  | .procedures | .checks | .scopes => programWords ++ [reservedEntry .procedure]
  | .places | .calls => spelledWords
  | _ => []

/-- Whether an edition has statements. -/
def hasStatements : Edition → Bool
  | .digits | .pairs | .chains | .flat | .products | .parentheses | .trees | .signs => false
  | _ => true

/-- Whether an edition has declarations. -/
def hasDeclarations (e : Edition) : Bool := e.hasStatements && e ≠ .statements

/-- Whether reserved words may be written in small letters. -/
def foldsCase : Edition → Bool
  | .checks | .scopes | .places | .calls => true
  | _ => false

/-- The form of number literals. -/
def numbers (e : Edition) : NumberForm :=
  if e = .digits then .digit else if e.hasDeclarations then .decimal else .whole

/-- What an edition decides about its lexemes, and the limit on digits that it is used with. -/
def lexis (e : Edition) (limit : DigitLimit := .off) : Lexis where
  emptyText := e = .digits
  blanks := e ≠ .digits
  comments := e.hasDeclarations
  numbers := e.numbers
  words := e.hasStatements
  reserved := e.reserved
  foldsCase := e.foldsCase
  assign := e.hasStatements
  mark := e.mark
  limit := limit

/-! ## Trees and values -/

/-- Whether variables and procedures may be declared in any order. -/
def interleaved : Edition → Bool
  | .checks | .scopes => true
  | _ => false

/-- Whether procedures may have parameters. -/
def hasParameters : Edition → Bool
  | .scopes | .places | .calls => true
  | _ => false

/-- Whether a list of statements must not be followed by a name. -/
def guardsNames : Edition → Bool
  | .statements | .declarations | .symbols | .procedures => true
  | _ => false

/-- What an edition decides about its trees. -/
def grammar (e : Edition) (limit : DigitLimit := .off) : Grammar where
  lexis := e.lexis limit
  signs := e = .signs || e.hasStatements
  holes := !e.hasStatements
  header := e.hasDeclarations
  interleaved := e.interleaved
  parameters := e.hasParameters
  guardsNames := e.guardsNames
  calls := e = .calls

/-- What an edition decides about values. -/
def evalRules (e : Edition) : EvalRules where
  slashFloors := !e.hasDeclarations
  strict := e = .statements || e = .declarations

/-- How an edition checks names, with or without writing lines where that is left open. -/
def analysis? (logs : Bool) : Edition → Option Analysis
  | .symbols | .procedures => some .declared
  | .checks => some (.flat true)
  | .scopes => some (.scoped ⟨false, true⟩)
  | .places | .calls => some (.scoped ⟨true, logs⟩)
  | _ => none

/-! ## Showing tokens, trees and faults -/

/-- How an edition outlines its trees. -/
def outlineStyle (e : Edition) : OutlineStyle where
  places := e = .places || e = .calls
  parameters := e.hasParameters

/-- How an edition shows its tokens. -/
def naming : Edition → Naming
  | .places | .calls => .qualified
  | e => if e.hasDeclarations then .long else .short

/-- How an edition words its faults. -/
def wording : Edition → Wording
  | .digits | .pairs | .chains => .blunt
  | .places | .calls => .located
  | _ => .plain

/-- Whether an edition reads its first token only when an expression is asked for. -/
def readsOnDemand : Edition → Bool
  | .digits | .pairs | .chains => true
  | _ => false

/-- The expressions of the editions that evaluate while reading. -/
def calculator? (e : Edition) (limit : DigitLimit := .off) : Option (Parse Value) :=
  let lx := e.lexis limit
  match e with
  | .digits => some (Calculator.sumOfTwo lx)
  | .pairs => some (Calculator.sumOrDifference lx)
  | .chains => some (Calculator.sums lx)
  | .flat => some (Calculator.flat lx)
  | .products => some (Calculator.mixed lx (Calculator.whole lx))
  | .parentheses => some (Calculator.mixed lx (Calculator.factor lx))
  | _ => none

end Edition

end LittlePascal
