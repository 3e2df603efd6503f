import LittlePascal.Symbol

/-! # Scopes

A scope is a named table of symbols at a level. Scopes are nested; a chain of scopes lists them from
the innermost one outwards, so the scope that encloses another one is the next in the list. Looking a
name up goes through the chain and ends with the first scope that has it. A scope is a
`ScopedSymbolTable` of the series. -/

namespace LittlePascal

/-- A named table of symbols. -/
structure Scope where
  name : String
  level : Nat
  symbols : SymbolMap

namespace Scope

/-- A scope without symbols. -/
def opened (name : String) (level : Nat) : Scope := ⟨name, level, .empty⟩

/-- The scope with a symbol entered. -/
def insert (s : Scope) (symbol : Symbol) : Scope :=
  { s with symbols := s.symbols.insertSymbol symbol }

/-- Whether a scope has a name. -/
def has (s : Scope) (name : String) : Bool := (s.symbols.get? name).isSome

/-- A scope as text; the argument `enclosing` is the name of the scope around it. -/
def text (s : Scope) (enclosing : Option String) : String :=
  "\n".intercalate
    (["\n", "SCOPE (SCOPED SYMBOL TABLE)", "===========================",
      "Scope name     : " ++ s.name,
      "Scope level    : " ++ s.level.repr,
      "Enclosing scope: " ++ enclosing.getD "None",
      "Scope (Scoped symbol table) contents",
      "------------------------------------"] ++ SymbolMap.lines s.symbols ++ ["\n"])

end Scope

/-- Nested scopes, the innermost one first. -/
abbrev ScopeChain := List Scope

namespace ScopeChain

/-- What a name stands for: the symbol of the innermost scope that has it. -/
def lookup? : ScopeChain → String → Option Symbol
  | [], _ => none
  | scope :: outer, name =>
    match scope.symbols.get? name with
    | some symbol => some symbol
    | none => lookup? outer name

/-- The scopes that a look-up goes through. -/
def examined : ScopeChain → String → List Scope
  | [], _ => []
  | scope :: outer, name => if scope.has name then [scope] else scope :: examined outer name

/-- The innermost scope as text. -/
def headText : ScopeChain → Option String
  | [] => none
  | scope :: outer => some (scope.text (outer.head?.map Scope.name))

/-- All scopes as texts, the innermost one first. -/
def texts : ScopeChain → List String
  | [] => []
  | scope :: outer => scope.text (outer.head?.map Scope.name) :: texts outer

/-- A name is found exactly if some scope of the chain has it. -/
theorem lookup?_isSome_iff (chain : ScopeChain) (name : String) :
    (lookup? chain name).isSome = true ↔ ∃ scope ∈ chain, scope.has name = true := by
  induction chain with
  | nil => simp [lookup?]
  | cons scope outer ih =>
    cases h : scope.symbols.get? name with
    | none => simp [lookup?, h, Scope.has, ih]
    | some symbol => simp [lookup?, h, Scope.has]

end ScopeChain

end LittlePascal
