import LittlePascal.OrderedMap

/-! # Symbols

A symbol is what a name stands for: a built-in type, a variable with its type, or a procedure with
its parameters. Symbols are written in two styles; in the full style a built-in type has a plain form
for messages and a form of its own for tables. The series has a class for each kind of symbol, and its
`SymbolTable` is a `SymbolMap` here. -/

namespace LittlePascal

/-- What a name stands for. -/
inductive Symbol where
  | builtin (name : String)
  /-- A variable; its type is absent if the name of the type stood for nothing. -/
  | var (name : String) (type : Option Symbol)
  | procedure (name : String) (parameters : List Symbol)
  deriving Repr

/-- The styles in which symbols are written. -/
inductive SymbolStyle where
  | brief
  | full
  deriving DecidableEq, Repr

namespace Symbol

/-- The name of a symbol. -/
def name : Symbol → String
  | .builtin name => name
  | .var name _ => name
  | .procedure name _ => name

/-- The name of a built-in type. -/
def builtinName? : Symbol → Option String
  | .builtin name => some name
  | _ => none

/-- A built-in type in a table. -/
def builtinEntry (style : SymbolStyle) (name : String) : String :=
  match style with
  | .brief => name
  | .full => "<BuiltinTypeSymbol(name='" ++ name ++ "')>"

mutual

/-- A symbol in a message. -/
def text (style : SymbolStyle) : Symbol → String
  | .builtin name => name
  | .var name type =>
    match style with
    | .brief => "<" ++ name ++ ":" ++ typeText style type ++ ">"
    | .full => "<VarSymbol(name='" ++ name ++ "', type='" ++ typeText style type ++ "')>"
  | .procedure name parameters =>
    "<ProcedureSymbol(name=" ++ name ++ ", parameters=[" ++
      ", ".intercalate (entryTexts style parameters) ++ "])>"

/-- The type of a variable in a message. -/
def typeText (style : SymbolStyle) : Option Symbol → String
  | none => "None"
  | some type => type.text style

/-- Symbols in a table. -/
def entryTexts (style : SymbolStyle) : List Symbol → List String
  | [] => []
  | symbol :: rest =>
    (match symbol.builtinName? with
      | some name => builtinEntry style name
      | none => symbol.text style) :: entryTexts style rest

end

/-- A symbol in a table. -/
def entryText (style : SymbolStyle) (symbol : Symbol) : String :=
  match symbol.builtinName? with
  | some name => builtinEntry style name
  | none => symbol.text style

/-- The built-in types, in order. -/
def builtins : List Symbol := [.builtin "INTEGER", .builtin "REAL"]

end Symbol

/-- The symbols of one scope by name, in order of declaration. -/
abbrev SymbolMap := OrderedMap Symbol

namespace OrderedMap

/-- The map with a symbol entered under its own name. -/
def insertSymbol (m : SymbolMap) (symbol : Symbol) : SymbolMap := m.set symbol.name symbol

end OrderedMap

/-! ## Tables as text -/

namespace SymbolMap

/-- A text moved to the right until it is seven characters wide. -/
def padLeft (text : String) : String :=
  String.ofList (List.replicate (7 - text.length) ' ') ++ text

/-- One line of a table. -/
def lineText (entry : String × Symbol) : String :=
  padLeft entry.1 ++ ": " ++ entry.2.entryText .full

/-- The lines of a table. -/
def lines (m : SymbolMap) : List String := m.entries.map lineText

/-- A table in one line. -/
def briefText (m : SymbolMap) : String :=
  "Symbols: [" ++ ", ".intercalate (m.values.map (·.entryText .brief)) ++ "]"

/-- A table with a heading, and blank lines around it. -/
def fullText (m : SymbolMap) : String :=
  "\n".intercalate
    (["\n", "Symbol table contents", "_____________________"] ++ lines m ++ ["\n"])

/-- A table in either style. -/
def text (style : SymbolStyle) (m : SymbolMap) : String :=
  match style with
  | .brief => briefText m
  | .full => fullText m

end SymbolMap

end LittlePascal
