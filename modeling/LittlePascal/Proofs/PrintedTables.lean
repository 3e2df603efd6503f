import LittlePascal.Scope

/-! # Scopes on paper

A scope is written down under a heading, with its name, its level and the name of the scope around it, and with a
line for each of its names. Here this is said once more from beginning to end: what stands in each line, where the
lines break, and how each kind of symbol looks, without the forms that symbols have in messages.

Main definitions:
* `Symbol.shown`: a symbol behind its name;
* `SymbolMap.printedEntry`, `Scope.printed`: a line, and all of them.

Main statement: `Scope.text_eq_printed`. -/

namespace LittlePascal

mutual

/-- A symbol as it stands behind its name. A procedure shows its parameters in the same way. -/
def Symbol.shown : Symbol → String
  | .builtin name => "<BuiltinTypeSymbol(name='" ++ name ++ "')>"
  | .var name type => "<VarSymbol(name='" ++ name ++ "', type='" ++ Symbol.shownType type ++ "')>"
  | .procedure name parameters =>
    "<ProcedureSymbol(name=" ++ name ++ ", parameters=[" ++ ", ".intercalate (Symbol.shownAll parameters) ++ "])>"

/-- The type of a variable. A built-in type shows its name alone. -/
def Symbol.shownType : Option Symbol → String
  | none => "None"
  | some type => type.builtinName?.getD type.shown

/-- Symbols in order. -/
def Symbol.shownAll : List Symbol → List String
  | [] => []
  | symbol :: rest => symbol.shown :: Symbol.shownAll rest

end

/-- A line of a table: a name that ends in the seventh column if it is not longer, and its symbol. -/
def SymbolMap.printedEntry (entry : String × Symbol) : String :=
  String.ofList (entry.1.toList.leftpad 7 ' ') ++ ": " ++ entry.2.shown ++ "\n"

/-- A scope as it is written, with the name of the scope around it. -/
def Scope.printed (scope : Scope) (enclosing : Option String) : String :=
  "\n\nSCOPE (SCOPED SYMBOL TABLE)\n===========================\n" ++
    "Scope name     : " ++ scope.name ++ "\n" ++
    "Scope level    : " ++ scope.level.repr ++ "\n" ++
    "Enclosing scope: " ++ enclosing.getD "None" ++ "\n" ++
    "Scope (Scoped symbol table) contents\n------------------------------------\n" ++
    String.join (scope.symbols.entries.map SymbolMap.printedEntry) ++ "\n"

/-! ## That is what is written -/

namespace Symbol

mutual

/-- A symbol in a table is what is shown behind its name. -/
theorem entryText_eq_shown : ∀ symbol : Symbol, symbol.entryText .full = symbol.shown
  | .builtin name => by
    unfold entryText builtinName? builtinEntry shown
    dsimp only
  | .var name type => by
    unfold entryText builtinName? text shown
    simp only [typeText_eq_shownType type]
  | .procedure name parameters => by
    unfold entryText builtinName? text shown
    simp only [entryTexts_eq_shownAll parameters]

/-- The type of a variable is what is shown of it. -/
theorem typeText_eq_shownType : ∀ type : Option Symbol, typeText .full type = shownType type
  | none => by rw [typeText, shownType]
  | some (.builtin name) => by
    rw [typeText, shownType]
    unfold text
    rfl
  | some (.var name type) => by
    rw [typeText, shownType, ← entryText_eq_shown (.var name type)]
    rfl
  | some (.procedure name parameters) => by
    rw [typeText, shownType, ← entryText_eq_shown (.procedure name parameters)]
    rfl

/-- Symbols in order are shown one by one. -/
theorem entryTexts_eq_shownAll : ∀ symbols : List Symbol, entryTexts .full symbols = shownAll symbols
  | [] => by rw [entryTexts, shownAll]
  | symbol :: rest => by
    rw [entryTexts, shownAll, ← entryText_eq_shown symbol, entryTexts_eq_shownAll rest, entryText]

end

end Symbol

/-- Lines with breaks between them, and one more behind the last of them. -/
theorem intercalate_lines (lines : List String) :
    "\n".intercalate (lines ++ ["\n"]) = String.join (lines.map (· ++ "\n")) ++ "\n" := by
  induction lines with
  | nil => rfl
  | cons line rest ih =>
    rw [List.cons_append, String.intercalate_cons_of_ne_nil (by simp), ih, List.map_cons, String.join_cons,
      ← String.append_assoc]

/-- A scope is written from beginning to end as it is said above. -/
theorem Scope.text_eq_printed (scope : Scope) (enclosing : Option String) :
    scope.text enclosing = scope.printed enclosing := by
  have entry : (fun entry => SymbolMap.lineText entry ++ "\n") = SymbolMap.printedEntry := by
    funext entry
    rw [SymbolMap.lineText, SymbolMap.printedEntry, SymbolMap.padLeft, Symbol.entryText_eq_shown, List.leftpad,
      String.ofList_append, String.ofList_toList, String.length_toList]
  have heading : "\n\nSCOPE (SCOPED SYMBOL TABLE)\n===========================\n" =
      "\n" ++ "\n" ++ "SCOPE (SCOPED SYMBOL TABLE)" ++ "\n" ++ "===========================" ++ "\n" := by decide
  have contents : "Scope (Scoped symbol table) contents\n------------------------------------\n" =
      "Scope (Scoped symbol table) contents" ++ "\n" ++ "------------------------------------" ++ "\n" := by decide
  unfold text printed SymbolMap.lines
  rw [intercalate_lines, List.map_append, List.map_map, String.join_append, ← entry, heading, contents]
  simp only [List.map_cons, List.map_nil, String.join_cons, String.join_nil, String.append_assoc, String.empty_append,
    Function.comp_def]

end LittlePascal
