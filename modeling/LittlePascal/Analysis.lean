import LittlePascal.Analysis.Flat
import LittlePascal.Analysis.Scoped

/-! # The analyses

An `Analysis` is one of the three ways to check names. A `Survey` is what an analysis has found so
far: a table or the open scopes, with the lines written. One survey can go through any number of
trees. How deep the stack of a machine may grow is left out: no tree is too deep to be analysed. -/

namespace LittlePascal

/-- The ways to check names. -/
inductive Analysis where
  /-- Every variable is declared. -/
  | declared
  /-- One table; a name declared twice is refused if that is checked. -/
  | flat (checksTwice : Bool)
  /-- Nested scopes. -/
  | scoped (rules : ScopeRules)
  deriving DecidableEq, Repr

/-- What an analysis has found so far. -/
inductive Survey where
  | table (state : TableState)
  | scopes (state : ScopeState)

namespace Survey

/-- The lines written. -/
def log : Survey → Array String
  | .table state => state.log
  | .scopes state => state.log

/-- The survey with no lines written yet. -/
def withoutLog : Survey → Survey
  | .table state => .table { state with log := #[] }
  | .scopes state => .scopes { state with log := #[] }

/-- Work on a table, as work on a survey. -/
def onTable {α : Type} (work : TableWork α) : EStateM Fault Survey α := fun survey =>
  let state := match survey with
    | .table state => state
    | .scopes state => ⟨.empty, state.log⟩
  match work state with
  | .ok a state => .ok a (.table state)
  | .error fault state => .error fault (.table state)

/-- Work on scopes, as work on a survey. -/
def onScopes {α : Type} (work : ScopeWork α) : EStateM Fault Survey α := fun survey =>
  let state := match survey with
    | .table state => ⟨[], state.log⟩
    | .scopes state => state
  match work state with
  | .ok a state => .ok a (.scopes state)
  | .error fault state => .error fault (.scopes state)

end Survey

namespace Analysis

/-- How symbols are written in an analysis. -/
def style : Analysis → SymbolStyle
  | .declared => .brief
  | _ => .full

/-- The survey before the first tree. The tables of the first two analyses hold the built-in types
from the start. -/
def initial : Analysis → Survey
  | .declared => .table (run Declared.initial)
  | .flat _ => .table (run Flat.initial)
  | .scoped _ => .scopes ⟨[], #[]⟩
where
  /-- The table that some work leaves behind. -/
  run (work : TableWork Unit) : TableState :=
    match work ⟨.empty, #[]⟩ with
    | .ok _ state => state
    | .error _ state => state

/-- A node is analysed. -/
def node (a : Analysis) (n : Node) : EStateM Fault Survey Unit :=
  match a with
  | .declared => Survey.onTable (Declared.node n)
  | .flat checksTwice => Survey.onTable (Flat.node checksTwice n)
  | .scoped rules => Survey.onScopes (Scoped.node rules n)

/-- A fragment is analysed: a list of nodes cannot be. -/
def fragment (a : Analysis) : Fragment → EStateM Fault Survey Unit
  | .node n => a.node n
  | .list nodes => throw (.unhandled (Fragment.list nodes).className)

/-- The tables of a survey as texts: the one table, or the open scopes from the innermost one
outwards. -/
def tableTexts (a : Analysis) : Survey → List String
  | .table state => [SymbolMap.text a.style state.symbols]
  | .scopes state => ScopeChain.texts state.chain

end Analysis

end LittlePascal
