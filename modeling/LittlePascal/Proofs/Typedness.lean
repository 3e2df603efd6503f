import LittlePascal.Proofs.Actions
import LittlePascal.Proofs.SessionScopes
import LittlePascal.Proofs.Rendering
import LittlePascal.Proofs.Tracking

/-! # Variables have the types that they are declared with

The analysis of scopes looks the type of a variable up by its name. It always finds the built-in type: a type is a
reserved word, so no name that is entered hides it, and the scope of every program has the built-in types. The
scopes that failed analyses have left open make no difference.

Main definitions:
* `Program.bound`: the variables and parameters that a program declares, at any depth;
* `Binding.SpelledIn`: a declaration as it stands in a text;
* `ScopeChain.Typed`: nested scopes whose variables are all declared ones;
* `Scoped.Action.apply`, `Scoped.replay`: what actions make of nested scopes, without look-ups.

Main statements:
* `Scoped.Action.perform_makes`: what an action does, whether it fails or not;
* `Scoped.Action.apply_typed`: what it keeps;
* `Scoped.Passes.exists_replay`: what holds of all states that are passed through;
* `variables_typed_as_declared`: the variables in a session. -/

namespace LittlePascal

/-! ## Declarations and what they declare -/

namespace Decl

mutual

/-- The variables and parameters that a declaration gives names to, at any depth. -/
def bound : Decl → List Binding
  | .var binding => [binding]
  | .procedure _ parameters declarations _ => parameters ++ boundAll declarations

/-- The variables and parameters of declarations, in order. -/
def boundAll : List Decl → List Binding
  | [] => []
  | declaration :: rest => bound declaration ++ boundAll rest

end

theorem boundAll_append (first second : List Decl) :
    boundAll (first ++ second) = boundAll first ++ boundAll second := by
  induction first with
  | nil => rfl
  | cons d rest ih => rw [List.cons_append, boundAll, boundAll, ih, List.append_assoc]

theorem boundAll_map_var (bindings : List Binding) : boundAll (bindings.map .var) = bindings := by
  induction bindings with
  | nil => rfl
  | cons b rest ih => rw [List.map_cons, boundAll, bound, ih, List.singleton_append]

end Decl

/-- The variables and parameters of a program, at any depth. -/
def Program.bound (p : Program) : List Binding := Decl.boundAll p.block.declarations

/-- A word stands in a text at a place. -/
def Place.HasWord (place : Place) (text word : List Char) : Prop :=
  ∃ pos, place.IsAt text pos ∧ word <+: text.drop pos

/-- A declaration in a text: its name stands at one place and, in letters of any case, its type at another. -/
def Binding.SpelledIn (binding : Binding) (text : String) : Prop :=
  binding.id.place.HasWord text.toList binding.id.name.toList ∧
    ∃ word, Text.capitals word = binding.type.type.name.toList ∧
      binding.type.place.HasWord text.toList word

/-- A scope holds a variable with this type: under its own name, or as a parameter of a procedure. -/
def Scope.HoldsVariable (scope : Scope) (x : String) (type : Option Symbol) : Prop :=
  ∃ symbol ∈ scope.symbols.values, symbol = .var x type ∨
    ∃ p parameters, symbol = .procedure p parameters ∧ .var x type ∈ parameters

/-! ## Scopes whose variables are declared ones -/

/-- What a name of a scope may stand for: a type under its own name or, under a name that is not that of a type, a
declared variable or a procedure whose parameters are declared ones. -/
def Symbol.DeclaredAs (bindings : List Binding) (name : String) : Symbol → Prop
  | .builtin type => type = name
  | .var x type => Scoped.Ordinary name ∧ .var x type ∈ bindings.map Binding.symbol
  | .procedure _ parameters => Scoped.Ordinary name ∧ ∀ s ∈ parameters, s ∈ bindings.map Binding.symbol

/-- Nested scopes whose variables are all declared ones, and from each of which the types are found. -/
inductive ScopeChain.Typed (bindings : List Binding) : ScopeChain → Prop where
  | nil : Typed bindings []
  | cons {scope : Scope} {outer : ScopeChain} :
      (∀ entry ∈ scope.symbols.entries, entry.2.DeclaredAs bindings entry.1) →
      (∀ t : BaseType, lookup? (scope :: outer) t.name = some (.builtin t.name)) →
      Typed bindings outer → Typed bindings (scope :: outer)

/-- An entry of a map with a new value is the new one or an old one. -/
theorem OrderedMap.mem_entries_set {α : Type} {m : OrderedMap α} {name : String} {value : α}
    {entry : String × α} (member : entry ∈ (m.set name value).entries) :
    entry = (name, value) ∨ entry ∈ m.entries := by
  have all : ∀ entries : List (String × α), entry ∈ setEntry name value entries →
      entry = (name, value) ∨ entry ∈ entries := by
    intro entries
    induction entries with
    | nil => simp [setEntry]
    | cons first rest ih =>
      rw [setEntry]
      split
      · grind
      · grind
  exact all _ member

namespace ScopeChain.Typed

variable {bindings more : List Binding} {scope inner : Scope} {outer : ScopeChain}

/-- There may be more declarations than those of the variables. -/
theorem mono {chain : ScopeChain} (h : Typed bindings chain) (within : ∀ b ∈ bindings, b ∈ more) :
    Typed more chain := by
  induction h with
  | nil => exact .nil
  | cons held types _ ih =>
    refine .cons (fun entry member => ?_) types ih
    have declared := held entry member
    have within : ∀ s ∈ bindings.map Binding.symbol, s ∈ more.map Binding.symbol :=
      fun s member => List.map_subset _ within member
    revert declared
    cases entry.2 with
    | builtin _ => exact id
    | var _ _ => exact fun declared => ⟨declared.1, within _ declared.2⟩
    | procedure _ _ => exact fun declared => ⟨declared.1, fun s member => within s (declared.2 s member)⟩

/-- A symbol is entered into the innermost scope. -/
theorem insert {symbol : Symbol} (h : Typed bindings (scope :: outer)) (ordinary : Scoped.Ordinary symbol.name)
    (declared : symbol.DeclaredAs bindings symbol.name) : Typed bindings (scope.insert symbol :: outer) := by
  cases h with
  | cons held types around =>
    refine .cons (fun entry member => ?_) (fun t => ?_) around
    · rcases OrderedMap.mem_entries_set member with rfl | member
      · exact declared
      · exact held entry member
    · have other : t.name ≠ symbol.name := fun same => Scoped.not_ordinary_type t (same ▸ ordinary)
      rw [← types t]
      simp [lookup?, Scope.insert, OrderedMap.insertSymbol, other]

/-- A symbol is entered into the scope around the innermost one. -/
theorem insert_around {symbol : Symbol} (h : Typed bindings (inner :: scope :: outer))
    (ordinary : Scoped.Ordinary symbol.name) (declared : symbol.DeclaredAs bindings symbol.name) :
    Typed bindings (inner :: scope.insert symbol :: outer) := by
  cases h with
  | cons held types around =>
    refine .cons held (fun t => ?_) (around.insert ordinary declared)
    have other : t.name ≠ symbol.name := fun same => Scoped.not_ordinary_type t (same ▸ ordinary)
    rw [Scoped.lookup?_insert_around other, types]

/-- A scope is opened inside of others. -/
theorem enter (h : Typed bindings (scope :: outer)) (name : String) (level : Nat) :
    Typed bindings (.opened name level :: scope :: outer) := by
  refine .cons (by rintro entry ⟨⟩) (fun t => ?_) h
  cases h with
  | cons _ types _ => exact types t

/-- The scope of a program is opened. -/
theorem begin (h : Typed bindings outer) :
    Typed bindings ((Scope.opened "global" 1).declare Symbol.builtins :: outer) := by
  refine .cons (fun entry member => ?_) (fun t => by cases t <;> rfl) h
  have all : entry = ("INTEGER", .builtin "INTEGER") ∨ entry = ("REAL", .builtin "REAL") := by
    simpa [Scope.opened, Scope.declare, Scope.insert, Symbol.builtins, OrderedMap.insertSymbol, OrderedMap.set,
      OrderedMap.setEntry, OrderedMap.empty, Symbol.name] using member
  rcases all with rfl | rfl <;> rfl

/-- The variables in the scopes around the innermost one are declared ones. -/
theorem tail (h : Typed bindings (scope :: outer)) : Typed bindings outer := by
  cases h with
  | cons _ _ around => exact around

/-- The parameters of a procedure are declared ones. -/
theorem parameters (h : Typed bindings (scope :: outer)) (p : String) :
    ∀ s ∈ scope.parameters p, s ∈ bindings.map Binding.symbol := by
  cases h with
  | cons held _ _ =>
    rw [Scope.parameters]
    split
    · rename_i found
      obtain ⟨before, after, same, _⟩ := List.lookup_eq_some_iff.mp found
      have declared := held _ (by rw [same]; exact List.mem_append_right _ List.mem_cons_self)
      exact declared.2
    · simp

end ScopeChain.Typed

/-! ## What actions do -/

namespace Scoped

variable {rules : ScopeRules} {st : ScopeState} {bindings : List Binding}

/-- What an action makes of the open scopes when it succeeds. A variable or a parameter is entered with the type that
it is declared with; nothing is looked up. -/
def Action.apply (chain : ScopeChain) : Action → ScopeChain
  | .begin => (Scope.opened "global" 1).declare Symbol.builtins :: chain
  | .procedure name => chain.modifyHead (·.insert (.procedure name []))
  | .enter name => chain.head?.toList.map (fun scope => .opened name (scope.level + 1)) ++ chain
  | .parameter p binding => (chain.modifyHead (·.insert binding.symbol)).modify 1 fun around =>
      around.insert (.procedure p (around.parameters p ++ [binding.symbol]))
  | .declare binding => chain.modifyHead (·.insert binding.symbol)
  | .use _ => chain
  | .pass _ => chain
  | .close _ => chain.tail

/-- What actions make of the open scopes, one after the other. -/
def replay (actions : List Action) (chain : ScopeChain) : ScopeChain := actions.foldl Action.apply chain

/-- Work that succeeds makes one chain of scopes another one, and leaves it as it is otherwise. -/
def Makes {α : Type} (chain next : ScopeChain) (outcome : EStateM.Result Fault ScopeState α) : Prop :=
  match outcome with
  | .ok _ st => st.chain = next
  | .error _ st => st.chain = chain

/-- Work that only looks names up makes nothing. -/
theorem Makes.of_looks {α : Type} {outcome : EStateM.Result Fault ScopeState α} (looks : st.Looks outcome) :
    Makes st.chain st.chain outcome := by
  cases outcome with
  | ok a st' => exact looks.1
  | error fault st' => exact looks.1

/-- The scope of a program is opened with the built-in types. -/
theorem beginning_declares (st : ScopeState) :
    ∃ log, beginning rules st =
      .ok () ⟨(Scope.opened "global" 1).declare Symbol.builtins :: st.chain, log⟩ := by
  let fresh : Scope := .opened "global" 1
  let first : Scope := fresh.insert (.builtin "INTEGER")
  obtain ⟨log, entering⟩ := @enter_ok rules "global" 1 st
  obtain ⟨log₁, inserted⟩ :=
    @insert_ok rules ⟨fresh :: st.chain, log⟩ fresh st.chain (.builtin "INTEGER") rfl
  obtain ⟨log₂, inserted'⟩ :=
    @insert_ok rules ⟨first :: st.chain, log₁⟩ first st.chain (.builtin "REAL") rfl
  refine ⟨log₂, (Work.bind_of_ok entering).trans ?_⟩
  exact (Work.bind_of_ok inserted).trans (Work.bind_of_ok inserted')

section Entries

variable {scope : Scope} {outer : ScopeChain} {log : Array String} {binding : Binding}

/-- A parameter is entered with its declared type, and becomes known to its procedure. -/
theorem parameter_makes (p : String)
    (types : ∀ t : BaseType, ScopeChain.lookup? (scope :: outer) t.name = some (.builtin t.name)) :
    Makes (scope :: outer) ((Action.parameter p binding).apply (scope :: outer))
      ((Action.parameter p binding).perform rules ⟨scope :: outer, log⟩) := by
  obtain ⟨log₁, found⟩ := @lookup_ok rules ⟨scope :: outer, log⟩ scope outer binding.type.type.name rfl
  rw [types] at found
  obtain ⟨log₂, entered⟩ := @insert_ok rules ⟨scope :: outer, log₁⟩ scope outer binding.symbol rfl
  have made : parameter rules binding ⟨scope :: outer, log⟩ =
      .ok binding.symbol ⟨scope.insert binding.symbol :: outer, log₂⟩ :=
    (Work.bind_of_ok found).trans (Work.bind_of_ok entered)
  rw [Action.perform, Work.bind_of_ok made]
  cases outer with
  | nil => rfl
  | cons around outer => rfl

/-- A variable is entered with its declared type, if its name is new. -/
theorem localVariable_makes
    (types : ∀ t : BaseType, ScopeChain.lookup? (scope :: outer) t.name = some (.builtin t.name)) :
    Makes (scope :: outer) (scope.insert binding.symbol :: outer)
      (localVariable rules binding ⟨scope :: outer, log⟩) := by
  obtain ⟨log₁, found⟩ := @lookup_ok rules ⟨scope :: outer, log⟩ scope outer binding.type.type.name rfl
  obtain ⟨log₂, met⟩ := @lookupHere_ok rules ⟨scope :: outer, log₁⟩ scope outer binding.id.name rfl
  obtain ⟨log₃, entered⟩ := @insert_ok rules ⟨scope :: outer, log₂⟩ scope outer binding.symbol rfl
  rw [types] at found
  rw [localVariable, Work.bind_of_ok found, Work.bind_of_ok met]
  split
  · rfl
  · have made : Makes (scope :: outer) (scope.insert binding.symbol :: outer)
        (insert rules binding.symbol ⟨scope :: outer, log₂⟩) := by
      rw [entered]
      rfl
    exact made

end Entries

/-- An action that succeeds makes of the open scopes what it should, and one that fails makes nothing. -/
theorem Action.perform_makes (action : Action) (typed : ScopeChain.Typed bindings st.chain) :
    Makes st.chain (action.apply st.chain) (action.perform rules st) := by
  obtain ⟨chain, log⟩ := st
  cases action with
  | begin =>
    obtain ⟨log', begun⟩ := @beginning_declares rules ⟨chain, log⟩
    rw [perform, begun]
    rfl
  | procedure name =>
    cases chain with
    | nil => rfl
    | cons scope outer =>
      obtain ⟨log', inserted⟩ := @insert_ok rules ⟨scope :: outer, log⟩ scope outer (.procedure name []) rfl
      rw [perform, inserted]
      rfl
  | enter name =>
    cases chain with
    | nil => rfl
    | cons scope outer =>
      obtain ⟨log', entered⟩ := @enter_ok rules name (scope.level + 1) ⟨scope :: outer, log⟩
      rw [perform, Work.bind_of_ok (level_ok rfl), entered]
      rfl
  | parameter p binding =>
    cases typed with
    | nil => rfl
    | cons _ types _ => exact parameter_makes p types
  | declare binding =>
    cases typed with
    | nil => rfl
    | cons _ types _ => exact localVariable_makes types
  | use id => exact .of_looks (use_looks id _)
  | pass e => exact .of_looks (expr_looks e _)
  | close name =>
    cases chain with
    | nil =>
      obtain ⟨log', written⟩ := @write_ok rules ("LEAVE scope: " ++ name) ⟨[], log⟩
      have closed : Scoped.close rules name ⟨[], log⟩ = .ok () ⟨[], log'⟩ := written
      rw [perform, closed]
      rfl
    | cons scope outer =>
      obtain ⟨log', closed⟩ := @close_ok rules ⟨scope :: outer, log⟩ scope outer name rfl
      rw [perform, closed]
      rfl

/-! ## What actions keep -/

/-- An action that gives names to declared variables and parameters, and to procedures, none of them that of a
type. -/
def Action.Gives (bindings : List Binding) : Action → Prop
  | .procedure name => Ordinary name
  | .parameter p binding => Ordinary p ∧ Ordinary binding.id.name ∧ binding ∈ bindings
  | .declare binding => Ordinary binding.id.name ∧ binding ∈ bindings
  | _ => True

/-- The symbol of a declared variable stands under its name. -/
theorem declaredAs_symbol {binding : Binding} (ordinary : Ordinary binding.id.name)
    (member : binding ∈ bindings) : binding.symbol.DeclaredAs bindings binding.symbol.name :=
  ⟨ordinary, List.mem_map_of_mem member⟩

/-- After an action the variables in the open scopes are declared ones. -/
theorem Action.apply_typed {action : Action} {chain : ScopeChain} (gives : action.Gives bindings)
    (typed : ScopeChain.Typed bindings chain) : ScopeChain.Typed bindings (action.apply chain) := by
  cases action with
  | begin => exact typed.begin
  | procedure name =>
    cases chain with
    | nil => exact typed
    | cons scope outer => exact typed.insert gives ⟨gives, by simp⟩
  | enter name =>
    cases chain with
    | nil => exact typed
    | cons scope outer => exact typed.enter name _
  | parameter p binding =>
    obtain ⟨ordinary, ordinary', member⟩ := gives
    cases chain with
    | nil => exact typed
    | cons scope outer =>
      have typed' : ScopeChain.Typed bindings (scope.insert binding.symbol :: outer) :=
        typed.insert ordinary' (declaredAs_symbol ordinary' member)
      cases outer with
      | nil => exact typed'
      | cons around outer =>
        -- the procedure is entered once more with one parameter more than it had
        refine typed'.insert_around ordinary ⟨ordinary, fun s known => ?_⟩
        rcases List.mem_append.mp known with known | last
        · exact typed.tail.parameters p s known
        · rw [List.mem_singleton.mp last]
          exact List.mem_map_of_mem member
  | declare binding =>
    cases chain with
    | nil => exact typed
    | cons scope outer => exact typed.insert gives.1 (declaredAs_symbol gives.1 gives.2)
  | use id => exact typed
  | pass e => exact typed
  | close name =>
    cases chain with
    | nil => exact typed
    | cons scope outer => exact typed.tail

/-- An action that succeeds makes of the open scopes what it should, and their variables are declared ones. -/
theorem Action.perform_ok {action : Action} {a : Unit} {st' : ScopeState} (gives : action.Gives bindings)
    (typed : ScopeChain.Typed bindings st.chain) (done : action.perform rules st = .ok a st') :
    st'.chain = action.apply st.chain ∧ ScopeChain.Typed bindings st'.chain := by
  have made := @perform_makes rules st bindings action typed
  rw [done] at made
  have made : st'.chain = action.apply st.chain := made
  rw [made]
  exact ⟨rfl, apply_typed gives typed⟩

/-- After actions the variables in the open scopes are declared ones. -/
theorem replay_typed {actions : List Action} {chain : ScopeChain}
    (gives : ∀ action ∈ actions, action.Gives bindings) (typed : ScopeChain.Typed bindings chain) :
    ScopeChain.Typed bindings (replay actions chain) := by
  induction actions generalizing chain with
  | nil => exact typed
  | cons action rest ih =>
    obtain ⟨first, later⟩ := List.forall_mem_cons.mp gives
    exact ih later (Action.apply_typed first typed)

/-- Actions that all succeed have made the open scopes what they are. -/
theorem replay_of_ok {actions : List Action} (gives : ∀ action ∈ actions, action.Gives bindings)
    (typed : ScopeChain.Typed bindings st.chain) {st' : ScopeState}
    (done : performAll rules actions st = .ok () st') : st'.chain = replay actions st.chain := by
  induction actions generalizing st with
  | nil =>
    cases done
    rfl
  | cons action rest ih =>
    obtain ⟨first, later⟩ := List.forall_mem_cons.mp gives
    obtain ⟨_, st₁, one, others⟩ := Work.bind_eq_ok.mp done
    obtain ⟨made, typed'⟩ := Action.perform_ok first typed one
    rw [ih later typed' others, made]
    rfl

/-- If an action fails, those before it have made the open scopes what they are. -/
theorem exists_replay_of_error {actions : List Action} (gives : ∀ action ∈ actions, action.Gives bindings)
    (typed : ScopeChain.Typed bindings st.chain) {fault : Fault} {st' : ScopeState}
    (failed : performAll rules actions st = .error fault st') :
    ∃ performed, performed <+: actions ∧ st'.chain = replay performed st.chain := by
  induction actions generalizing st with
  | nil => cases failed
  | cons action rest ih =>
    obtain ⟨first, later⟩ := List.forall_mem_cons.mp gives
    rw [performAll_cons] at failed
    cases outcome : action.perform rules st with
    | ok _ st₁ =>
      rw [Work.bind_of_ok outcome] at failed
      obtain ⟨made, typed'⟩ := Action.perform_ok first typed outcome
      obtain ⟨performed, within, same⟩ := ih later typed' failed
      refine ⟨action :: performed, List.cons_prefix_cons.mpr ⟨rfl, within⟩, ?_⟩
      rw [same, made]
      rfl
    | error fault' st₁ =>
      rw [Work.bind_of_error outcome] at failed
      cases failed
      -- this is the action that fails, and it changes no scope
      have made := @Action.perform_makes rules st bindings action typed
      rw [outcome] at made
      exact ⟨[], List.nil_prefix, made⟩

/-- In a state that actions pass through, some of them have made the open scopes what they are. -/
theorem Passes.exists_replay {actions : List Action} {st' : ScopeState} (h : Passes rules actions st st')
    (gives : ∀ action ∈ actions, action.Gives bindings) (typed : ScopeChain.Typed bindings st.chain) :
    ∃ performed, performed <+: actions ∧ st'.chain = replay performed st.chain ∧
      ScopeChain.Typed bindings st'.chain := by
  obtain ⟨before, first, reached⟩ := h
  -- of the actions up to this state all were performed, or all before the one that failed
  have gives' : ∀ action ∈ before, action.Gives bindings := fun action member => gives action (first.subset member)
  obtain ⟨performed, within, same⟩ : ∃ performed, performed <+: before ∧ st'.chain = replay performed st.chain := by
    rcases reached with done | ⟨fault, failed⟩
    · exact ⟨before, List.prefix_rfl, replay_of_ok gives' typed done⟩
    · exact exists_replay_of_error gives' typed failed
  refine ⟨performed, within.trans first, same, ?_⟩
  rw [same]
  exact replay_typed (fun action member => gives' action (within.subset member)) typed

/-! ## The actions of a program give names to what it declares -/

/-- There may be more declarations than those that are given names to. -/
theorem Action.Gives.mono {action : Action} {more : List Binding} (h : action.Gives bindings)
    (within : ∀ b ∈ bindings, b ∈ more) : action.Gives more := by
  cases action with
  | parameter p binding => exact ⟨h.1, h.2.1, within _ h.2.2⟩
  | declare binding => exact ⟨h.1, within _ h.2⟩
  | _ => exact h

end Scoped

open Scoped (Action Ordinary)

section Gives

variable {bindings : List Binding}

/-- An expression gives no names. -/
theorem Expr.actions_give (e : Expr) : ∀ action ∈ e.actions, action.Gives bindings := by
  induction e with
  | binary _ _ left right left_ih right_ih => exact List.forall_mem_append.mpr ⟨left_ih, right_ih⟩
  | _ => exact List.forall_mem_singleton.mpr trivial

mutual

/-- A statement gives no names. -/
theorem Stmt.actions_give : (s : Stmt) → ∀ action ∈ s.actions, action.Gives bindings
  | .compound children => Stmt.actionsAll_give children
  | .assign _ _ value => by
    rw [Stmt.actions]
    exact List.forall_mem_append.mpr ⟨value.actions_give, List.forall_mem_singleton.mpr trivial⟩
  | .call _ arguments => by
    rw [Stmt.actions]
    intro action member
    obtain ⟨e, _, member⟩ := List.mem_flatMap.mp member
    exact e.actions_give action member
  | .empty => by simp [Stmt.actions]

/-- Statements give no names. -/
theorem Stmt.actionsAll_give : (body : List Stmt) → ∀ action ∈ Stmt.actionsAll body, action.Gives bindings
  | [] => by simp [Stmt.actionsAll]
  | s :: rest => List.forall_mem_append.mpr ⟨s.actions_give, Stmt.actionsAll_give rest⟩

end

end Gives

/-- Declarations give names to what they declare. -/
theorem Decl.actionsAll_give {ds : List Decl} (named : Decl.AllNamed Ordinary ds) :
    ∀ action ∈ Decl.actionsAll ds, action.Gives (Decl.boundAll ds) := by
  induction named with
  | nil => simp [Decl.actionsAll]
  | @var binding rest proper _ ih =>
    rw [Decl.actionsAll, Decl.actions, Decl.boundAll, Decl.bound]
    refine List.forall_mem_append.mpr ⟨List.forall_mem_singleton.mpr ⟨proper, by simp⟩, ?_⟩
    exact fun action member => (ih action member).mono fun b => List.mem_append_right _
  | @procedure p parameters inner rest body proper proper' _ _ inner_ih rest_ih =>
    rw [Decl.actionsAll, Decl.actions, Decl.boundAll, Decl.bound]
    refine List.forall_mem_append.mpr ⟨List.forall_mem_cons.mpr ⟨proper, List.forall_mem_cons.mpr ⟨trivial, ?_⟩⟩,
      fun action member => (rest_ih action member).mono fun b => List.mem_append_right _⟩
    refine List.forall_mem_append.mpr ⟨?_, List.forall_mem_append.mpr ⟨?_, List.forall_mem_append.mpr
      ⟨Stmt.actionsAll_give body, List.forall_mem_singleton.mpr trivial⟩⟩⟩
    · intro action member
      obtain ⟨binding, among, rfl⟩ := List.mem_map.mp member
      exact ⟨proper, proper' binding among, by simp [among]⟩
    · intro action member
      refine (inner_ih action member).mono fun b among => ?_
      simp [among]

/-- A program gives names to what it declares. -/
theorem Program.actions_give {p : Program} (named : Decl.AllNamed Ordinary p.block.declarations) :
    ∀ action ∈ p.actions, action.Gives p.bound :=
  List.forall_mem_cons.mpr ⟨trivial, List.forall_mem_append.mpr ⟨Decl.actionsAll_give named,
    List.forall_mem_append.mpr ⟨Stmt.actionsAll_give _, List.forall_mem_singleton.mpr trivial⟩⟩⟩

/-! ## Declarations in a text -/

/-- A lexeme as it is written at a place of a text. -/
def Lexis.WrittenAt (lx : Lexis) (text : List Char) (l : Lexeme) (place : Place) : Prop :=
  ∃ word more, lx.Writes word l more ∧ place.HasWord text word

/-- A lexeme that is read behind part of a text is written there, and the cursor goes on in the text. -/
theorem Lexis.Full.writtenAt {lx : Lexis} (full : lx.Full) {c d : Cursor} {text : List Char} {t : Token}
    (tracks : c.Tracks text) (read : lx.token c = .ok t d) :
    d.Tracks text ∧ ∀ l place, t = .lexeme l place → lx.WrittenAt text l place := by
  constructor
  · obtain ⟨n, _, moved⟩ := full.passes_token c
    rw [read] at moved
    rw [show d = _ from moved]
    exact tracks.advanceBy n
  · rintro l place rfl
    obtain ⟨layout, word, more, split, _, written, some, rfl⟩ := full.exists_written read
    -- the place is where the word begins, behind the layout
    have there := tracks.advanceBy layout.length
    have left : (c.advanceBy layout.length).rest = word ++ d.rest := by
      rw [Cursor.advanceBy_rest, split, List.drop_left]
    obtain ⟨x, chars, cons⟩ := List.exists_cons_of_ne_nil some
    have begins : (c.advanceBy layout.length).rest = x :: (chars ++ d.rest) := by
      rw [left, cons, List.cons_append]
    exact ⟨word, more, written, _, there.place_isAt (there.pos_lt begins), d.rest, by rw [← left, there.rest]⟩

/-- The lexemes of a text are written at their places. -/
theorem Lexis.Reads.writtenAt {lx : Lexis} (full : lx.Full) {text : String} {ms : List Mark}
    (h : lx.Reads text ms) : ∀ m ∈ ms, lx.WrittenAt text.toList m.lexeme m.place := by
  obtain ⟨r, s, opened, passage, -⟩ := h
  -- that the cursor is in this text is what the induction along the passage carries
  have first := full.writtenAt (.start text.toList) (openReading_eq_ok.mp opened).2
  clear opened
  induction passage with
  | nil r => simp
  | @cons m ms r s t token _ next _ ih =>
    exact List.forall_mem_cons.mpr ⟨first.2 _ _ token, ih (full.writtenAt first.1 (Parse.next_ok next))⟩

/-- A reserved word is written in letters of any case. -/
theorem Edition.capitals_of_writes {word : List Char} {more : Char → Bool} {r : Reserved}
    (h : Edition.calls.lexis.Writes word (.reserved r) more) : Text.capitals word = r.spelling.toList := by
  generalize same : Lexeme.reserved r = l at h
  cases h with
  | @word x word letter chars =>
    by_cases reserved : ∃ l : Lexeme, l.isReserved = true ∧ Text.capitals (x :: word) = l.spelling.toList
    · obtain ⟨l, isReserved, spelled⟩ := reserved
      rw [wordLexeme_reserved isReserved spelled] at same
      rw [spelled, ← same]
      rfl
    · rw [wordLexeme_name fun l isReserved spelled => reserved ⟨l, isReserved, spelled⟩] at same
      cases same
  | @mark x l marked =>
    have marked : Edition.calls.mark x = some l := marked
    have all : markChars.all (fun x => (Edition.calls.mark x).all (·.isReserved = false)) = true := by decide
    have other := List.all_eq_true.mp all x (mem_markChars marked)
    rw [marked, ← same] at other
    cases other
  | _ => cases same

/-- A name is written as it is. -/
theorem Edition.word_of_writes {word : List Char} {more : Char → Bool} {s : String}
    (h : Edition.calls.lexis.Writes word (.name s) more) : word = s.toList := by
  generalize same : Lexeme.name s = l at h
  cases h with
  | @word x word letter chars =>
    by_cases reserved : ∃ l : Lexeme, l.isReserved = true ∧ Text.capitals (x :: word) = l.spelling.toList
    · obtain ⟨l, isReserved, spelled⟩ := reserved
      rw [wordLexeme_reserved isReserved spelled] at same
      rw [← same] at isReserved
      cases isReserved
    · rw [wordLexeme_name fun l isReserved spelled => reserved ⟨l, isReserved, spelled⟩] at same
      cases same
      rw [String.toList_ofList]
  | @mark x l marked =>
    have marked : Edition.calls.mark x = some l := marked
    exact absurd (same ▸ marked) (mark_ne_name s)
  | _ => cases same

/-- The name and the type of a binding are among the marks. -/
def Binding.MarkedBy (b : Binding) (ms : List Mark) : Prop :=
  (∃ m ∈ ms, m.lexeme = .name b.id.name ∧ m.place = b.id.place) ∧
    ∃ m ∈ ms, m.lexeme = .reserved b.type.type.word ∧ m.place = b.type.place

/-- They are among more marks as well. -/
theorem Binding.MarkedBy.mono {b : Binding} {ms ns : List Mark} (h : b.MarkedBy ms) (within : ms ⊆ ns) :
    b.MarkedBy ns := by
  obtain ⟨⟨m, member, name⟩, n, member', type⟩ := h
  exact ⟨⟨m, within member, name⟩, n, within member', type⟩

section Marks

variable {g : Grammar} {α : Type} {Item : List Mark → α → Prop} {ms : List Mark} {a : α} {as : List α}

/-- The marks of an item are among those of a separated list. -/
theorem Separated.exists_item {separator : Punctuation} (h : Separated separator Item ms as) (member : a ∈ as) :
    ∃ ns, ns ⊆ ms ∧ Item ns a := by
  induction h with
  | one item =>
    cases List.mem_singleton.mp member
    exact ⟨_, fun _ => id, item⟩
  | more item _ _ ih =>
    rcases List.mem_cons.mp member with rfl | member
    · exact ⟨_, List.subset_append_left _ _, item⟩
    · obtain ⟨ns, within, item⟩ := ih member
      exact ⟨ns, fun m among => List.mem_append_right _ (List.mem_cons_of_mem _ (within among)), item⟩

/-- The marks of an item are among those of a repeated list. -/
theorem Repeated.exists_item (h : Repeated Item ms as) (member : a ∈ as) : ∃ ns, ns ⊆ ms ∧ Item ns a := by
  induction h with
  | nil => cases member
  | cons item _ ih =>
    rcases List.mem_cons.mp member with rfl | member
    · exact ⟨_, List.subset_append_left _ _, item⟩
    · obtain ⟨ns, within, item⟩ := ih member
      exact ⟨ns, fun m among => List.mem_append_right _ (within among), item⟩

/-- Names that share a type are among the marks from which they are derived, and so is their type. -/
theorem DerivesBindings.marked {bindings : List Binding} (h : DerivesBindings ms bindings) :
    ∀ b ∈ bindings, b.MarkedBy ms := by
  cases h with
  | @group _ _ _ ids _ names _ type =>
    intro b member
    obtain ⟨id, among, rfl⟩ := List.mem_map.mp member
    obtain ⟨_, within, name⟩ := names.exists_item among
    cases name with
    | name lexeme =>
      cases type with
      | word lexeme' =>
        refine ⟨⟨_, List.mem_append_left _ (within List.mem_cons_self), lexeme, rfl⟩, _, ?_, lexeme', rfl⟩
        exact List.mem_append_right _ (List.mem_cons_of_mem _ List.mem_cons_self)

/-- Parameters and their types are among the marks from which they are derived. -/
theorem DerivesParameters.marked {parameters : List Binding} (h : DerivesParameters ms parameters) :
    ∀ b ∈ parameters, b.MarkedBy ms := by
  cases h with
  | absent => simp
  | none _ _ => simp
  | some _ forms _ =>
    intro b member
    obtain ⟨group, among, member⟩ := List.mem_flatten.mp member
    obtain ⟨ns, within, form⟩ := forms.exists_item among
    refine (form.marked b member).mono fun m among => ?_
    exact List.mem_cons_of_mem _ (List.mem_append_left _ (within among))

/-- Variables and their types are among the marks from which they are derived. -/
theorem DerivesVariables.marked {ds : List Decl} (h : DerivesVariables ms ds) :
    ∀ b ∈ Decl.boundAll ds, b.MarkedBy ms := by
  cases h with
  | absent => simp [Decl.boundAll]
  | @some _ _ groups _ forms =>
    have flat : ∀ groups : List (List Decl), ∀ b ∈ Decl.boundAll groups.flatten,
        ∃ group ∈ groups, b ∈ Decl.boundAll group := by
      intro groups
      induction groups with
      | nil => simp [Decl.boundAll]
      | cons group rest ih =>
        intro b member
        rw [List.flatten_cons, Decl.boundAll_append] at member
        rcases List.mem_append.mp member with first | later
        · exact ⟨group, List.mem_cons_self, first⟩
        · obtain ⟨other, among, member⟩ := ih b later
          exact ⟨other, List.mem_cons_of_mem _ among, member⟩
    intro b member
    obtain ⟨group, among, member⟩ := flat groups b member
    obtain ⟨ns, within, form⟩ := forms.exists_item among
    cases form with
    | @group _ _ bindings form _ =>
      rw [Decl.boundAll_map_var] at member
      refine (form.marked b member).mono fun m among => ?_
      exact List.mem_cons_of_mem _ (within (List.mem_append_left _ among))

mutual

/-- What procedures declare is among the marks from which they are derived. -/
theorem repeated_marked {ms : List Mark} {ds : List Decl} :
    Repeated (DerivesProcedure g) ms ds → ∀ b ∈ Decl.boundAll ds, b.MarkedBy ms
  | .nil => by simp [Decl.boundAll]
  | .cons (.procedure _ _ parameters _ form _) forms => by
    rw [Decl.boundAll, Decl.bound]
    intro b member
    rcases List.mem_append.mp member with own | later
    · rcases List.mem_append.mp own with parameter | inner
      · refine (parameters.marked b parameter).mono fun m among => ?_
        simp [among]
      · refine (form.marked b inner).mono fun m among => ?_
        simp [among]
    · refine (repeated_marked forms b later).mono fun m among => ?_
      exact List.mem_append_right _ among

/-- What a block declares is among the marks from which it is derived. -/
theorem DerivesBlock.marked {ms : List Mark} {b : Block} :
    DerivesBlock g ms b → ∀ binding ∈ Decl.boundAll b.declarations, binding.MarkedBy ms
  | .block vars forms _ => by
    rw [Decl.boundAll_append]
    intro binding member
    rcases List.mem_append.mp member with first | later
    · exact (vars.marked binding first).mono (List.subset_append_left _ _)
    · refine (repeated_marked forms binding later).mono fun m among => ?_
      simp [among]

end

/-- What a program declares is among the marks from which it is derived. -/
theorem Grammar.Derives.marked {p : Program} (h : g.Derives ms p) : ∀ b ∈ p.bound, b.MarkedBy ms := by
  cases h with
  | program _ _ _ form _ =>
    intro b member
    refine (form.marked b member).mono fun m among => ?_
    simp [among]

end Marks

/-- What the program of a source declares stands in its text. -/
theorem Edition.Source.spelledIn (source : Edition.calls.Source) :
    Decl.AllNamed Ordinary source.program.block.declarations ∧
      ∀ b ∈ source.program.bound, b.SpelledIn source.text := by
  obtain ⟨ms, p, reads, same, form⟩ := Grammar.reads_of_attempt Edition.full_calls source.yields
  cases same
  refine ⟨form.allNamed (ordinary_of_reads reads), fun b member => ?_⟩
  have written := reads.writtenAt (Edition.full_lexis rfl)
  obtain ⟨⟨m, among, name, place⟩, n, among', type, place'⟩ := form.marked b member
  obtain ⟨word, _, writes, there⟩ := written m among
  obtain ⟨word', _, writes', there'⟩ := written n among'
  rw [name] at writes
  rw [type] at writes'
  rw [place, Edition.word_of_writes writes] at there
  rw [place'] at there'
  exact ⟨there, word', Edition.capitals_of_writes writes', there'⟩

/-! ## Sessions -/

/-- A variable that is held in nested scopes whose variables are declared ones has a declaration. -/
theorem ScopeChain.Typed.exists_binding {bindings : List Binding} {chain : ScopeChain} (h : Typed bindings chain)
    {scope : Scope} (member : scope ∈ chain) {x : String} {type : Option Symbol}
    (held : scope.HoldsVariable x type) :
    ∃ b ∈ bindings, b.id.name = x ∧ type = some (.builtin b.type.type.name) := by
  induction h with
  | nil => cases member
  | @cons first outer declared _ _ ih =>
    rcases List.mem_cons.mp member with rfl | member
    · obtain ⟨symbol, among, own⟩ := held
      obtain ⟨entry, entered, rfl⟩ := List.mem_map.mp among
      have declared := declared entry entered
      have listed : .var x type ∈ bindings.map Binding.symbol := by
        rcases own with same | ⟨p, parameters, same, among⟩
        · rw [same] at declared
          exact declared.2
        · rw [same] at declared
          exact declared.2 _ among
      obtain ⟨b, bound, same⟩ := List.mem_map.mp listed
      cases same
      exact ⟨b, bound, rfl, rfl⟩
    · exact ih member

namespace Session

variable {logs : Bool} {s : Session} {st : ScopeState} {bindings : List Binding}

/-- A step that analyses a source performs the actions of its program. -/
theorem step_analyse_actions (source : Edition.calls.Source) (surveyed : s.survey? = some (.scopes st)) :
    let done := s.step .calls (Edition.calls.analysis? logs) .analyse (some source.text)
    ∃ last, done.session.survey? = some (.scopes last) ∧
      (done.result = .ok (some .missing) ∧
          Scoped.performAll ⟨true, logs⟩ source.program.actions st = .ok () last ∨
        ∃ fault, done.result = .error fault ∧
          Scoped.performAll ⟨true, logs⟩ source.program.actions st = .error fault last) := by
  intro done
  rw [show done = _ from step_analyse source surveyed, Scoped.program_eq_actions source.spelledIn.1]
  cases Scoped.performAll ⟨true, logs⟩ source.program.actions st with
  | ok a last => exact ⟨last, rfl, .inl ⟨rfl, rfl⟩⟩
  | error fault last => exact ⟨last, rfl, .inr ⟨fault, rfl, rfl⟩⟩

/-- After any number of analyses in a session, the variables in the open scopes are those that the programs
declare. -/
theorem analyse_typed (sources : List Edition.calls.Source) (surveyed : s.survey? = some (.scopes st))
    (typed : ScopeChain.Typed bindings st.chain) :
    ∃ st', (s.afterAll .calls (Edition.calls.analysis? logs) .analyse
        (sources.map Edition.Source.text)).survey? = some (.scopes st') ∧
      ScopeChain.Typed (bindings ++ sources.flatMap fun source => source.program.bound) st'.chain := by
  induction sources generalizing s st bindings with
  | nil => exact ⟨st, surveyed, typed.mono (by simp)⟩
  | cons source rest ih =>
    obtain ⟨last, surveyed', outcome⟩ := @step_analyse_actions logs s st source surveyed
    have passes : Scoped.Passes ⟨true, logs⟩ source.program.actions st last :=
      ⟨_, List.prefix_rfl, outcome.imp And.right fun ⟨fault, _, failed⟩ => ⟨fault, failed⟩⟩
    obtain ⟨_, _, _, typed'⟩ := passes.exists_replay
      (fun action member => (Program.actions_give source.spelledIn.1 action member).mono
        fun b => List.mem_append_right bindings)
      (typed.mono fun b => List.mem_append_left _)
    obtain ⟨st', reached, typed''⟩ := ih surveyed' typed'
    refine ⟨st', reached, ?_⟩
    rw [List.flatMap_cons, ← List.append_assoc]
    exact typed''

end Session

/-- In a session of the last edition that analyses texts one after the other, whether it accepts or refuses them, a
step performs the actions of a program. In every state that it passes through, the open scopes are what the actions
performed so far make of them by entering each declaration with its own type; and every variable that a scope holds,
be it under its own name or as a parameter of a procedure, has a declaration in one of the texts up to this one, and
its type is the built-in type that this declaration spells. -/
theorem variables_typed_as_declared (logs : Bool) (sources : List Edition.calls.Source)
    (source : Edition.calls.Source) :
    let analysis? := Edition.calls.analysis? logs
    let used := (Session.initial analysis?).afterAll .calls analysis? .analyse (sources.map Edition.Source.text)
    let done := used.step .calls analysis? .analyse (some source.text)
    ∃ st last, used.survey? = some (.scopes st) ∧ done.session.survey? = some (.scopes last) ∧
      (done.result = .ok (some .missing) ∧
          Scoped.performAll ⟨true, logs⟩ source.program.actions st = .ok () last ∨
        ∃ fault, done.result = .error fault ∧
          Scoped.performAll ⟨true, logs⟩ source.program.actions st = .error fault last) ∧
      ∀ st', Scoped.Passes ⟨true, logs⟩ source.program.actions st st' →
        (∃ performed, performed <+: source.program.actions ∧ st'.chain = Scoped.replay performed st.chain) ∧
        ∀ scope ∈ st'.chain, ∀ x type, scope.HoldsVariable x type →
          ∃ origin ∈ sources ++ [source], ∃ b ∈ origin.program.bound, b.SpelledIn origin.text ∧
            b.id.name = x ∧ type = some (.builtin b.type.type.name) := by
  intro analysis? used done
  obtain ⟨st, surveyed, typed⟩ := @Session.analyse_typed logs (Session.initial analysis?) ⟨[], #[]⟩ [] sources rfl
    .nil
  obtain ⟨last, reached, outcome⟩ := @Session.step_analyse_actions logs used st source surveyed
  -- the step enters declarations of its own text, and finds those of the texts before it
  let bindings := (sources ++ [source]).flatMap fun source => source.program.bound
  refine ⟨st, last, surveyed, reached, outcome, fun st' passes => ?_⟩
  have gives : ∀ action ∈ source.program.actions, action.Gives bindings := by
    intro action among
    refine (Program.actions_give source.spelledIn.1 action among).mono fun b bound => ?_
    simp [bindings, bound]
  have within : ∀ b ∈ [] ++ sources.flatMap (fun source => source.program.bound), b ∈ bindings := by
    intro b among
    rw [show bindings = _ from List.flatMap_append]
    exact List.mem_append_left _ among
  obtain ⟨performed, some, made, typed'⟩ := passes.exists_replay gives (typed.mono within)
  refine ⟨⟨performed, some, made⟩, fun scope member x type held => ?_⟩
  obtain ⟨b, bound, name, same⟩ := typed'.exists_binding member held
  obtain ⟨origin, among, bound⟩ := List.mem_flatMap.mp bound
  exact ⟨origin, among, b, bound, origin.spelledIn.2 b bound, name, same⟩

/-- The name of a variable and that of its type, where it has one that is built in. -/
def Symbol.typing? : Symbol → Option (String × String)
  | .var x (some (.builtin type)) => some (x, type)
  | _ => none

/-- A variable that is listed with its type is held with it. -/
theorem Scope.holdsVariable_of_typing {scope : Scope} {x type : String}
    (listed : (x, type) ∈ scope.symbols.values.filterMap Symbol.typing?) :
    scope.HoldsVariable x (some (.builtin type)) := by
  obtain ⟨symbol, member, typing⟩ := List.mem_filterMap.mp listed
  unfold Symbol.typing? at typing
  split at typing
  · cases typing
    exact ⟨_, member, .inl rfl⟩
  · cases typing

/-- A parameter hides a variable of another type. While its procedure is analysed, both are held, each with the type of
its own declaration. -/
theorem variables_typed_as_declared_hidden :
    let text := "PROGRAM p; VAR x : Real; PROCEDURE q(x : integer); BEGIN END; BEGIN END."
    ∃ (source : Edition.calls.Source) (st : ScopeState) (inner outer : Scope), source.text = text ∧
      Scoped.Passes ⟨true, false⟩ source.program.actions ⟨[], #[]⟩ st ∧ st.chain = [inner, outer] ∧
      inner.HoldsVariable "x" (some (.builtin "INTEGER")) ∧
      (∃ b ∈ source.program.bound, b.SpelledIn text ∧ b.id.name = "x" ∧ b.type.type.name = "INTEGER") ∧
      outer.HoldsVariable "x" (some (.builtin "REAL")) ∧
      ∃ b ∈ source.program.bound, b.SpelledIn text ∧ b.id.name = "x" ∧ b.type.type.name = "REAL" := by
  intro text
  -- the five actions up to the parameter: the scope of the program, `x`, `q`, the scope of `q` and its `x`
  let typings (p : Program) : ScopeWork (List (List (String × String))) := do
    Scoped.performAll ⟨true, false⟩ (p.actions.take 5)
    return (← get).chain.map fun scope => scope.symbols.values.filterMap Symbol.typing?
  have yields : Edition.calls.yields text (fun tree => tree.program?.any fun p =>
      (typings p).run' ⟨[], #[]⟩ = some [[("x", "INTEGER")], [("x", "REAL")]]) = true := by decide +kernel
  obtain ⟨tree, reading, parsed, checked⟩ := Edition.exists_accepts yields
  obtain ⟨_, p, _, rfl, _⟩ := Grammar.reads_of_attempt Edition.full_calls parsed
  obtain ⟨_, ran⟩ := Work.run'_eq_some.mp (of_decide_eq_true checked)
  obtain ⟨_, st, performed, rest⟩ := Work.bind_eq_ok.mp ran
  have listed : st.chain.map (fun scope => scope.symbols.values.filterMap Symbol.typing?) =
      [[("x", "INTEGER")], [("x", "REAL")]] := (EStateM.Result.ok.inj rest).1
  obtain ⟨inner, _, chain, within, listed⟩ := List.map_eq_cons_iff.mp listed
  obtain ⟨outer, _, rfl, beyond, listed⟩ := List.map_eq_cons_iff.mp listed
  cases List.map_eq_nil_iff.mp listed
  have held := Scope.holdsVariable_of_typing (within ▸ List.mem_singleton_self ("x", "INTEGER"))
  have held' := Scope.holdsVariable_of_typing (beyond ▸ List.mem_singleton_self ("x", "REAL"))
  let source : Edition.calls.Source := ⟨text, p, reading, parsed⟩
  have passes : Scoped.Passes ⟨true, false⟩ source.program.actions ⟨[], #[]⟩ st :=
    ⟨_, List.take_prefix 5 _, .inl performed⟩
  obtain ⟨begun, _, surveyed, _, _, typed⟩ := variables_typed_as_declared false [] source
  obtain rfl : ⟨[], #[]⟩ = begun := Survey.scopes.inj (Option.some.inj surveyed)
  have types := (typed st passes).2
  rw [chain] at types
  obtain ⟨_, among, b, bound, spelled, name, type⟩ := types inner (by simp) "x" _ held
  obtain ⟨_, among', b', bound', spelled', name', type'⟩ := types outer (by simp) "x" _ held'
  cases List.mem_singleton.mp among
  cases List.mem_singleton.mp among'
  exact ⟨source, st, inner, outer, rfl, passes, chain, held, ⟨b, bound, spelled, name, by simpa using type.symm⟩, held',
    b', bound', spelled', name', by simpa using type'.symm⟩

end LittlePascal
