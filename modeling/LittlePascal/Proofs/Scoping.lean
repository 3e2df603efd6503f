import LittlePascal.Analysis
import LittlePascal.Proofs.Declaredness
import LittlePascal.Proofs.Passage

/-! # The analysis of scopes finds the first violation

The analysis opens and closes scopes while it goes through a tree. What it does to the names of the open
scopes is said once for every piece of its work; the lines it writes make no difference. From this it
follows that it fails with the first of the violations of a program, and succeeds if there is none. The
scopes that it leaves open when it fails are those around the violation.

Main definitions: `Stops`, work that ends with the first of some faults; `Meets`, what work comes to in the
light of a list of sightings; `Settles`, the same without what can be seen.

Main statements:
* `Scoped.stmts_meets`, `Scoped.decls_meets`: statements and declarations;
* `Scoped.program_meets`: programs, whatever scopes are open around them;
* `Scoped.program_settles`: programs by themselves. -/

namespace LittlePascal

/-! ## Trees without holes and with ordinary names -/

/-- An expression without holes whose variables that must be visible have names of a class. -/
def Expr.Regular (names : String → Prop) : Expr → Prop
  | .var id => names id.name
  | .binary _ _ left right => left.Regular names ∧ right.Regular names
  | .hole => False
  | _ => True

/-- Statements all of whose expressions are regular. -/
inductive Stmt.AllRegular (names : String → Prop) : List Stmt → Prop where
  | nil : AllRegular names []
  | compound {children rest : List Stmt} :
      AllRegular names children → AllRegular names rest → AllRegular names (.compound children :: rest)
  | assign {target : Ident} {place : Place} {value : Expr} {rest : List Stmt} :
      names target.name → value.Regular names → AllRegular names rest →
      AllRegular names (.assign target place value :: rest)
  | call {p : Ident} {arguments : List Expr} {rest : List Stmt} :
      (∀ e ∈ arguments, e.Regular names) → AllRegular names rest →
      AllRegular names (.call p arguments :: rest)
  | empty {rest : List Stmt} : AllRegular names rest → AllRegular names (.empty :: rest)

/-- Declarations all of whose variables and statements are regular. -/
inductive Decl.AllRegular (names : String → Prop) : List Decl → Prop where
  | nil : AllRegular names []
  | var {binding : Binding} {rest : List Decl} :
      names binding.id.name → AllRegular names rest → AllRegular names (.var binding :: rest)
  | procedure {p : String} {parameters : List Binding} {ds rest : List Decl} {body : List Stmt} :
      AllRegular names ds → Stmt.AllRegular names body → AllRegular names rest →
      AllRegular names (.procedure p parameters ds body :: rest)

/-! ## Scopes and their names -/

/-- A scope has become another one by declarations of these names. -/
def Scope.Grows (scope : Scope) (declared : List String) (scope' : Scope) : Prop :=
  ∀ s, scope'.has s = true ↔ scope.has s = true ∨ s ∈ declared

/-- Nothing is declared. -/
theorem Scope.Grows.nil {scope : Scope} : scope.Grows [] scope := by
  intro s
  simp

/-- Declarations one after the other. -/
theorem Scope.Grows.append {first second third : Scope} {declared declared' : List String}
    (h : first.Grows declared second) (h' : second.Grows declared' third) :
    first.Grows (declared ++ declared') third := by
  intro s
  rw [h' s, h s, List.mem_append, or_assoc]

/-- A symbol is entered under its name. -/
theorem Scope.grows_insert {scope : Scope} {symbol : Symbol} :
    scope.Grows [symbol.name] (scope.insert symbol) := by
  intro s
  rw [has, insert, OrderedMap.insertSymbol, OrderedMap.get?_set, List.mem_singleton]
  by_cases same : s = symbol.name
  · simp [same]
  · simp [same, has]

/-- A scope without symbols has no name. -/
theorem Scope.has_opened {name s : String} {level : Nat} :
    (Scope.opened name level).has s = false := rfl

/-- Nested scopes of which the innermost one has grown by declarations of these names. -/
def ScopeChain.Grown (scope : Scope) (outer : ScopeChain) (declared : List String)
    (chain : ScopeChain) : Prop :=
  ∃ scope', chain = scope' :: outer ∧ scope.Grows declared scope'

/-- Some open scope has the name. -/
def ScopeChain.Has (chain : ScopeChain) (s : String) : Prop := ∃ scope ∈ chain, scope.has s = true

/-- A name of nested scopes is one of the innermost scope or of those around it. -/
theorem ScopeChain.has_cons {scope : Scope} {outer : ScopeChain} {s : String} :
    ScopeChain.Has (scope :: outer) s ↔ scope.has s = true ∨ ScopeChain.Has outer s := by
  simp [Has]

/-- The names of a class that some open scope has are the listed ones. -/
def ScopeChain.Sees (names : String → Prop) (chain : ScopeChain) (visible : List String) : Prop :=
  ∀ s, names s → (ScopeChain.Has chain s ↔ s ∈ visible)

/-! ## What work comes to -/

/-- Work stops at the first of some faults: it succeeds if there are none, and then its result and its state are
as stated; otherwise it fails with the first of them. -/
def Stops {σ α : Type} (outcome : EStateM.Result Fault σ α) (faults : List Fault) (Post : α → σ → Prop) :
    Prop :=
  match outcome with
  | .ok a st => faults = [] ∧ Post a st
  | .error fault _ => faults.head? = some fault

namespace Stops

variable {σ α β : Type} {outcome : EStateM.Result Fault σ α} {work : EStateM Fault σ α}
  {further : α → EStateM Fault σ β} {st : σ} {faults faults' : List Fault} {Post : α → σ → Prop}
  {Post' : β → σ → Prop}

/-- Work succeeds exactly if there are no faults. -/
theorem ok_iff (h : Stops outcome faults Post) : (∃ a st, outcome = .ok a st) ↔ faults = [] := by
  cases outcome with
  | ok a st =>
    have none : faults = [] := h.1
    simp [none]
  | error fault st =>
    have head : faults.head? = some fault := h
    cases faults with
    | nil => cases head
    | cons first rest => simp

/-- Work fails exactly with the first fault. -/
theorem error_iff (h : Stops outcome faults Post) {fault : Fault} :
    (∃ st, outcome = .error fault st) ↔ faults.head? = some fault := by
  cases outcome with
  | ok a st =>
    have none : faults = [] := h.1
    simp [none]
  | error first st =>
    have head : faults.head? = some first := h
    simp [head]

/-- Work in sequence stops at the first fault of its parts. -/
theorem bind (first : Stops (work st) faults Post)
    (second : ∀ a st', Post a st' → Stops (further a st') faults' Post') :
    Stops ((work >>= further) st) (faults ++ faults') Post' := by
  cases h : work st with
  | ok a st' =>
    rw [h] at first
    obtain ⟨rfl, post⟩ := first
    rw [Work.bind_of_ok h]
    exact second a st' post
  | error fault st' =>
    rw [h] at first
    have head : faults.head? = some fault := first
    rw [Work.bind_of_error h]
    show (faults ++ faults').head? = some fault
    rw [List.head?_append, head]
    rfl

/-- Less can be said of the end of the work. -/
theorem mono {Weaker : α → σ → Prop} (h : Stops outcome faults Post)
    (weaker : ∀ a st, Post a st → Weaker a st) : Stops outcome faults Weaker := by
  cases outcome with
  | ok a st => exact ⟨h.1, weaker a st h.2⟩
  | error fault st => exact h

end Stops

/-- Work settles a list of faults: it succeeds if there are none, and then the open scopes are as stated;
otherwise it fails with the first of them. -/
def Settles {α : Type} (outcome : EStateM.Result Fault ScopeState α) (faults : List Fault)
    (Post : ScopeChain → Prop) : Prop :=
  match outcome with
  | .ok _ st => faults = [] ∧ Post st.chain
  | .error fault _ => faults.head? = some fault

namespace Settles

variable {α : Type} {outcome : EStateM.Result Fault ScopeState α} {faults : List Fault}
  {Post : ScopeChain → Prop}

/-- Work that settles faults stops at the first of them. -/
theorem stops (h : Settles outcome faults Post) : Stops outcome faults fun _ st => Post st.chain := by
  cases outcome with
  | ok a st => exact h
  | error fault st => exact h

/-- Work succeeds exactly if there are no faults. -/
theorem ok_iff (h : Settles outcome faults Post) : (∃ a st, outcome = .ok a st) ↔ faults = [] := h.stops.ok_iff

/-- Work fails exactly with the first fault. -/
theorem error_iff (h : Settles outcome faults Post) {fault : Fault} :
    (∃ st, outcome = .error fault st) ↔ faults.head? = some fault := h.stops.error_iff

end Settles

/-- Work meets a list of sightings: it succeeds if there are none, and then the open scopes are as stated;
otherwise it fails with the first of them, and in the scopes that are open then the same names can be
seen. -/
def Meets {α : Type} (names : String → Prop) (outcome : EStateM.Result Fault ScopeState α)
    (sightings : List Sighting) (Post : ScopeChain → Prop) : Prop :=
  match outcome with
  | .ok _ st => sightings = [] ∧ Post st.chain
  | .error fault st =>
    ∃ visible, sightings.head? = some (fault, visible) ∧ ScopeChain.Sees names st.chain visible

namespace Meets

variable {α β : Type} {names : String → Prop} {work : ScopeWork α} {further : α → ScopeWork β}
  {st : ScopeState} {sightings sightings' : List Sighting} {Post Post' : ScopeChain → Prop}

/-- Work in sequence meets the sightings of its parts, one after the other. -/
theorem bind (first : Meets names (work st) sightings Post)
    (second : ∀ a st', Post st'.chain → Meets names (further a st') sightings' Post') :
    Meets names ((work >>= further) st) (sightings ++ sightings') Post' := by
  cases h : work st with
  | ok a st' =>
    rw [h] at first
    obtain ⟨rfl, post⟩ := first
    rw [Work.bind_of_ok h]
    exact second a st' post
  | error fault st' =>
    rw [h] at first
    obtain ⟨visible, head, sees⟩ := first
    rw [Work.bind_of_error h]
    refine ⟨visible, ?_, sees⟩
    rw [List.head?_append, head]
    rfl

variable {outcome : EStateM.Result Fault ScopeState α}

/-- Less can be said of the open scopes. -/
theorem mono (h : Meets names outcome sightings Post) (weaker : ∀ chain, Post chain → Post' chain) :
    Meets names outcome sightings Post' := by
  cases outcome with
  | ok a st => exact ⟨h.1, weaker _ h.2⟩
  | error fault st => exact h

/-- Work that meets sightings settles their faults. -/
theorem settles (h : Meets names outcome sightings Post) :
    Settles outcome (sightings.map Prod.fst) Post := by
  cases outcome with
  | ok a st => exact ⟨List.map_eq_nil_iff.mpr h.1, h.2⟩
  | error fault st =>
    obtain ⟨visible, head, _⟩ := h
    show (sightings.map Prod.fst).head? = some fault
    rw [List.head?_map, head]
    rfl

end Meets

namespace Scoped

variable {rules : ScopeRules} {st : ScopeState}

/-! ## Single steps

Each step succeeds with what it finds and changes the open scopes in one way; the lines written are
whatever they are. -/

/-- Writing a line changes no scope. -/
theorem write_ok (line : String) (st : ScopeState) :
    ∃ log, write rules line st = .ok () ⟨st.chain, log⟩ := by
  cases h : rules.logs with
  | true => exact ⟨st.log.push line, by simp [write, h]; rfl⟩
  | false => exact ⟨st.log, by simp [write, h]; rfl⟩

/-- Writing lines about scopes changes none of them. -/
theorem forM_write_ok (name : String) (scopes : List Scope) (st : ScopeState) :
    ∃ log, (scopes.forM fun scope => write rules (lookupLine name scope)) st =
      .ok () ⟨st.chain, log⟩ := by
  induction scopes generalizing st with
  | nil => exact ⟨st.log, rfl⟩
  | cons scope rest ih =>
    obtain ⟨log, written⟩ := @write_ok rules (lookupLine name scope) st
    obtain ⟨log', further⟩ := ih ⟨st.chain, log⟩
    exact ⟨log', (Work.bind_of_ok written).trans further⟩

/-- Looking a name up in given scopes. -/
theorem lookupIn_ok (chain : ScopeChain) (name : String) (st : ScopeState) :
    ∃ log, lookupIn rules chain name st = .ok (chain.lookup? name) ⟨st.chain, log⟩ := by
  obtain ⟨log, written⟩ := @forM_write_ok rules name (chain.examined name) st
  exact ⟨log, Work.bind_of_ok written⟩

variable {scope : Scope} {outer : ScopeChain}

/-- Looking a name up in all open scopes. -/
theorem lookup_ok (name : String) (opened : st.chain = scope :: outer) :
    ∃ log, lookup rules name st =
      .ok (ScopeChain.lookup? (scope :: outer) name) ⟨scope :: outer, log⟩ := by
  obtain ⟨log, found⟩ := @lookupIn_ok rules (scope :: outer) name st
  rw [opened] at found
  refine ⟨log, ?_⟩
  rw [lookup, Work.get_bind, opened]
  exact found

/-- Looking a name up in the innermost scope. -/
theorem lookupHere_ok (name : String) (opened : st.chain = scope :: outer) :
    ∃ log, lookupHere rules name st =
      .ok (ScopeChain.lookup? [scope] name) ⟨scope :: outer, log⟩ := by
  obtain ⟨log, found⟩ := @lookupIn_ok rules [scope] name st
  rw [opened] at found
  refine ⟨log, ?_⟩
  rw [lookupHere, Work.get_bind, opened]
  exact found

/-- Entering a symbol changes the innermost scope alone. -/
theorem insert_ok (symbol : Symbol) (opened : st.chain = scope :: outer) :
    ∃ log, insert rules symbol st = .ok () ⟨scope.insert symbol :: outer, log⟩ := by
  obtain ⟨log, written⟩ := @write_ok rules ("Insert: " ++ symbol.name) st
  refine ⟨log, ?_⟩
  rw [insert, Work.get_bind, opened]
  exact Work.bind_of_ok written

/-- Opening a scope puts it before the others. -/
theorem enter_ok (name : String) (level : Nat) (st : ScopeState) :
    ∃ log, enter rules name level st = .ok () ⟨Scope.opened name level :: st.chain, log⟩ := by
  obtain ⟨log, written⟩ := @write_ok rules ("ENTER scope: " ++ name) st
  exact ⟨log, Work.bind_of_ok written⟩

/-- Closing a scope takes it away. -/
theorem close_ok (name : String) (opened : st.chain = scope :: outer) :
    ∃ log, close rules name st = .ok () ⟨outer, log⟩ := by
  obtain ⟨log, written⟩ := @write_ok rules (scope.text (outer.head?.map Scope.name)) st
  obtain ⟨log', written'⟩ := @write_ok rules ("LEAVE scope: " ++ name) ⟨outer, log⟩
  rw [opened] at written
  refine ⟨log', ?_⟩
  rw [close, Work.get_bind, opened]
  exact (Work.bind_of_ok written).trans written'

/-- The level of the innermost scope. -/
theorem level_ok (opened : st.chain = scope :: outer) : level st = .ok scope.level st := by
  rw [level, Work.get_bind, opened]
  rfl

/-- The parameters of a procedure become known in the scope around it. -/
theorem completeProcedure_ok {inner : Scope} (name : String) (parameters : List Symbol)
    (opened : st.chain = inner :: scope :: outer) :
    ∃ log, completeProcedure name parameters st =
      .ok () ⟨inner :: scope.insert (.procedure name parameters) :: outer, log⟩ := by
  obtain ⟨chain, log⟩ := st
  cases opened
  exact ⟨log, rfl⟩

/-! ## Uses -/

variable {names : String → Prop} {visible here : List String}

/-- The uses of names in two lists, one after the other, are met in the same place. -/
theorem sightedUses_append {ids ids' : List Ident} :
    sightedAt visible (undeclaredUses visible (ids ++ ids')) =
      sightedAt visible (undeclaredUses visible ids) ++
        sightedAt visible (undeclaredUses visible ids') := by
  rw [undeclaredUses, List.filter_append, List.map_append, sightedAt, List.map_append]
  rfl

/-- A use is settled by what can be seen. -/
theorem use_meets {id : Ident} (opened : st.chain = scope :: outer) (proper : names id.name)
    (sees : ScopeChain.Sees names (scope :: outer) visible) :
    Meets names (use rules id st) (sightedAt visible (undeclaredUses visible [id]))
      (· = scope :: outer) := by
  obtain ⟨log, found⟩ := @lookup_ok rules st scope outer id.name opened
  have known : (ScopeChain.lookup? (scope :: outer) id.name).isSome = true ↔ id.name ∈ visible :=
    (ScopeChain.lookup?_isSome_iff _ _).trans (sees _ proper)
  rw [use, Work.bind_of_ok found]
  by_cases member : id.name ∈ visible
  · obtain ⟨symbol, here⟩ := Option.isSome_iff_exists.mp (known.mpr member)
    have none : undeclaredUses visible [id] = [] :=
      undeclaredUses_eq_nil_iff.mpr fun _ same => by rwa [List.mem_singleton.mp same]
    rw [here, none]
    exact ⟨rfl, rfl⟩
  · have missing : ScopeChain.lookup? (scope :: outer) id.name = none := by
      rw [← Option.not_isSome_iff_eq_none, known]
      exact member
    have one : undeclaredUses visible [id] = [.undeclared id] := by
      simp [undeclaredUses, member]
    rw [missing, one]
    exact ⟨visible, rfl, sees⟩

/-- The uses of an expression are settled in order. -/
theorem expr_meets (literals : rules.literals = true) {e : Expr} (regular : e.Regular names)
    (opened : st.chain = scope :: outer) (sees : ScopeChain.Sees names (scope :: outer) visible) :
    Meets names (expr rules e st) (sightedAt visible (undeclaredUses visible e.uses))
      (· = scope :: outer) := by
  induction e generalizing st with
  | var id => exact use_meets opened regular sees
  | binary _ _ left right ihLeft ihRight =>
    rw [Expr.uses, sightedUses_append, expr]
    exact (ihLeft regular.1 opened).bind fun _ st' kept => ihRight regular.2 kept
  | hole => exact regular.elim
  | literal _ _ =>
    rw [expr, literals]
    · exact ⟨rfl, opened⟩
    all_goals simp
  | signed _ _ _ _ =>
    rw [expr, literals]
    · exact ⟨rfl, opened⟩
    all_goals simp

/-- The uses of the arguments of a call are settled in order. -/
theorem arguments_meets (literals : rules.literals = true) {arguments : List Expr}
    (regular : ∀ e ∈ arguments, e.Regular names) (opened : st.chain = scope :: outer)
    (sees : ScopeChain.Sees names (scope :: outer) visible) :
    Meets names (arguments.forM (expr rules) st)
      (sightedAt visible (undeclaredUses visible (arguments.flatMap Expr.uses)))
      (· = scope :: outer) := by
  induction arguments generalizing st with
  | nil => exact ⟨rfl, opened⟩
  | cons e rest ih =>
    rw [List.flatMap_cons, sightedUses_append]
    exact (expr_meets literals (regular e List.mem_cons_self) opened sees).bind fun _ st' kept =>
      ih (fun e member => regular e (List.mem_cons_of_mem _ member)) kept

/-- The uses of statements are settled in order. -/
theorem stmts_meets (literals : rules.literals = true) {body : List Stmt}
    (regular : Stmt.AllRegular names body) (opened : st.chain = scope :: outer)
    (sees : ScopeChain.Sees names (scope :: outer) visible) :
    Meets names (stmts rules body st) (sightedAt visible (undeclaredUses visible (Stmt.usesAll body)))
      (· = scope :: outer) := by
  induction regular generalizing st with
  | nil => exact ⟨rfl, opened⟩
  | compound _ _ ihChildren ihRest =>
    rw [Stmt.usesAll, Stmt.uses, sightedUses_append, stmts, stmt]
    exact (ihChildren opened).bind fun _ st' kept => ihRest kept
  | assign proper regular _ ihRest =>
    rw [Stmt.usesAll, Stmt.uses, sightedUses_append, sightedUses_append, stmts, stmt]
    -- the right-hand side is looked at before the target
    exact ((expr_meets literals regular opened sees).bind fun _ st' kept =>
      use_meets kept proper sees).bind fun _ st' kept => ihRest kept
  | call regular _ ihRest =>
    rw [Stmt.usesAll, Stmt.uses, sightedUses_append, stmts, stmt]
    exact (arguments_meets literals regular opened sees).bind fun _ st' kept => ihRest kept
  | empty _ ihRest =>
    rw [Stmt.usesAll, Stmt.uses, List.nil_append, stmts, stmt]
    exact ihRest opened

/-! ## Declarations -/

/-- What can be seen after declarations. -/
theorem sees_grows {scope' : Scope} {declared : List String}
    (sees : ScopeChain.Sees names (scope :: outer) visible) (grows : scope.Grows declared scope') :
    ScopeChain.Sees names (scope' :: outer) (declared ++ visible) := by
  intro s proper
  rw [ScopeChain.has_cons, grows s, List.mem_append, ← sees s proper, ScopeChain.has_cons]
  exact or_right_comm.trans or_comm

/-- What can be seen from a new scope. -/
theorem sees_enter {inner : Scope} {declared : List String}
    (sees : ScopeChain.Sees names outer visible) (has : ∀ s, inner.has s = true ↔ s ∈ declared) :
    ScopeChain.Sees names (inner :: outer) (declared ++ visible) := by
  intro s proper
  rw [ScopeChain.has_cons, has s, sees s proper, List.mem_append]

/-- A parameter is entered, whatever its name. -/
theorem parameter_ok (binding : Binding) (opened : st.chain = scope :: outer) :
    ∃ symbol log, parameter rules binding st = .ok symbol ⟨scope.insert symbol :: outer, log⟩ ∧
      symbol.name = binding.id.name := by
  obtain ⟨log, found⟩ := @lookup_ok rules st scope outer binding.type.type.name opened
  let symbol : Symbol :=
    .var binding.id.name (ScopeChain.lookup? (scope :: outer) binding.type.type.name)
  obtain ⟨log', entered⟩ := @insert_ok rules ⟨scope :: outer, log⟩ scope outer symbol rfl
  refine ⟨symbol, log', ?_, rfl⟩
  rw [parameter, Work.bind_of_ok found]
  exact Work.bind_of_ok entered

/-- Parameters are entered in order. -/
theorem parameters_ok (parameters : List Binding) (opened : st.chain = scope :: outer) :
    ∃ symbols scope' log, parameters.mapM (parameter rules) st = .ok symbols ⟨scope' :: outer, log⟩ ∧
      scope.Grows (Binding.names parameters) scope' := by
  induction parameters generalizing st scope with
  | nil =>
    obtain ⟨chain, log⟩ := st
    cases opened
    exact ⟨[], scope, log, rfl, .nil⟩
  | cons binding rest ih =>
    obtain ⟨symbol, log, entered, same⟩ := @parameter_ok rules st scope outer binding opened
    obtain ⟨symbols, scope', log', further, grows⟩ :=
      @ih ⟨scope.insert symbol :: outer, log⟩ (scope.insert symbol) rfl
    refine ⟨symbol :: symbols, scope', log', ?_, ?_⟩
    · rw [List.mapM_cons, Work.bind_of_ok entered, Work.bind_of_ok further]
      rfl
    · have first : scope.Grows [symbol.name] (scope.insert symbol) := Scope.grows_insert
      rw [same] at first
      exact first.append grows

/-- A variable is settled by what its block has declared before it. -/
theorem localVariable_meets {binding : Binding} (opened : st.chain = scope :: outer)
    (proper : names binding.id.name) (knows : ∀ s, names s → (scope.has s = true ↔ s ∈ here))
    (sees : ScopeChain.Sees names (scope :: outer) visible) :
    Meets names (localVariable rules binding st) ((Decl.var binding).sightings visible here)
      (ScopeChain.Grown scope outer [binding.id.name]) := by
  obtain ⟨log, found⟩ := @lookup_ok rules st scope outer binding.type.type.name opened
  obtain ⟨log', met⟩ := @lookupHere_ok rules ⟨scope :: outer, log⟩ scope outer binding.id.name rfl
  obtain ⟨log'', entered⟩ := @insert_ok rules ⟨scope :: outer, log'⟩ scope outer
    (.var binding.id.name (ScopeChain.lookup? (scope :: outer) binding.type.type.name)) rfl
  have known : (ScopeChain.lookup? [scope] binding.id.name).isSome = true ↔
      binding.id.name ∈ here := by
    rw [ScopeChain.lookup?_isSome_iff, ← knows _ proper]
    simp
  rw [localVariable, Work.bind_of_ok found, Work.bind_of_ok met, Decl.sightings, Decl.violations]
  by_cases member : binding.id.name ∈ here
  · rw [known.mpr member, if_pos member]
    exact ⟨visible, rfl, sees⟩
  · rw [Bool.eq_false_iff.mpr (mt known.mp member), if_neg member]
    show Meets names (insert rules _ ⟨scope :: outer, log'⟩) [] _
    rw [entered]
    exact ⟨rfl, _, rfl, Scope.grows_insert⟩

/-- A declaration and those behind it, which see it. -/
theorem decls_cons_meets {d : Decl} {rest : List Decl}
    (knows : ∀ s, names s → (scope.has s = true ↔ s ∈ here))
    (sees : ScopeChain.Sees names (scope :: outer) visible)
    (first : Meets names (decl rules d st) (d.sightings visible here)
      (ScopeChain.Grown scope outer [d.name]))
    (later : ∀ {st' scope'}, st'.chain = scope' :: outer →
      (∀ s, names s → (scope'.has s = true ↔ s ∈ d.name :: here)) →
      ScopeChain.Sees names (scope' :: outer) (d.name :: visible) →
      Meets names (decls rules rest st')
        (Decl.sightingsAll (d.name :: visible) (d.name :: here) rest)
        (ScopeChain.Grown scope' outer (rest.map Decl.name))) :
    Meets names (decls rules (d :: rest) st) (Decl.sightingsAll visible here (d :: rest))
      (ScopeChain.Grown scope outer ((d :: rest).map Decl.name)) := by
  rw [Decl.sightingsAll, decls]
  refine first.bind ?_
  rintro _ st' ⟨scope', opened, grows⟩
  have knows' : ∀ s, names s → (scope'.has s = true ↔ s ∈ d.name :: here) := by
    intro s proper
    rw [grows s, knows s proper, List.mem_singleton, List.mem_cons, or_comm]
  refine (later opened knows' (sees_grows sees grows)).mono ?_
  rintro chain ⟨scope'', same, grows'⟩
  exact ⟨scope'', same, grows.append grows'⟩

/-- A procedure as far as its parameters: it is entered, and a scope of its own is opened for them. -/
def opening (rules : ScopeRules) (p : String) (parameters : List Binding) :
    ScopeWork (List Symbol) := do
  insert rules (.procedure p [])
  enter rules p ((← level) + 1)
  parameters.mapM (parameter rules)

/-- The innermost scope has the parameters then, and the one around it has the procedure. -/
theorem opening_ok (p : String) (parameters : List Binding) (opened : st.chain = scope :: outer) :
    ∃ symbols own around log,
      opening rules p parameters st = .ok symbols ⟨own :: around :: outer, log⟩ ∧
      (∀ s, own.has s = true ↔ s ∈ Binding.names parameters) ∧ scope.Grows [p] around := by
  obtain ⟨log, inserted⟩ := @insert_ok rules st scope outer (.procedure p []) opened
  have entered : scope.Grows [p] (scope.insert (.procedure p [])) := Scope.grows_insert
  generalize scope.insert (.procedure p []) = around at inserted entered
  obtain ⟨log₁, entering⟩ := @enter_ok rules p (around.level + 1) ⟨around :: outer, log⟩
  obtain ⟨symbols, own, log₂, bound, grows⟩ :=
    @parameters_ok rules ⟨.opened p (around.level + 1) :: around :: outer, log₁⟩ _ _ parameters rfl
  refine ⟨symbols, own, around, log₂, ?_, ?_, entered⟩
  · rw [opening, Work.bind_of_ok inserted, Work.bind_of_ok (level_ok rfl), Work.bind_of_ok entering]
    exact bound
  · intro s
    rw [grows s, Scope.has_opened]
    simp

/-- The scope of a procedure is ready for its block when the parameters are known to its symbol. The
procedure is entered once more for that, so the names stay the same. -/
theorem opening_completed (p : String) (parameters : List Binding)
    (opened : st.chain = scope :: outer) :
    ∃ own around log,
      (opening rules p parameters >>= completeProcedure p) st =
        .ok () ⟨own :: around :: outer, log⟩ ∧
      (∀ s, own.has s = true ↔ s ∈ Binding.names parameters) ∧ scope.Grows [p] around := by
  obtain ⟨symbols, own, around, log, ready, has, entered⟩ :=
    @opening_ok rules st scope outer p parameters opened
  obtain ⟨log', completed⟩ :=
    @completeProcedure_ok ⟨own :: around :: outer, log⟩ around outer own p symbols rfl
  have again : around.Grows [p] (around.insert (.procedure p symbols)) := Scope.grows_insert
  refine ⟨own, around.insert (.procedure p symbols), log', ?_, has, fun s => ?_⟩
  · rw [Work.bind_of_ok ready]
    exact completed
  · rw [again s, entered s, or_assoc, or_self]

/-- A procedure is its opening, then its block, then the end of its scope. -/
theorem decl_procedure (rules : ScopeRules) (p : String) (parameters : List Binding)
    (inner : List Decl) (body : List Stmt) :
    decl rules (.procedure p parameters inner body) =
      (opening rules p parameters >>= completeProcedure p) >>= fun _ =>
        decls rules inner >>= fun _ => stmts rules body >>= fun _ => close rules p := by
  rw [decl, opening]
  simp only [bind_assoc]

/-- A procedure comes down to its block: it is entered, and a scope is opened that has its
parameters. -/
theorem procedure_eq (p : String) (parameters : List Binding) (inner : List Decl) (body : List Stmt)
    (opened : st.chain = scope :: outer) :
    ∃ own around log,
      decl rules (.procedure p parameters inner body) st =
        (decls rules inner >>= fun _ => stmts rules body >>= fun _ => close rules p)
          ⟨own :: around :: outer, log⟩ ∧
      (∀ s, own.has s = true ↔ s ∈ Binding.names parameters) ∧ scope.Grows [p] around := by
  obtain ⟨own, around, log, ready, has, grows⟩ :=
    @opening_completed rules st scope outer p parameters opened
  refine ⟨own, around, log, ?_, has, grows⟩
  rw [decl_procedure, Work.bind_of_ok ready]

/-- A procedure is settled by its block, in a scope of its own that has its parameters. -/
theorem procedure_meets (literals : rules.literals = true) {p : String}
    {parameters : List Binding} {inner : List Decl} {body : List Stmt}
    (regular : Stmt.AllRegular names body) (opened : st.chain = scope :: outer)
    (sees : ScopeChain.Sees names (scope :: outer) visible)
    (block : ∀ {st' scope' outer' visible' here'}, st'.chain = scope' :: outer' →
      (∀ s, names s → (scope'.has s = true ↔ s ∈ here')) →
      ScopeChain.Sees names (scope' :: outer') visible' →
      Meets names (decls rules inner st') (Decl.sightingsAll visible' here' inner)
        (ScopeChain.Grown scope' outer' (inner.map Decl.name))) :
    Meets names (decl rules (.procedure p parameters inner body) st)
      ((Decl.procedure p parameters inner body).sightings visible here)
      (ScopeChain.Grown scope outer [p]) := by
  obtain ⟨own, around, log, same, has, grows⟩ :=
    @procedure_eq rules st scope outer p parameters inner body opened
  -- the block sees its parameters, the procedure itself and what is around it
  have sees' := sees_enter (sees_grows sees grows) has
  rw [same, Decl.sightings]
  refine (block rfl (fun s _ => has s) sees').bind ?_
  rintro _ st' ⟨own', opened', grows'⟩
  -- closing the scope adds no fault
  rw [← List.append_nil (sightedAt _ _)]
  refine (stmts_meets literals regular opened' (sees_grows sees' grows')).bind ?_
  intro _ st'' kept
  obtain ⟨log', closed⟩ := @close_ok rules st'' own' (around :: outer) p kept
  rw [closed]
  exact ⟨rfl, around, rfl, grows⟩

/-- Declarations are settled in order, and the innermost scope grows by their names. -/
theorem decls_meets (literals : rules.literals = true) {ds : List Decl}
    (regular : Decl.AllRegular names ds) (opened : st.chain = scope :: outer)
    (knows : ∀ s, names s → (scope.has s = true ↔ s ∈ here))
    (sees : ScopeChain.Sees names (scope :: outer) visible) :
    Meets names (decls rules ds st) (Decl.sightingsAll visible here ds)
      (ScopeChain.Grown scope outer (ds.map Decl.name)) := by
  induction regular generalizing st scope outer visible here with
  | nil => exact ⟨rfl, scope, opened, .nil⟩
  | var proper _ ih =>
    exact decls_cons_meets knows sees (localVariable_meets opened proper knows sees) ih
  | procedure _ regular _ ihInner ihRest =>
    exact decls_cons_meets knows sees
      (procedure_meets literals regular opened sees ihInner) ihRest

/-! ## Programs -/

/-- A program as far as its block: its scope is opened, with the built-in types. -/
def beginning (rules : ScopeRules) : ScopeWork Unit := do
  enter rules "global" 1
  Symbol.builtins.forM (insert rules)

/-- The scope of a program has the built-in types. -/
theorem beginning_ok (st : ScopeState) :
    ∃ scope log, beginning rules st = .ok () ⟨scope :: st.chain, log⟩ ∧
      (Scope.opened "global" 1).Grows ["INTEGER", "REAL"] scope := by
  let fresh : Scope := .opened "global" 1
  let first : Scope := fresh.insert (.builtin "INTEGER")
  obtain ⟨log, entering⟩ := @enter_ok rules "global" 1 st
  obtain ⟨log₁, inserted⟩ :=
    @insert_ok rules ⟨fresh :: st.chain, log⟩ fresh st.chain (.builtin "INTEGER") rfl
  obtain ⟨log₂, inserted'⟩ :=
    @insert_ok rules ⟨first :: st.chain, log₁⟩ first st.chain (.builtin "REAL") rfl
  have builtins : Symbol.builtins.forM (insert rules) ⟨fresh :: st.chain, log⟩ =
      .ok () ⟨first.insert (.builtin "REAL") :: st.chain, log₂⟩ :=
    (Work.bind_of_ok inserted).trans (Work.bind_of_ok inserted')
  refine ⟨first.insert (.builtin "REAL"), log₂, ?_, Scope.grows_insert.append Scope.grows_insert⟩
  rw [beginning, Work.bind_of_ok entering, builtins]

/-- A program is its beginning, then its block, then the end of its scope. -/
theorem program_eq_beginning (rules : ScopeRules) (p : Program) :
    program rules p =
      beginning rules >>= fun _ => block rules p.block >>= fun _ => close rules "global" := by
  rw [program, beginning, bind_assoc]

/-- A program comes down to its block, in a scope that has the built-in types. -/
theorem program_eq (p : Program) (st : ScopeState) :
    ∃ scope log,
      program rules p st =
        (block rules p.block >>= fun _ => close rules "global") ⟨scope :: st.chain, log⟩ ∧
      (Scope.opened "global" 1).Grows ["INTEGER", "REAL"] scope := by
  obtain ⟨scope, log, begun, grows⟩ := @beginning_ok rules st
  refine ⟨scope, log, ?_, grows⟩
  rw [program_eq_beginning, Work.bind_of_ok begun]

/-- The names that are not those of built-in types. -/
def Ordinary (s : String) : Prop := s ∉ ["INTEGER", "REAL"]

/-- The analysis of a program meets its violations, if the names in the scopes around it are those that
can be seen there. -/
theorem program_meets (literals : rules.literals = true) {p : Program} {around : List String}
    (regular : Decl.AllRegular Ordinary p.block.declarations)
    (regular' : Stmt.AllRegular Ordinary p.block.body)
    (sees : ScopeChain.Sees Ordinary st.chain around) :
    Meets Ordinary (program rules p st) (p.sightings around) (· = st.chain) := by
  obtain ⟨scope, log, same, grows⟩ := @program_eq rules p st
  -- the built-in types are in scope, but they are no names of the class
  have knows : ∀ s, Ordinary s → (scope.has s = true ↔ s ∈ ([] : List String)) := by
    intro s ordinary
    rw [grows s, Scope.has_opened]
    simpa [Ordinary] using ordinary
  have sees' : ScopeChain.Sees Ordinary (scope :: st.chain) around := by
    intro s ordinary
    rw [ScopeChain.has_cons, knows s ordinary, sees s ordinary]
    simp
  rw [same, block, bind_assoc, Program.sightings]
  refine (decls_meets literals regular rfl knows sees').bind ?_
  rintro _ st' ⟨scope', opened, grows'⟩
  rw [← List.append_nil (sightedAt _ _)]
  refine (stmts_meets literals regular' opened (sees_grows sees' grows')).bind ?_
  intro _ st'' kept
  obtain ⟨log', closed⟩ := @close_ok rules st'' scope' st.chain "global" kept
  rw [closed]
  exact ⟨rfl, rfl⟩

/-- The analysis of a program settles its violations. -/
theorem program_settles (literals : rules.literals = true) {p : Program}
    (regular : Decl.AllRegular Ordinary p.block.declarations)
    (regular' : Stmt.AllRegular Ordinary p.block.body) (unopened : st.chain = []) :
    Settles (program rules p st) p.violations (· = []) := by
  have sees : ScopeChain.Sees Ordinary st.chain [] := by
    intro s _
    rw [unopened]
    simp [ScopeChain.Has]
  have settles := (program_meets literals regular regular' sees).settles
  rw [p.map_fst_sightings, unopened] at settles
  exact settles

end Scoped

end LittlePascal
