import LittlePascal.Proofs.Execution
import LittlePascal.Proofs.PrintedTables
import LittlePascal.Proofs.Succession
import LittlePascal.Proofs.Verdict

/-! # The journal of an analysis

The lines that the analysis of scopes writes are a journal: which scope is entered and left, which name is
entered into a scope and which is looked up. For a program that is accepted the journal follows the
declarations, and a scope is written down with its symbols just before it is left.

Main definitions:
* `JournalEntry`: an entry, with the lines that it stands for;
* `SymbolMap.ofSymbols`: the table of symbols declared one after the other;
* `Decl.events`, `Program.events`: the entries of declarations and programs, without look-ups.

Main statements:
* `Scoped.stmts_looks`: statements write look-ups and leave the scopes as they are;
* `Scoped.decls_records`: declarations write their events;
* `journal_of_accepted`: the journal of a program. -/

namespace LittlePascal

/-! ## Tables of declared symbols -/

namespace OrderedMap

variable {α : Type}

/-- Of two values for one name the second one stays. -/
theorem set_set (m : OrderedMap α) (name : String) (first second : α) :
    (m.set name first).set name second = m.set name second := by
  have entries : ∀ entries : List (String × α),
      setEntry name second (setEntry name first entries) = setEntry name second entries := by
    intro entries
    induction entries with
    | nil => simp [setEntry]
    | cons entry rest ih =>
      by_cases same : name = entry.1
      · simp [setEntry, same]
      · simp [setEntry, same, ih]
  rw [set, set, set, entries]

end OrderedMap

namespace SymbolMap

/-- The table of symbols that are declared one after the other: each name where it is first declared, with the
symbol that is declared last under it. -/
def ofSymbols (symbols : List Symbol) : SymbolMap :=
  ⟨(symbols.map Symbol.name).eraseDups.filterMap fun name =>
    (symbols.reverse.find? (·.name = name)).map (name, ·)⟩

/-- Symbols entered one after the other make that table. -/
theorem setAll_eq_ofSymbols (symbols : List Symbol) :
    OrderedMap.empty.setAll (symbols.map fun s => (s.name, s)) = ofSymbols symbols := by
  have found : ∀ (m : SymbolMap) (name : String),
      (m.setAll (symbols.map fun s => (s.name, s))).get? name =
        (symbols.reverse.find? (·.name = name)).or (m.get? name) := by
    induction symbols with
    | nil => exact fun m name => rfl
    | cons symbol rest ih =>
      intro m name
      rw [List.map_cons, OrderedMap.setAll_cons, ih, OrderedMap.get?_set, List.reverse_cons,
        List.find?_append, Option.or_assoc]
      by_cases same : name = symbol.name
      · simp [same]
      · simp [same, Ne.symm same]
  have names : (OrderedMap.empty.setAll (symbols.map fun s => (s.name, s))).names =
      (symbols.map Symbol.name).eraseDups := by
    rw [OrderedMap.names_setAll, OrderedMap.names_empty, List.nil_append, List.map_map]
    rw [List.removeAll_nil]
    rfl
  -- a table is told by its names and what is found under them
  have entries := OrderedMap.entries_eq
    (OrderedMap.nodup_names_setAll (m := OrderedMap.empty) List.nodup_nil
      (symbols.map fun s : Symbol => (s.name, s)))
  rw [names] at entries
  simp only [found, OrderedMap.get?_empty, Option.or_none] at entries
  exact congrArg OrderedMap.mk entries

end SymbolMap

namespace Scope

/-- Symbols are entered into a scope one after the other. -/
def declare (scope : Scope) (symbols : List Symbol) : Scope := symbols.foldl insert scope

@[simp] theorem declare_nil (scope : Scope) : scope.declare [] = scope := rfl

@[simp] theorem declare_cons (scope : Scope) (symbol : Symbol) (symbols : List Symbol) :
    scope.declare (symbol :: symbols) = (scope.insert symbol).declare symbols := rfl

theorem declare_append (scope : Scope) (first second : List Symbol) :
    scope.declare (first ++ second) = (scope.declare first).declare second := List.foldl_append

/-- Declarations change nothing but the symbols. -/
theorem declare_eq (scope : Scope) (symbols : List Symbol) :
    scope.declare symbols =
      ⟨scope.name, scope.level, scope.symbols.setAll (symbols.map fun s => (s.name, s))⟩ := by
  induction symbols generalizing scope with
  | nil => rfl
  | cons symbol rest ih =>
    rw [declare_cons, ih]
    rfl

/-- What has been declared in a scope that was opened without symbols. -/
theorem declare_opened (name : String) (level : Nat) (symbols : List Symbol) :
    (opened name level).declare symbols = ⟨name, level, .ofSymbols symbols⟩ := by
  rw [declare_eq, ← SymbolMap.setAll_eq_ofSymbols]
  rfl

/-- A symbol that is entered twice under one name is there as it was entered last. -/
theorem insert_insert (first second : Symbol) (same : first.name = second.name) (scope : Scope) :
    (scope.insert first).insert second = scope.insert second := by
  simp only [insert, OrderedMap.insertSymbol, same, OrderedMap.set_set]

end Scope

/-! ## Entries -/

/-- What the analysis notes down. -/
inductive JournalEntry where
  | entered (name : String)
  | inserted (name : String)
  | examined (name : String) (scope : Scope)
  /-- A scope is left; the argument `enclosing` is the name of the scope around it. -/
  | left (scope : Scope) (enclosing : Option String)

namespace JournalEntry

/-- The lines of an entry. A scope that is left is written down first. -/
def lines : JournalEntry → List String
  | .entered name => ["ENTER scope: " ++ name]
  | .inserted name => ["Insert: " ++ name]
  | .examined name scope => ["Lookup: " ++ name ++ ". (Scope name: " ++ scope.name ++ ")"]
  | .left scope enclosing => [scope.printed enclosing, "LEAVE scope: " ++ scope.name]

/-- Whether an entry is more than a look-up. -/
def isEvent : JournalEntry → Bool
  | .examined _ _ => false
  | _ => true

end JournalEntry

/-- The symbol of a variable or a parameter. -/
def Binding.symbol (binding : Binding) : Symbol :=
  .var binding.id.name (some (.builtin binding.type.type.name))

/-- The entry for a variable or a parameter. -/
def Binding.event (binding : Binding) : JournalEntry := .inserted binding.id.name

namespace Decl

/-- The symbol that a declaration leaves in its scope. -/
def symbol : Decl → Symbol
  | .var binding => binding.symbol
  | .procedure name parameters _ _ => .procedure name (parameters.map Binding.symbol)

mutual

/-- The events of a declaration inside procedures, the innermost one first. A procedure has a scope between
whose two ends the events of its parameters and of its declarations stand. -/
def events (path : List String) : Decl → List JournalEntry
  | .var binding => [binding.event]
  | .procedure name parameters declarations _ =>
    .inserted name :: .entered name :: (parameters.map Binding.event ++
      eventsAll (name :: path) declarations ++
      [.left ⟨name, path.length + 2, .ofSymbols (parameters.map Binding.symbol ++ declarations.map symbol)⟩
        (some (path.headD "global"))])

/-- The events of declarations, in order. -/
def eventsAll (path : List String) : List Decl → List JournalEntry
  | [] => []
  | declaration :: rest => events path declaration ++ eventsAll path rest

end

/-- Declarations that give names of a class alone, to parameters too. -/
inductive AllNamed (names : String → Prop) : List Decl → Prop where
  | nil : AllNamed names []
  | var {binding : Binding} {rest : List Decl} :
      names binding.id.name → AllNamed names rest → AllNamed names (.var binding :: rest)
  | procedure {p : String} {parameters : List Binding} {ds rest : List Decl} {body : List Stmt} :
      names p → (∀ binding ∈ parameters, names binding.id.name) → AllNamed names ds →
      AllNamed names rest → AllNamed names (.procedure p parameters ds body :: rest)

end Decl

/-- The events of a program: those of its declarations, in a scope that has the built-in types. -/
def Program.events (p : Program) : List JournalEntry :=
  .entered "global" :: (Symbol.builtins.map fun type => .inserted type.name) ++
    Decl.eventsAll [] p.block.declarations ++
    [.left ⟨"global", 1, .ofSymbols (Symbol.builtins ++ p.block.declarations.map Decl.symbol)⟩ none]

/-! ## Names of declarations that were read -/

section Named

variable {g : Grammar} {names : String → Prop}

/-- The parameters of a procedure. -/
theorem DerivesParameters.named {ms : List Mark} {parameters : List Binding}
    (h : DerivesParameters ms parameters) (named : Named names ms) :
    ∀ binding ∈ parameters, names binding.id.name := by
  cases h with
  | absent => simp
  | none _ _ => simp
  | @some _ _ _ groups _ forms _ =>
    have all : ∀ group ∈ groups, ∀ binding ∈ group, names binding.id.name := by
      refine forms.forall_mem ?_ (named_append.mp named.tail).1
      exact fun named form => form.named named
    intro binding member
    obtain ⟨group, among, member⟩ := List.mem_flatten.mp member
    exact all group among binding member

/-- Variables before declarations with names of a class. -/
theorem Decl.AllNamed.append {vars ds : List Decl}
    (all : ∀ d ∈ vars, ∃ binding, d = .var binding ∧ names binding.id.name)
    (h : Decl.AllNamed names ds) : Decl.AllNamed names (vars ++ ds) := by
  induction vars with
  | nil => exact h
  | cons d rest ih =>
    obtain ⟨binding, rfl, proper⟩ := all d List.mem_cons_self
    exact .var proper (ih fun d member => all d (List.mem_cons_of_mem _ member))

mutual

/-- Derived procedures give names of the class alone. -/
theorem repeated_allNamed {ms : List Mark} {ds : List Decl} :
    Repeated (DerivesProcedure g) ms ds → Named names ms → Decl.AllNamed names ds
  | .nil, _ => .nil
  | .cons (.procedure _ name parameters _ form _) forms, named => by
    obtain ⟨first, rest⟩ := named_append.mp named
    obtain ⟨second, third⟩ := named_append.mp first.tail.tail
    exact .procedure (first.tail.head name) (parameters.named second)
      (form.allNamed (named_append.mp third.tail).1) (repeated_allNamed forms rest)

/-- The declarations of a derived block. -/
theorem DerivesBlock.allNamed {ms : List Mark} {b : Block} :
    DerivesBlock g ms b → Named names ms → Decl.AllNamed names b.declarations
  | .block vars forms _, named => by
    obtain ⟨first, rest⟩ := named_append.mp named
    exact .append (vars.named first) (repeated_allNamed forms (named_append.mp rest).1)

end

/-- The declarations of a derived program. -/
theorem Grammar.Derives.allNamed {ms : List Mark} {p : Program} (h : g.Derives ms p)
    (named : Named names ms) : Decl.AllNamed names p.block.declarations := by
  cases h with
  | program _ _ _ form _ => exact form.allNamed (named_append.mp named.tail.tail.tail).1

end Named

/-! ## What is written -/

/-- Between two states entries have been written, and these are the events among them. -/
def ScopeState.Adds (st st' : ScopeState) (events : List JournalEntry) : Prop :=
  ∃ entries : List JournalEntry, st'.log.toList = st.log.toList ++ entries.flatMap JournalEntry.lines ∧
    entries.filter JournalEntry.isEvent = events

namespace ScopeState.Adds

variable {st st' st'' : ScopeState} {events events' : List JournalEntry}

/-- Nothing has been written. -/
theorem refl (st : ScopeState) : st.Adds st [] := ⟨[], by simp, rfl⟩

/-- One step after the other. -/
theorem append (first : st.Adds st' events) (second : st'.Adds st'' events') :
    st.Adds st'' (events ++ events') := by
  obtain ⟨entries, lines, rfl⟩ := first
  obtain ⟨entries', lines', rfl⟩ := second
  exact ⟨entries ++ entries', by rw [lines', lines, List.flatMap_append, List.append_assoc],
    List.filter_append ..⟩

/-- Look-ups before events add nothing to them. -/
theorem after (first : st.Adds st' []) (second : st'.Adds st'' events) : st.Adds st'' events :=
  first.append second

end ScopeState.Adds

/-- Work that has ended, well or not, with look-ups alone: the scopes are as they were. -/
def ScopeState.Looks {α : Type} (st : ScopeState) : EStateM.Result Fault ScopeState α → Prop
  | .ok _ st' => st'.chain = st.chain ∧ st.Adds st' []
  | .error _ st' => st'.chain = st.chain ∧ st.Adds st' []

namespace Scoped

variable {α β : Type} {rules : ScopeRules} {st : ScopeState}

/-- Work that looks up, before other such work, looks up. -/
theorem looks_bind {work : ScopeWork α} {next : α → ScopeWork β} (first : st.Looks (work st))
    (later : ∀ a (st' : ScopeState), st'.Looks (next a st')) : st.Looks ((work >>= next) st) := by
  cases outcome : work st with
  | ok a st' =>
    rw [outcome] at first
    obtain ⟨same, adds⟩ := first
    rw [Work.bind_of_ok outcome]
    have second := later a st'
    revert second
    cases next a st' <;> exact fun ⟨same', adds'⟩ => ⟨same'.trans same, adds.after adds'⟩
  | error fault st' =>
    rw [outcome] at first
    rw [Work.bind_of_error outcome]
    exact first

/-- A line is written. -/
theorem write_eq (logs : rules.logs = true) (line : String) (st : ScopeState) :
    write rules line st = .ok () ⟨st.chain, st.log.push line⟩ := by
  simp [write, logs]
  rfl

/-- Looking a name up in given scopes. -/
theorem lookupIn_looks (chain : ScopeChain) (name : String) (st : ScopeState) :
    ∃ log, lookupIn rules chain name st = .ok (chain.lookup? name) ⟨st.chain, log⟩ ∧
      st.Adds ⟨st.chain, log⟩ [] := by
  have written : ∀ (scopes : List Scope) (st : ScopeState), ∃ log,
      (scopes.forM fun scope => write rules (lookupLine name scope)) st = .ok () ⟨st.chain, log⟩ ∧
        st.Adds ⟨st.chain, log⟩ [] := by
    intro scopes
    induction scopes with
    | nil => exact fun st => ⟨st.log, rfl, .refl st⟩
    | cons scope rest ih =>
      intro st
      -- without lines nothing is added, which is no event either
      cases logs : rules.logs with
      | true =>
        obtain ⟨log, further, adds⟩ := ih ⟨st.chain, st.log.push (lookupLine name scope)⟩
        have one : st.Adds ⟨st.chain, st.log.push (lookupLine name scope)⟩ [] :=
          ⟨[.examined name scope], by simp [JournalEntry.lines, lookupLine], rfl⟩
        exact ⟨log, (Work.bind_of_ok (write_eq logs _ st)).trans further, one.after adds⟩
      | false =>
        obtain ⟨log, further, adds⟩ := ih st
        have silent : write rules (lookupLine name scope) st = .ok () st := by
          simp [write, logs]
          rfl
        exact ⟨log, (Work.bind_of_ok silent).trans further, adds⟩
  obtain ⟨log, ran, adds⟩ := written (chain.examined name) st
  exact ⟨log, Work.bind_of_ok ran, adds⟩

variable {scope : Scope} {outer : ScopeChain}

/-- Looking a name up in all open scopes. -/
theorem lookup_adds (name : String) (opened : st.chain = scope :: outer) :
    ∃ log, lookup rules name st =
        .ok (ScopeChain.lookup? (scope :: outer) name) ⟨scope :: outer, log⟩ ∧
      st.Adds ⟨scope :: outer, log⟩ [] := by
  obtain ⟨log, found, adds⟩ := @lookupIn_looks rules (scope :: outer) name st
  rw [opened] at found adds
  refine ⟨log, ?_, adds⟩
  rw [lookup, Work.get_bind, opened]
  exact found

/-- Looking a name up in the innermost scope. -/
theorem lookupHere_adds (name : String) (opened : st.chain = scope :: outer) :
    ∃ log, lookupHere rules name st =
        .ok (ScopeChain.lookup? [scope] name) ⟨scope :: outer, log⟩ ∧
      st.Adds ⟨scope :: outer, log⟩ [] := by
  obtain ⟨log, found, adds⟩ := @lookupIn_looks rules [scope] name st
  rw [opened] at found adds
  refine ⟨log, ?_, adds⟩
  rw [lookupHere, Work.get_bind, opened]
  exact found

/-- Entering a symbol is an event. -/
theorem insert_adds (logs : rules.logs = true) (symbol : Symbol) (opened : st.chain = scope :: outer) :
    ∃ log, insert rules symbol st = .ok () ⟨scope.insert symbol :: outer, log⟩ ∧
      st.Adds ⟨scope.insert symbol :: outer, log⟩ [.inserted symbol.name] := by
  refine ⟨st.log.push ("Insert: " ++ symbol.name), ?_, [.inserted symbol.name], ?_, rfl⟩
  · rw [insert, Work.get_bind, opened]
    exact Work.bind_of_ok (write_eq logs _ st)
  · simp [JournalEntry.lines]

/-- Opening a scope is an event. -/
theorem enter_adds (logs : rules.logs = true) (name : String) (level : Nat) (st : ScopeState) :
    ∃ log, enter rules name level st = .ok () ⟨Scope.opened name level :: st.chain, log⟩ ∧
      st.Adds ⟨Scope.opened name level :: st.chain, log⟩ [.entered name] :=
  ⟨st.log.push ("ENTER scope: " ++ name), Work.bind_of_ok (write_eq logs _ st), [.entered name],
    by simp [JournalEntry.lines], rfl⟩

/-- Closing a scope under its own name is an event. -/
theorem close_adds (logs : rules.logs = true) (opened : st.chain = scope :: outer) :
    ∃ log, close rules scope.name st = .ok () ⟨outer, log⟩ ∧
      st.Adds ⟨outer, log⟩ [.left scope (outer.head?.map Scope.name)] := by
  let text := scope.text (outer.head?.map Scope.name)
  refine ⟨(st.log.push text).push ("LEAVE scope: " ++ scope.name), ?_,
    [.left scope (outer.head?.map Scope.name)], ?_, rfl⟩
  · have first := write_eq logs text st
    have second := write_eq logs ("LEAVE scope: " ++ scope.name) ⟨outer, st.log.push text⟩
    rw [opened] at first
    rw [close, Work.get_bind, opened]
    exact (Work.bind_of_ok first).trans second
  · simp [JournalEntry.lines, text, Scope.text_eq_printed]

/-! ## Statements -/

/-- A use looks its name up. -/
theorem use_looks (id : Ident) (st : ScopeState) : st.Looks (use rules id st) := by
  obtain ⟨chain, log⟩ := st
  cases chain with
  | nil =>
    -- without an open scope the look-up fails before anything is written
    exact ⟨rfl, .refl _⟩
  | cons scope outer =>
    obtain ⟨log', found, adds⟩ := @lookup_adds rules ⟨scope :: outer, log⟩ scope outer id.name rfl
    rw [use, Work.bind_of_ok found]
    split <;> exact ⟨rfl, adds⟩

/-- An expression looks its variables up. -/
theorem expr_looks (e : Expr) (st : ScopeState) : st.Looks (expr rules e st) := by
  induction e generalizing st with
  | var id => exact use_looks id st
  | binary _ _ left right left_ih right_ih =>
    rw [expr]
    exact looks_bind (left_ih st) fun _ => right_ih
  | hole => exact ⟨rfl, .refl _⟩
  | literal _ _ =>
    rw [expr]
    · split <;> exact ⟨rfl, .refl _⟩
    all_goals simp
  | signed _ _ _ _ =>
    rw [expr]
    · split <;> exact ⟨rfl, .refl _⟩
    all_goals simp

/-- Arguments look their variables up. -/
theorem arguments_looks (arguments : List Expr) (st : ScopeState) :
    st.Looks (arguments.forM (expr rules) st) := by
  induction arguments generalizing st with
  | nil => exact ⟨rfl, .refl _⟩
  | cons e rest ih => exact looks_bind (expr_looks e st) fun _ => ih

mutual

/-- A statement looks its variables up. -/
theorem stmt_looks (s : Stmt) (st : ScopeState) : st.Looks (stmt rules s st) := by
  cases s with
  | compound children =>
    rw [stmt]
    exact stmts_looks children st
  | assign target place value =>
    rw [stmt]
    exact looks_bind (expr_looks value st) fun _ => use_looks target
  | call p arguments =>
    rw [stmt]
    exact arguments_looks arguments st
  | empty => exact ⟨rfl, .refl _⟩

/-- Statements look their variables up, and do nothing else. -/
theorem stmts_looks (body : List Stmt) (st : ScopeState) : st.Looks (stmts rules body st) := by
  cases body with
  | nil => exact ⟨rfl, .refl _⟩
  | cons s rest =>
    rw [stmts]
    exact looks_bind (stmt_looks s st) fun _ => stmts_looks rest

end

/-! ## Declarations -/

/-- The innermost scope is that of the first procedure of a path or, without procedures, that of the program,
and the built-in types are found from it. -/
structure Hosts (path : List String) (scope : Scope) (outer : ScopeChain) : Prop where
  name : scope.name = path.headD "global"
  level : scope.level = path.length + 1
  types : ∀ t : BaseType, ScopeChain.lookup? (scope :: outer) t.name = some (.builtin t.name)

namespace Hosts

variable {path : List String}

/-- An ordinary symbol is entered. -/
theorem insert (hosts : Hosts path scope outer) {symbol : Symbol} (ordinary : Ordinary symbol.name) :
    Hosts path (scope.insert symbol) outer := by
  refine ⟨hosts.name, hosts.level, fun t => ?_⟩
  -- a declared name hides no type
  have other : t.name ≠ symbol.name := by
    intro same
    rw [← same] at ordinary
    cases t <;> exact ordinary (by decide)
  rw [← hosts.types t]
  simp [ScopeChain.lookup?, Scope.insert, OrderedMap.insertSymbol, other]

/-- Ordinary symbols are entered. -/
theorem declare (hosts : Hosts path scope outer) {symbols : List Symbol}
    (ordinary : ∀ symbol ∈ symbols, Ordinary symbol.name) : Hosts path (scope.declare symbols) outer := by
  induction symbols generalizing scope with
  | nil => exact hosts
  | cons symbol rest ih =>
    obtain ⟨first, later⟩ := List.forall_mem_cons.mp ordinary
    exact ih (hosts.insert first) later

/-- The scope of a procedure is opened. -/
theorem enter (hosts : Hosts path scope outer) (p : String) :
    Hosts (p :: path) (.opened p (scope.level + 1)) (scope :: outer) :=
  ⟨rfl, congrArg (· + 1) hosts.level, hosts.types⟩

end Hosts

variable {path : List String} {st' : ScopeState}

/-- A parameter is entered with its type. -/
theorem parameter_adds (logs : rules.logs = true) (binding : Binding) (opened : st.chain = scope :: outer)
    (hosts : Hosts path scope outer) :
    ∃ log, parameter rules binding st = .ok binding.symbol ⟨scope.insert binding.symbol :: outer, log⟩ ∧
      st.Adds ⟨scope.insert binding.symbol :: outer, log⟩ [binding.event] := by
  obtain ⟨log, found, looked⟩ := @lookup_adds rules st scope outer binding.type.type.name opened
  rw [hosts.types] at found
  obtain ⟨log', entered, adds⟩ :=
    @insert_adds rules ⟨scope :: outer, log⟩ scope outer logs binding.symbol rfl
  refine ⟨log', ?_, looked.after adds⟩
  rw [parameter, Work.bind_of_ok found]
  exact Work.bind_of_ok entered

/-- Parameters are entered in order. -/
theorem parameters_adds (logs : rules.logs = true) {parameters : List Binding}
    (ordinary : ∀ binding ∈ parameters, Ordinary binding.id.name) (opened : st.chain = scope :: outer)
    (hosts : Hosts path scope outer) :
    ∃ log, parameters.mapM (parameter rules) st = .ok (parameters.map Binding.symbol)
        ⟨scope.declare (parameters.map Binding.symbol) :: outer, log⟩ ∧
      st.Adds ⟨scope.declare (parameters.map Binding.symbol) :: outer, log⟩
        (parameters.map Binding.event) := by
  induction parameters generalizing st scope with
  | nil =>
    obtain ⟨chain, log⟩ := st
    cases opened
    exact ⟨log, rfl, .refl _⟩
  | cons binding rest ih =>
    obtain ⟨first, later⟩ := List.forall_mem_cons.mp ordinary
    obtain ⟨log, entered, adds⟩ := parameter_adds logs binding opened hosts
    obtain ⟨log', further, adds'⟩ :=
      @ih ⟨scope.insert binding.symbol :: outer, log⟩ (scope.insert binding.symbol) later rfl
        (hosts.insert first)
    refine ⟨log', ?_, adds.append adds'⟩
    rw [List.mapM_cons, Work.bind_of_ok entered, Work.bind_of_ok further]
    rfl

/-- A variable that is entered is entered with its type. -/
theorem localVariable_records (logs : rules.logs = true) {binding : Binding}
    (opened : st.chain = scope :: outer) (hosts : Hosts path scope outer)
    (ran : localVariable rules binding st = .ok () st') :
    st'.chain = scope.insert binding.symbol :: outer ∧ st.Adds st' [binding.event] := by
  obtain ⟨log, found, looked⟩ := @lookup_adds rules st scope outer binding.type.type.name opened
  rw [hosts.types] at found
  obtain ⟨log₁, met, looked₁⟩ :=
    @lookupHere_adds rules ⟨scope :: outer, log⟩ scope outer binding.id.name rfl
  obtain ⟨log₂, entered, adds⟩ :=
    @insert_adds rules ⟨scope :: outer, log₁⟩ scope outer logs binding.symbol rfl
  rw [localVariable, Work.bind_of_ok found, Work.bind_of_ok met] at ran
  cases known : (ScopeChain.lookup? [scope] binding.id.name).isSome with
  | true =>
    -- a name that is not new is refused
    rw [known] at ran
    cases ran
  | false =>
    rw [known] at ran
    cases entered.symm.trans ran
    exact ⟨rfl, looked.after (looked₁.after adds)⟩

/-- A procedure is entered with its parameters, and its own scope has them. -/
theorem opening_adds (logs : rules.logs = true) {p : String} {parameters : List Binding}
    (proper : Ordinary p) (ordinary : ∀ binding ∈ parameters, Ordinary binding.id.name)
    (opened : st.chain = scope :: outer) (hosts : Hosts path scope outer) :
    let own := (Scope.opened p (scope.level + 1)).declare (parameters.map Binding.symbol)
    let around := scope.insert (.procedure p (parameters.map Binding.symbol))
    Hosts (p :: path) own (around :: outer) ∧
    ∃ log, (opening rules p parameters >>= completeProcedure p) st = .ok () ⟨own :: around :: outer, log⟩ ∧
      st.Adds ⟨own :: around :: outer, log⟩
        (.inserted p :: .entered p :: parameters.map Binding.event) := by
  intro own around
  have hosts' : ∀ symbols, Hosts path (scope.insert (.procedure p symbols)) outer :=
    fun symbols => hosts.insert (show Ordinary (Symbol.procedure p symbols).name from proper)
  refine ⟨((hosts' _).enter p).declare (List.forall_mem_map.mpr ordinary), ?_⟩
  -- the procedure is entered without its parameters, and then once more
  let blank := scope.insert (.procedure p [])
  have again : blank.insert (.procedure p (parameters.map Binding.symbol)) = around :=
    Scope.insert_insert (.procedure p []) (.procedure p (parameters.map Binding.symbol)) rfl scope
  obtain ⟨log, inserted, adds⟩ := @insert_adds rules st scope outer logs (.procedure p []) opened
  obtain ⟨log₁, entered, adds₁⟩ := @enter_adds rules logs p (blank.level + 1) ⟨blank :: outer, log⟩
  obtain ⟨log₂, bound, adds₂⟩ := @parameters_adds rules
    ⟨.opened p (blank.level + 1) :: blank :: outer, log₁⟩ _ _ _ logs parameters ordinary rfl
    ((hosts' []).enter p)
  have completed : completeProcedure p (parameters.map Binding.symbol) ⟨own :: blank :: outer, log₂⟩ =
      .ok () ⟨own :: around :: outer, log₂⟩ := by
    rw [← again]
    rfl
  refine ⟨log₂, ?_, adds.append (adds₁.append adds₂)⟩
  rw [opening]
  simp only [bind_assoc]
  rw [Work.bind_of_ok inserted, Work.bind_of_ok (level_ok rfl), Work.bind_of_ok entered,
    Work.bind_of_ok bound]
  exact completed

/-- The statements of a block and the end of its scope: the scope is written down as they find it. -/
theorem ending_records (logs : rules.logs = true) {body : List Stmt} (opened : st.chain = scope :: outer)
    (ran : (stmts rules body >>= fun _ => close rules scope.name) st = .ok () st') :
    st'.chain = outer ∧ st.Adds st' [.left scope (outer.head?.map Scope.name)] := by
  obtain ⟨_, st₁, looked, ran⟩ := Work.bind_eq_ok.mp ran
  have looks := @stmts_looks rules body st
  rw [looked] at looks
  obtain ⟨same, adds⟩ := looks
  obtain ⟨log, closed, adds'⟩ := close_adds logs (same.trans opened)
  cases closed.symm.trans ran
  exact ⟨rfl, adds.after adds'⟩

/-- A procedure records its events, if its declarations record theirs. -/
theorem procedure_records (logs : rules.logs = true) {p : String} {parameters : List Binding}
    {ds : List Decl} {body : List Stmt} (proper : Ordinary p)
    (ordinary : ∀ binding ∈ parameters, Ordinary binding.id.name) (opened : st.chain = scope :: outer)
    (hosts : Hosts path scope outer)
    (inner : ∀ {st st' : ScopeState} {scope outer}, st.chain = scope :: outer →
      Hosts (p :: path) scope outer → decls rules ds st = .ok () st' →
      st'.chain = scope.declare (ds.map Decl.symbol) :: outer ∧
        st.Adds st' (Decl.eventsAll (p :: path) ds))
    (ran : decl rules (.procedure p parameters ds body) st = .ok () st') :
    st'.chain = scope.insert (Decl.procedure p parameters ds body).symbol :: outer ∧
      st.Adds st' ((Decl.procedure p parameters ds body).events path) := by
  obtain ⟨within, log, ready, adds⟩ := opening_adds logs proper ordinary opened hosts
  rw [decl_procedure, Work.bind_of_ok ready] at ran
  obtain ⟨_, st₁, declared, ran⟩ := Work.bind_eq_ok.mp ran
  obtain ⟨same, adds₁⟩ := inner rfl within declared
  rw [← Scope.declare_append, Scope.declare_opened, hosts.level] at same
  obtain ⟨closed, adds₂⟩ := ending_records logs same ran
  refine ⟨closed, ?_⟩
  rw [Decl.events, List.append_assoc, ← hosts.name]
  exact adds.append (adds₁.append adds₂)

/-- Declarations record their events and leave their symbols in their scope. -/
theorem decls_records (logs : rules.logs = true) {ds : List Decl} (named : Decl.AllNamed Ordinary ds)
    (opened : st.chain = scope :: outer) (hosts : Hosts path scope outer)
    (ran : decls rules ds st = .ok () st') :
    st'.chain = scope.declare (ds.map Decl.symbol) :: outer ∧ st.Adds st' (Decl.eventsAll path ds) := by
  -- the induction goes along the declarations; the scopes and the path change inside procedures
  induction named generalizing st st' scope outer path with
  | nil =>
    cases ran
    exact ⟨opened, .refl _⟩
  | var proper _ ih =>
    rw [decls] at ran
    obtain ⟨_, st₁, first, later⟩ := Work.bind_eq_ok.mp ran
    obtain ⟨same, adds⟩ := localVariable_records logs opened hosts (by rwa [decl] at first)
    obtain ⟨same', adds'⟩ := ih same (hosts.insert proper) later
    refine ⟨same', ?_⟩
    rw [Decl.eventsAll, Decl.events]
    exact adds.append adds'
  | @procedure p parameters ds rest body proper ordinary _ _ inner ih =>
    rw [decls] at ran
    obtain ⟨_, st₁, first, later⟩ := Work.bind_eq_ok.mp ran
    obtain ⟨same, adds⟩ := procedure_records logs proper ordinary opened hosts inner first
    obtain ⟨same', adds'⟩ := ih same (hosts.insert proper) later
    refine ⟨same', ?_⟩
    rw [Decl.eventsAll]
    exact adds.append adds'

/-! ## Programs -/

/-- The scope of a program is opened, with the built-in types. -/
theorem beginning_adds (logs : rules.logs = true) (st : ScopeState) :
    let own := (Scope.opened "global" 1).declare Symbol.builtins
    Hosts [] own st.chain ∧
    ∃ log, beginning rules st = .ok () ⟨own :: st.chain, log⟩ ∧
      st.Adds ⟨own :: st.chain, log⟩
        (.entered "global" :: Symbol.builtins.map fun type => .inserted type.name) := by
  intro own
  let fresh : Scope := .opened "global" 1
  let first : Scope := fresh.insert (.builtin "INTEGER")
  refine ⟨⟨rfl, rfl, fun t => by cases t <;> rfl⟩, ?_⟩
  obtain ⟨log, entering, adds⟩ := @enter_adds rules logs "global" 1 st
  obtain ⟨log₁, inserted, adds₁⟩ :=
    @insert_adds rules ⟨fresh :: st.chain, log⟩ fresh st.chain logs (.builtin "INTEGER") rfl
  obtain ⟨log₂, inserted', adds₂⟩ :=
    @insert_adds rules ⟨first :: st.chain, log₁⟩ first st.chain logs (.builtin "REAL") rfl
  have builtins : Symbol.builtins.forM (insert rules) ⟨fresh :: st.chain, log⟩ =
      .ok () ⟨own :: st.chain, log₂⟩ :=
    (Work.bind_of_ok inserted).trans (Work.bind_of_ok inserted')
  refine ⟨log₂, ?_, adds.append (adds₁.append adds₂)⟩
  rw [beginning, Work.bind_of_ok entering, builtins]

/-- A program that is analysed without faults records its events, and no scope stays open. -/
theorem program_records (logs : rules.logs = true) {p : Program}
    (named : Decl.AllNamed Ordinary p.block.declarations) (unopened : st.chain = [])
    (ran : program rules p st = .ok () st') : st'.chain = [] ∧ st.Adds st' p.events := by
  obtain ⟨hosts, log, begun, adds⟩ := beginning_adds logs st
  rw [program_eq_beginning, Work.bind_of_ok begun, block, bind_assoc] at ran
  obtain ⟨_, st₁, declared, ran⟩ := Work.bind_eq_ok.mp ran
  obtain ⟨same, adds₁⟩ := decls_records logs named rfl hosts declared
  rw [← Scope.declare_append, Scope.declare_opened, unopened] at same
  obtain ⟨closed, adds₂⟩ := ending_records logs same ran
  refine ⟨closed, ?_⟩
  rw [Program.events, List.append_assoc]
  exact adds.append (adds₁.append adds₂)

end Scoped

/-- The journal of a program that the last edition reads and accepts. Besides look-ups it has the events of
the program: the scopes are entered and left as the declarations are nested, and each is written down before
it is left, with its level, the scope around it and the symbols of its block. Statements write look-ups
alone, and in the end no scope is open. -/
theorem journal_of_accepted {text : String} {tree : Node} {reading : Reading} {analysis : Analysis}
    {survey : Survey} (parsed : Edition.calls.Accepts text tree reading)
    (found : Edition.calls.analysis? true = some analysis)
    (accepted : analysis.node tree analysis.initial = .ok () survey) :
    ∃ (p : Program) (log : Array String) (entries : List JournalEntry),
      tree = .program p ∧ survey = .scopes ⟨[], log⟩ ∧
      log.toList = entries.flatMap JournalEntry.lines ∧
      entries.filter JournalEntry.isEvent = p.events ∧
      ∀ (rules : ScopeRules) (body : List Stmt) (st : ScopeState),
        st.Looks (Scoped.stmts rules body st) := by
  obtain ⟨ms, p, reads, rfl, form⟩ := Grammar.reads_of_attempt Edition.full_calls parsed
  cases found
  obtain ⟨⟨chain, log⟩, ran⟩ := Survey.onScopes_ok_iff.mp ⟨survey, accepted⟩
  cases (Survey.onScopes_of_ok ran).symm.trans accepted
  obtain ⟨rfl, entries, lines, events⟩ :=
    Scoped.program_records rfl (form.allNamed (ordinary_of_reads reads)) rfl ran
  exact ⟨p, log, entries, rfl, rfl, lines, events, fun rules body st => Scoped.stmts_looks body st⟩

/-- The program that a node is. -/
def Node.program? : Node → Option Program
  | .program p => some p
  | _ => none

/-- Two parameters have one name, and a procedure inside has that of the other: each name stands where it was
first, with the symbol that came last. -/
theorem journal_of_accepted_repeated_names :
    let text := "PROGRAM p; PROCEDURE q(a, b : REAL; a : INTEGER); PROCEDURE b; BEGIN END; BEGIN END; BEGIN END."
    let table := "\n\nSCOPE (SCOPED SYMBOL TABLE)\n===========================\n" ++
      "Scope name     : q\nScope level    : 2\nEnclosing scope: global\n" ++
      "Scope (Scoped symbol table) contents\n------------------------------------\n" ++
      "      a: <VarSymbol(name='a', type='INTEGER')>\n" ++
      "      b: <ProcedureSymbol(name=b, parameters=[])>\n\n"
    ∃ tree reading analysis survey, Edition.calls.Accepts text tree reading ∧
      Edition.calls.analysis? true = some analysis ∧
      analysis.node tree analysis.initial = .ok () survey ∧
      ∃ (p : Program) (log : Array String) (entries : List JournalEntry),
        tree = .program p ∧ survey = .scopes ⟨[], log⟩ ∧
        log.toList = entries.flatMap JournalEntry.lines ∧
        entries.filter JournalEntry.isEvent = p.events ∧
        ((p.events.flatMap JournalEntry.lines).drop 11).take 3 =
          ["LEAVE scope: b", table, "LEAVE scope: q"] := by
  intro text table
  let analysis : Analysis := .scoped ⟨true, true⟩
  let lines (p : Program) : List String := ((p.events.flatMap JournalEntry.lines).drop 11).take 3
  let expected : List String := ["LEAVE scope: b", table, "LEAVE scope: q"]
  have yields : Edition.calls.yields text (fun tree =>
      ((analysis.node tree).run' analysis.initial).isSome &&
        tree.program?.any fun p => lines p = expected) = true := by
    decide +kernel
  obtain ⟨tree, reading, accepts, passed⟩ := Edition.exists_accepts yields
  obtain ⟨ran, written⟩ := Bool.and_eq_true_iff.mp passed
  obtain ⟨_, result⟩ := Option.isSome_iff_exists.mp ran
  obtain ⟨survey, outcome⟩ := Work.run'_eq_some.mp result
  obtain ⟨p, log, entries, rfl, closed, logged, events, _⟩ := journal_of_accepted accepts rfl outcome
  exact ⟨_, reading, analysis, survey, accepts, rfl, outcome, p, log, entries, rfl, closed, logged, events,
    of_decide_eq_true written⟩

end LittlePascal
