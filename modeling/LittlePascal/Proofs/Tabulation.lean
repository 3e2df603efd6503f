import Mathlib.Data.List.Induction
import LittlePascal.Proofs.Isolation
import LittlePascal.Proofs.Journal
import LittlePascal.Proofs.Migration
import LittlePascal.Proofs.Resolution

/-! # The table of a program

The first analysis enters the variables that a program declares itself into a table, behind the built-in types,
and then looks up every variable of its statements: the target of an assignment first, then its right-hand side
from left to right. It fails at the first one that is not declared. In any case the table lists each variable
once, at the place of its first declaration and with the type of its last one. Procedures are left alone.

Main definitions:
* `Stmt.accessesAll`, `Decl.bindings`: what is looked up, and what is declared;
* `Binding.firstNames`, `Binding.lastType?`, `Declared.entries`: the table that declarations come to;
* `Declared.Checks`: work that looks up names in a table.

Main statements:
* `Declared.declarations_ok`, `Declared.stmts_checks`: declarations and statements;
* `Edition.named_of_accepts`: no variable of a program has the name of a built-in type;
* `declared_verdict`: the verdict on a program, and its table. -/

namespace LittlePascal

/-! ## What is looked up, and what is declared -/

namespace Stmt

mutual

/-- The variables of a statement in the order in which they are looked up: the target of an assignment, and then
those of its right-hand side. -/
def accesses : Stmt → List String
  | .compound children => accessesAll children
  | .assign target _ value => target.name :: value.mentions.map Ident.name
  | .call _ _ => []
  | .empty => []

/-- The variables of statements in the order in which they are looked up. -/
def accessesAll : List Stmt → List String
  | [] => []
  | statement :: rest => statement.accesses ++ accessesAll rest

end

end Stmt

/-- The variables among declarations. Those inside of procedures are not among them. -/
def Decl.bindings : List Decl → List Binding
  | [] => []
  | .var binding :: rest => binding :: bindings rest
  | .procedure _ _ _ _ :: rest => bindings rest

namespace Binding

/-- The names that are bound, each once, in the order in which they are first bound. -/
def firstNames (bindings : List Binding) : List String := (names bindings).eraseDups

/-- The type that a name is bound to last. -/
def lastType? (bindings : List Binding) (name : String) : Option BaseType :=
  (bindings.reverse.find? fun binding => binding.id.name == name).map fun binding => binding.type.type

variable {bindings : List Binding} {b : Binding}

/-- A name that is bound again keeps its place. -/
theorem firstNames_concat :
    firstNames (bindings ++ [b]) =
      if b.id.name ∈ firstNames bindings then firstNames bindings else firstNames bindings ++ [b.id.name] := by
  rw [firstNames, names, List.map_append, List.eraseDups_append]
  by_cases bound : b.id.name ∈ names bindings
  · simp_all [firstNames, names, List.removeAll]
  · simp_all [firstNames, names, List.removeAll, List.eraseDups_cons]

/-- A name that is bound again gets another type. -/
theorem lastType?_concat {x : String} :
    lastType? (bindings ++ [b]) x = if b.id.name = x then some b.type.type else lastType? bindings x := by
  rw [lastType?, List.reverse_append, List.reverse_singleton, List.singleton_append]
  by_cases same : b.id.name = x
  · simp [same]
  · simp [List.find?_cons_of_neg, same, lastType?]

/-- A name has a type exactly if it is bound. -/
theorem lastType?_eq_none_iff {x : String} : lastType? bindings x = none ↔ x ∉ names bindings := by
  simp [lastType?, names]

end Binding

/-! ## The table that declarations come to -/

namespace OrderedMap

variable {α : Type} {m : OrderedMap α}

/-- Giving a name a value lists no name twice. -/
theorem nodup_set (nodup : m.names.Nodup) (name : String) (value : α) : (m.set name value).names.Nodup := by
  rw [names_set]
  split
  · exact nodup
  · rename_i new
    exact List.nodup_append.mpr ⟨nodup, by simp, by
      intro x member y same
      cases List.mem_singleton.mp same
      rintro rfl
      exact new member⟩

/-- Where no name is listed twice the entries are the names with their values. -/
theorem entries_eq_map (nodup : m.names.Nodup) {f : String → α} (h : ∀ x ∈ m.names, m.get? x = some (f x)) :
    m.entries = m.names.map fun x => (x, f x) := by
  obtain ⟨entries⟩ := m
  induction entries with
  | nil => rfl
  | cons entry rest ih =>
    obtain ⟨name, value⟩ := entry
    rw [names, List.map_cons, List.nodup_cons] at nodup
    have first : value = f name := by simpa [get?] using h name List.mem_cons_self
    have later : ∀ x ∈ (⟨rest⟩ : OrderedMap α).names, (⟨rest⟩ : OrderedMap α).get? x = some (f x) := by
      intro x member
      have other : x ≠ name := by
        rintro rfl
        exact nodup.1 member
      simpa [get?, List.lookup_cons, beq_eq_false_iff_ne.mpr other] using h x (List.mem_cons_of_mem _ member)
    have same : rest = (rest.map Prod.fst).map fun x => (x, f x) := ih nodup.2 later
    show (name, value) :: rest = (name, f name) :: (rest.map Prod.fst).map fun x => (x, f x)
    rw [first, ← same]

end OrderedMap

namespace Declared

/-- The table of the built-in types. -/
def builtins : SymbolMap := ⟨[("INTEGER", .builtin "INTEGER"), ("REAL", .builtin "REAL")]⟩

/-- The symbol of a variable of a type. -/
def variableOf (name : String) (type? : Option BaseType) : Symbol :=
  .var name (type?.map fun type => .builtin type.name)

/-- The table with variables entered one after the other. -/
def enterAll (m : SymbolMap) (bindings : List Binding) : SymbolMap :=
  bindings.foldl (fun m b => m.insertSymbol (variableOf b.id.name (some b.type.type))) m

/-- The built-in types, and then each variable once, where it is first declared, with its last type. -/
def entries (bindings : List Binding) : List (String × Symbol) :=
  builtins.entries ++
    (Binding.firstNames bindings).map fun x => (x, variableOf x (Binding.lastType? bindings x))

variable {m : SymbolMap} {bindings : List Binding}

/-- One more variable is entered last. -/
theorem enterAll_concat {b : Binding} :
    enterAll m (bindings ++ [b]) =
      (enterAll m bindings).set b.id.name (variableOf b.id.name (some b.type.type)) := by
  rw [enterAll, List.foldl_append]
  rfl

/-- A variable has the type that it was given last. -/
theorem get?_enterAll {x : String} :
    (enterAll m bindings).get? x =
      ((Binding.lastType? bindings x).map fun type => variableOf x (some type)).or (m.get? x) := by
  induction bindings using List.reverseRecOn with
  | nil => rfl
  | append_singleton bindings b ih =>
    rw [enterAll_concat, OrderedMap.get?_set, ih, Binding.lastType?_concat]
    by_cases same : b.id.name = x
    · simp [same]
    · simp [same, Ne.symm same]

/-- The built-in types are listed first, and then the variables. -/
theorem names_enterAll (ordinary : ∀ b ∈ bindings, Scoped.Ordinary b.id.name) :
    (enterAll builtins bindings).names = builtins.names ++ Binding.firstNames bindings := by
  -- from the last variable backwards, since it is the one whose place and type are settled last
  induction bindings using List.reverseRecOn with
  | nil => rfl
  | append_singleton bindings b ih =>
    have own : b.id.name ∉ builtins.names := ordinary b (by simp)
    rw [enterAll_concat, OrderedMap.names_set, ih fun b member => ordinary b (by simp [member]),
      Binding.firstNames_concat]
    by_cases bound : b.id.name ∈ Binding.firstNames bindings
    · simp [bound]
    · simp [bound, own]

/-- No name is listed twice. -/
theorem nodup_enterAll : (enterAll builtins bindings).names.Nodup := by
  induction bindings using List.reverseRecOn with
  | nil => decide
  | append_singleton bindings b ih =>
    rw [enterAll_concat]
    exact OrderedMap.nodup_set ih _ _

/-- A name that is not built in has no value among the built-in types. -/
theorem get?_builtins {x : String} (ordinary : Scoped.Ordinary x) : builtins.get? x = none := by
  by_contra found
  obtain ⟨symbol, found⟩ := Option.ne_none_iff_exists'.mp found
  exact ordinary (OrderedMap.mem_names_iff.mpr ⟨symbol, found⟩)

/-- The table that declarations come to. -/
theorem entries_enterAll (ordinary : ∀ b ∈ bindings, Scoped.Ordinary b.id.name) :
    (enterAll builtins bindings).entries = entries bindings := by
  -- a listed name has a value, so the one for other names does not matter
  let value x := ((enterAll builtins bindings).get? x).getD (.builtin x)
  have values : ∀ x ∈ (enterAll builtins bindings).names,
      (enterAll builtins bindings).get? x = some (value x) := by
    intro x listed
    obtain ⟨symbol, found⟩ := OrderedMap.mem_names_iff.mp listed
    simp [value, found]
  have types : ∀ x ∈ builtins.names, value x = .builtin x := by
    intro x builtin
    have free : x ∉ Binding.names bindings := by
      intro bound
      obtain ⟨b, member, rfl⟩ := List.mem_map.mp bound
      exact ordinary b member builtin
    have kept : (enterAll builtins bindings).get? x = builtins.get? x := by
      rw [get?_enterAll, Binding.lastType?_eq_none_iff.mpr free]
      rfl
    simp only [value, kept]
    rcases List.mem_pair.mp builtin with rfl | rfl <;> rfl
  have own : ∀ x ∈ Binding.firstNames bindings, value x = variableOf x (Binding.lastType? bindings x) := by
    intro x first
    have bound : Binding.lastType? bindings x ≠ none := fun none =>
      Binding.lastType?_eq_none_iff.mp none (List.mem_eraseDups.mp first)
    obtain ⟨type, found⟩ := Option.ne_none_iff_exists'.mp bound
    simp [value, get?_enterAll, found]
  rw [OrderedMap.entries_eq_map nodup_enterAll values, names_enterAll ordinary, List.map_append, entries]
  congr 1
  · show [("INTEGER", value "INTEGER"), ("REAL", value "REAL")] = _
    rw [types "INTEGER" (by decide), types "REAL" (by decide)]
    rfl
  · exact List.map_congr_left fun x first => by rw [own x first]

/-! ## Looking up -/

/-- The first of some names that is not in a table. -/
def missing? (m : SymbolMap) (names : List String) : Option String :=
  names.find? fun x => (m.get? x).isNone

theorem missing?_append (names names' : List String) :
    missing? m (names ++ names') = (missing? m names).or (missing? m names') :=
  List.find?_append

/-- What looking up names comes to. -/
def verdict {σ : Type} (st : σ) : Option String → EStateM.Result Fault σ Unit
  | none => .ok () st
  | some x => .error (.unbound x) st

section Verdict

variable {σ : Type} {st st' : σ} {first? : Option String}

/-- All names are there. -/
theorem verdict_eq_ok_iff : verdict st first? = .ok () st' ↔ first? = none ∧ st = st' := by
  cases first? <;> simp [verdict]

/-- One is missing. -/
theorem verdict_eq_error_iff {fault : Fault} :
    verdict st first? = .error fault st' ↔ (∃ x, first? = some x ∧ fault = .unbound x) ∧ st = st' := by
  cases first? <;> simp [verdict, eq_comm]

end Verdict

/-- Work that looks up names one after the other and fails at the first one that is missing. The table stays as
it is. -/
def Checks (names : List String) (work : TableWork Unit) : Prop :=
  ∀ st, ∃ st', st'.symbols = st.symbols ∧ work st = verdict st' (missing? st.symbols names)

namespace Checks

/-- No name is looked up. -/
theorem nil : Checks [] (pure ()) := fun st => ⟨st, rfl, rfl⟩

/-- One name is looked up. -/
theorem use (x : String) : Checks [x] (use x) := by
  intro st
  refine ⟨{ st with log := st.log.push ("Lookup: " ++ x) }, rfl, ?_⟩
  show (if (st.symbols.get? x).isNone then throw (.unbound x) else pure () : TableWork Unit) _ = _
  rw [missing?, List.find?_singleton]
  split <;> rfl

/-- Names are looked up, and then other ones. -/
theorem append {names names' : List String} {work work' : TableWork Unit} (first : Checks names work)
    (second : Checks names' work') :
    Checks (names ++ names') (do
      work
      work') := by
  intro st
  obtain ⟨st₁, same₁, ran₁⟩ := first st
  cases found : missing? st.symbols names with
  | none =>
    obtain ⟨st₂, same₂, ran₂⟩ := second st₁
    refine ⟨st₂, same₂.trans same₁, ?_⟩
    rw [found] at ran₁
    -- the other names are looked up in the same table
    rw [Work.bind_of_ok ran₁, ran₂, same₁, missing?_append, found, Option.none_or]
  | some x =>
    refine ⟨st₁, same₁, ?_⟩
    rw [found] at ran₁
    rw [Work.bind_of_error ran₁, missing?_append, found, Option.some_or]
    rfl

end Checks

section Statements

variable {g : Grammar}

/-- The variables of an expression are looked up from left to right. -/
theorem expr_checks (holes : g.holes = false) {e : Expr} (fits : e.Fits g) :
    Checks (e.mentions.map Ident.name) (expr e) := by
  induction e with
  | literal _ _ => exact .nil
  | var id => exact .use id.name
  | signed _ _ operand ih => exact ih fits
  | binary _ _ left right ihLeft ihRight =>
    rw [Expr.mentions, List.map_append]
    exact (ihLeft fits.1).append (ihRight fits.2)
  | hole => exact absurd fits (Expr.not_fits_hole holes)

mutual

/-- The target of an assignment is looked up before its right-hand side. -/
theorem stmt_checks (holes : g.holes = false) (calls : g.calls = false) :
    ∀ s : Stmt, s.Fits g → Checks s.accesses (stmt s)
  | .compound children, fits => stmts_checks holes calls children fits
  | .assign target _ value, fits => (Checks.use target.name).append (expr_checks holes fits)
  | .call _ _, fits => by
    have allowed := fits.1
    rw [calls] at allowed
    cases allowed
  | .empty, _ => .nil

/-- The variables of statements are looked up statement by statement. -/
theorem stmts_checks (holes : g.holes = false) (calls : g.calls = false) :
    ∀ body : List Stmt, Stmt.AllFit g body → Checks (Stmt.accessesAll body) (stmts body)
  | [], _ => .nil
  | statement :: rest, fits =>
    (stmt_checks holes calls statement fits.1).append (stmts_checks holes calls rest fits.2)

end

end Statements

/-! ## Declarations -/

/-- Procedures are left alone. -/
theorem forM_decl (ds : List Decl) :
    ds.forM decl = (Decl.bindings ds).forM fun binding => decl (.var binding) := by
  induction ds with
  | nil => rfl
  | cons d rest ih =>
    cases d with
    | var binding =>
      show (decl (.var binding) >>= fun _ => rest.forM decl) = _
      rw [ih]
      rfl
    | procedure name parameters declarations body =>
      show (pure () >>= fun _ => rest.forM decl) = _
      rw [pure_bind, ih]
      rfl

/-- What declarations come to depends on the variables alone, and what a block comes to on them and on its
statements. -/
theorem block_congr {b b' : Block} (own : Decl.bindings b'.declarations = Decl.bindings b.declarations)
    (body : b'.body = b.body) : block b' = block b := by
  rw [block, block, forM_decl, forM_decl, own, body]

/-- A table that knows the types of variables. -/
def KnowsTypes (m : SymbolMap) : Prop := ∀ type : BaseType, m.get? type.name = some (.builtin type.name)

/-- A variable is entered with its type. -/
theorem decl_var {st : TableState} (types : KnowsTypes st.symbols) (b : Binding) :
    ∃ st', st'.symbols = st.symbols.set b.id.name (variableOf b.id.name (some b.type.type)) ∧
      decl (.var b) st = .ok () st' := by
  refine ⟨_, ?_, rfl⟩
  show st.symbols.set b.id.name (.var b.id.name (st.symbols.get? b.type.type.name)) = _
  rw [types b.type.type]
  rfl

/-- A variable that is not named like a type hides none. -/
theorem KnowsTypes.set (types : KnowsTypes m) {b : Binding} (ordinary : Scoped.Ordinary b.id.name) :
    KnowsTypes (m.set b.id.name (variableOf b.id.name (some b.type.type))) := by
  intro type
  have other : type.name ≠ b.id.name := by
    intro same
    refine ordinary (same ▸ ?_)
    cases type <;> decide
  rw [OrderedMap.get?_set, if_neg other, types type]

/-- The variables are entered one after the other. -/
theorem declarations_ok {st : TableState} (types : KnowsTypes st.symbols)
    (ordinary : ∀ b ∈ bindings, Scoped.Ordinary b.id.name) :
    ∃ st', st'.symbols = enterAll st.symbols bindings ∧
      (bindings.forM fun binding => decl (.var binding)) st = .ok () st' := by
  induction bindings generalizing st with
  | nil => exact ⟨st, rfl, rfl⟩
  | cons b rest ih =>
    rw [List.forall_mem_cons] at ordinary
    obtain ⟨st₁, same₁, ran₁⟩ := decl_var types b
    have types₁ : KnowsTypes st₁.symbols := same₁ ▸ types.set ordinary.1
    obtain ⟨st₂, same₂, ran₂⟩ := ih types₁ ordinary.2
    refine ⟨st₂, ?_, ?_⟩
    · rw [same₂, same₁]
      rfl
    · show (decl (.var b) >>= fun _ => rest.forM fun binding => decl (.var binding)) st = _
      rw [Work.bind_of_ok ran₁, ran₂]

/-- What a block comes to. -/
theorem block_verdict {g : Grammar} (holes : g.holes = false) (calls : g.calls = false) {b : Block}
    (fits : b.Fits g) (ordinary : ∀ own ∈ Decl.bindings b.declarations, Scoped.Ordinary own.id.name)
    {st : TableState} (types : KnowsTypes st.symbols) :
    ∃ st', st'.symbols = enterAll st.symbols (Decl.bindings b.declarations) ∧
      block b st = verdict st' (missing? st'.symbols (Stmt.accessesAll b.body)) := by
  obtain ⟨st₁, same₁, ran₁⟩ := declarations_ok types ordinary
  obtain ⟨st₂, same₂, ran₂⟩ := stmts_checks holes calls b.body fits.2 st₁
  refine ⟨st₂, same₂.trans same₁, ?_⟩
  rw [block, forM_decl, Work.bind_of_ok ran₁, ran₂, same₂]

/-- Of ordinary names those are missing that are not declared. -/
theorem missing?_enterAll {names : List String} (ordinary : ∀ x ∈ names, Scoped.Ordinary x) :
    missing? (enterAll builtins bindings) names = names.find? (· ∉ Binding.names bindings) := by
  have alike : ∀ x ∈ names,
      ((enterAll builtins bindings).get? x).isNone = decide (x ∉ Binding.names bindings) := by
    intro x member
    rw [get?_enterAll, get?_builtins (ordinary x member), Option.or_none, Option.isNone_map, Bool.eq_iff_iff,
      Option.isNone_iff_eq_none, decide_eq_true_iff, Binding.lastType?_eq_none_iff]
  rw [missing?, ← List.head?_filter, ← List.head?_filter, List.filter_congr alike]

end Declared

/-! ## Trees that were read -/

section Named

variable {g : Grammar} {names : String → Prop} {ms : List Mark}

/-- The names in a derived expression, behind signs too. -/
theorem DerivesExpr.mentions_named {level : Level} {e : Expr} (h : DerivesExpr level ms e)
    (named : Named names ms) : ∀ id ∈ e.mentions, names id.name := by
  induction h with
  | literal _ => simp [Expr.mentions]
  | var name => simpa [Expr.mentions] using named.head name
  | signed _ _ ih => exact ih named.tail
  | parens _ _ _ ih => exact ih (named_append.mp named.tail).1
  | factor _ ih => exact ih named
  | multiplied _ _ _ _ ihLeft ihRight | added _ _ _ _ ihLeft ihRight =>
    obtain ⟨left, right⟩ := named_append.mp named
    exact List.forall_mem_append.mpr ⟨ihLeft left, ihRight right.tail⟩
  | product _ ih => exact ih named

mutual

/-- The names that a derived statement looks up. -/
theorem DerivesStmt.accesses_named {ms : List Mark} {s : Stmt} (h : DerivesStmt g ms s)
    (named : Named names ms) : ∀ x ∈ s.accesses, names x := by
  cases h with
  | compound _ forms _ => exact separated_accesses_named forms (named_append.mp named.tail).1
  | call _ _ _ _ _ _ => simp [Stmt.accesses]
  | assign name _ form =>
    refine List.forall_mem_cons.mpr ⟨named.head name, ?_⟩
    exact List.forall_mem_map.mpr (form.mentions_named named.tail.tail)
  | empty => simp [Stmt.accesses]

/-- The names that derived statements look up. -/
theorem separated_accesses_named {ms : List Mark} {children : List Stmt}
    (h : Separated .semicolon (DerivesStmt g) ms children) (named : Named names ms) :
    ∀ x ∈ Stmt.accessesAll children, names x := by
  cases h with
  | one form => simpa [Stmt.accessesAll] using form.accesses_named named
  | more form _ forms =>
    obtain ⟨first, rest⟩ := named_append.mp named
    exact List.forall_mem_append.mpr
      ⟨form.accesses_named first, separated_accesses_named forms rest.tail⟩

end

/-- The names that the statements of a derived program look up. -/
theorem Grammar.Derives.accesses_named {p : Program} (h : g.Derives ms p) (named : Named names ms) :
    ∀ x ∈ Stmt.accessesAll p.block.body, names x := by
  cases h with
  | program _ _ _ form _ =>
    have inner := (named_append.mp named.tail.tail.tail).1
    cases form with
    | block _ _ form => exact form.accesses_named (named_append.mp (named_append.mp inner).2).2

/-- The variables among regular declarations. -/
theorem Decl.AllRegular.bindings_named {ds : List Decl} (h : Decl.AllRegular names ds) :
    ∀ b ∈ Decl.bindings ds, names b.id.name := by
  induction h with
  | nil => simp [Decl.bindings]
  | var proper _ ih => exact List.forall_mem_cons.mpr ⟨proper, ih⟩
  | procedure _ _ _ _ ih => exact ih

end Named

namespace Edition

/-- The decisions of the two editions. -/
theorem uncalled_of_declared {e : Edition} (early : e = .symbols ∨ e = .procedures) : e.grammar.Uncalled where
  signs := by rcases early with rfl | rfl <;> rfl
  holes := by rcases early with rfl | rfl <;> rfl
  calls := by rcases early with rfl | rfl <;> rfl

/-- No variable of a program has the name of a built-in type. -/
theorem named_of_accepts {e : Edition} (early : e = .symbols ∨ e = .procedures) {text : String} {tree : Node}
    {reading : Reading} (parsed : e.Accepts text tree reading) :
    ∃ p, tree = .program p ∧ (∀ b ∈ Decl.bindings p.block.declarations, Scoped.Ordinary b.id.name) ∧
      ∀ x ∈ Stmt.accessesAll p.block.body, Scoped.Ordinary x := by
  have uncalled := uncalled_of_declared early
  have typed : e.hasDeclarations = true := by rcases early with rfl | rfl <;> rfl
  -- the guard behind statements refuses more texts and changes no tree, so it is left out
  have widens : e.grammar.Widens e.grammar.completed := by
    rcases early with rfl | rfl <;> constructor <;> decide
  have read := Grammar.attempt_of_widens widens (fun _ _ _ h => h) rfl parsed
  obtain ⟨ms, p, reads, same, form⟩ := Grammar.reads_of_attempt uncalled.completed_full read
  have named := named_of_reads typed reads
  exact ⟨p, same, (form.orderly named).declarations.regular.bindings_named, form.accesses_named named⟩

end Edition

/-! ## The verdict -/

/-- Work on a table that looks names up, on a survey. -/
theorem Survey.onTable_verdict {work : TableWork Unit} {st st' : TableState} {first? : Option String}
    (h : work st = Declared.verdict st' first?) :
    onTable work (.table st) = Declared.verdict (.table st') first? := by
  cases first? with
  | none => simp [onTable, h, Declared.verdict]
  | some x => simp [onTable, h, Declared.verdict]

/-- What a program comes to, and the table that is left behind. -/
theorem Declared.program_verdict {g : Grammar} (holes : g.holes = false) (calls : g.calls = false) {p : Program}
    (fits : p.block.Fits g) (ordinary : ∀ b ∈ Decl.bindings p.block.declarations, Scoped.Ordinary b.id.name)
    (named : ∀ x ∈ Stmt.accessesAll p.block.body, Scoped.Ordinary x) :
    ∃ st, st.symbols.entries = entries (Decl.bindings p.block.declarations) ∧
      Analysis.declared.node (.program p) Analysis.declared.initial = verdict (.table st)
        ((Stmt.accessesAll p.block.body).find? (· ∉ Binding.names (Decl.bindings p.block.declarations))) := by
  let start := Analysis.initial.run Declared.initial
  have types : KnowsTypes start.symbols := by
    intro type
    cases type <;> rfl
  obtain ⟨st, symbols, ran⟩ := block_verdict holes calls fits ordinary types
  have filled : st.symbols = enterAll builtins (Decl.bindings p.block.declarations) := symbols
  rw [filled, missing?_enterAll named] at ran
  refine ⟨st, ?_, Survey.onTable_verdict ran⟩
  rw [filled, entries_enterAll ordinary]

/-- The first analysis accepts a program exactly if every variable of its statements is declared by the program
itself; otherwise it names the first one that is not. Either way its table lists the built-in types and then each
variable once, where it is first declared and with its last type. Whatever is inside of procedures makes no
difference. -/
theorem declared_verdict {e : Edition} (early : e = .symbols ∨ e = .procedures) {text : String} {tree : Node}
    {reading : Reading} (logs : Bool) (parsed : e.Accepts text tree reading) :
    ∃ p, tree = .program p ∧ e.analysis? logs = some .declared ∧
      let own := Decl.bindings p.block.declarations
      let accesses := Stmt.accessesAll p.block.body
      let outcome := Analysis.declared.node tree Analysis.declared.initial
      ((∃ survey, outcome = .ok () survey) ↔ ∀ x ∈ accesses, x ∈ Binding.names own) ∧
      (∀ fault, (∃ survey, outcome = .error fault survey) ↔
        ∃ x, accesses.find? (· ∉ Binding.names own) = some x ∧ fault = .unbound x ∧
          fault.message e.wording = Text.quoted x) ∧
      (∀ survey, (outcome = .ok () survey ∨ ∃ fault, outcome = .error fault survey) →
        ∃ st, survey = .table st ∧ st.symbols.entries = Declared.entries own) ∧
      ∀ q : Program, Decl.bindings q.block.declarations = own → q.block.body = p.block.body →
        Analysis.declared.node (.program q) Analysis.declared.initial = outcome := by
  obtain ⟨p, rfl, ordinary, named⟩ := Edition.named_of_accepts early parsed
  have uncalled := Edition.uncalled_of_declared early
  have fits : (Node.program p).Fits e.grammar := Grammar.fits_of_attempt parsed
  obtain ⟨st, listed, came⟩ := Declared.program_verdict uncalled.holes uncalled.calls fits ordinary named
  refine ⟨p, rfl, by rcases early with rfl | rfl <;> rfl, ?_⟩
  intro own accesses outcome
  have came : outcome = Declared.verdict (.table st) (accesses.find? (· ∉ Binding.names own)) := came
  refine ⟨?_, fun fault => ?_, fun survey ended => ?_, fun q same body => ?_⟩
  · rw [came]
    simp [Declared.verdict_eq_ok_iff]
  · rw [came]
    simp only [Declared.verdict_eq_error_iff]
    constructor
    · rintro ⟨_, ⟨x, found, rfl⟩, _⟩
      exact ⟨x, found, rfl, rfl⟩
    · rintro ⟨x, found, rfl, _⟩
      exact ⟨.table st, ⟨x, found, rfl⟩, rfl⟩
  · refine ⟨st, ?_, listed⟩
    rw [came] at ended
    simp only [Declared.verdict_eq_ok_iff, Declared.verdict_eq_error_iff] at ended
    rcases ended with ⟨_, same⟩ | ⟨_, _, same⟩ <;> exact same.symm
  · exact congrArg (fun work => Survey.onTable work Analysis.declared.initial) (Declared.block_congr same body)

/-- A variable that only a procedure declares is missed behind a sign, and one that is declared twice keeps its
place and has its second type. -/
theorem declared_verdict_inside_procedure :
    let text := "PROGRAM p; VAR a, b : INTEGER; a : REAL; PROCEDURE q; VAR c : REAL; BEGIN d := 1 END; " ++
      "BEGIN a := b; BEGIN b := a + -c END; d := 2 END."
    ∃ p reading st, Edition.procedures.Accepts text (.program p) reading ∧
      Edition.procedures.analysis? true = some .declared ∧
      Analysis.declared.node (.program p) Analysis.declared.initial = .error (.unbound "c") (.table st) ∧
      st.symbols.entries =
        [("INTEGER", .builtin "INTEGER"), ("REAL", .builtin "REAL"),
          ("a", .var "a" (some (.builtin "REAL"))), ("b", .var "b" (some (.builtin "INTEGER")))] := by
  intro text
  have yields : Edition.procedures.yields text (fun tree => tree.program?.any fun p =>
      let own := Decl.bindings p.block.declarations
      (Stmt.accessesAll p.block.body).find? (· ∉ Binding.names own) = some "c" ∧
        Binding.firstNames own = ["a", "b"] ∧ Binding.lastType? own "a" = some .real ∧
        Binding.lastType? own "b" = some .integer) = true := by decide +kernel
  obtain ⟨tree, reading, parsed, checked⟩ := Edition.exists_accepts yields
  obtain ⟨p, rfl, found, _, refused, tables, _⟩ := declared_verdict (.inr rfl) true parsed
  obtain ⟨missing, firsts, typeA, typeB⟩ := of_decide_eq_true checked
  obtain ⟨survey, failed⟩ := (refused _).mpr ⟨"c", missing, rfl, rfl⟩
  obtain ⟨st, rfl, listed⟩ := tables survey (.inr ⟨_, failed⟩)
  refine ⟨p, reading, st, parsed, found, failed, ?_⟩
  rw [listed, Declared.entries, firsts, List.map_cons, List.map_cons, typeA, typeB]
  rfl

end LittlePascal
