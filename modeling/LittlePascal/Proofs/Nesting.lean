import LittlePascal.Proofs.Isolation
import LittlePascal.Proofs.Journal

/-! # Nested scopes as a stack of ordered maps

Symbols may be entered into any scope of a chain, and names may be looked up from any of them, in any order.
Each scope keeps what it received: every name where it was first received, with the symbol that was received
last under it. A look-up goes outwards from the scope where it starts and ends at the first one that ever
received the name; it changes no scope.

Main definitions:
* `Scoped.Request`, `Scoped.serve`: requests to the members of a chain, served one after the other;
* `Scoped.received`: the symbols that a member received;
* `Scoped.Nearest`: what is found from a member outwards, and where the search ends.

Main statements:
* `Scoped.serve_ok`: what the members are after requests;
* `Scoped.nearest_members`: what a search through members finds;
* `nested_tables_serve`: a chain answers as a stack of ordered maps does. -/

namespace LittlePascal

/-! ## Symbols received one after the other -/

/-- A symbol is the one that was received last under a name. -/
def Symbol.Latest (symbols : List Symbol) (name : String) (symbol : Symbol) : Prop :=
  ∃ before after, symbols = before ++ symbol :: after ∧ symbol.name = name ∧
    ∀ later ∈ after, later.name ≠ name

namespace SymbolMap

/-- The names of a table are those received, in order of their first symbols. -/
theorem names_ofSymbols (symbols : List Symbol) :
    (ofSymbols symbols).names = (symbols.map Symbol.name).eraseDups := by
  rw [← setAll_eq_ofSymbols, OrderedMap.names_setAll, OrderedMap.names_empty, List.nil_append,
    List.map_map, List.removeAll_nil]
  rfl

/-- A name stands for the symbol received last under it. -/
theorem get?_ofSymbols {symbols : List Symbol} {name : String} {symbol : Symbol} :
    (ofSymbols symbols).get? name = some symbol ↔ Symbol.Latest symbols name symbol := by
  rw [← setAll_eq_ofSymbols, OrderedMap.get?_setAll]
  constructor
  · rintro (⟨before, after, cut, last⟩ | ⟨-, absent⟩)
    · obtain ⟨first, _, rfl, -, further⟩ := List.map_eq_append_iff.mp cut
      obtain ⟨found, rest, rfl, same, rfl⟩ := List.map_eq_cons_iff.mp further
      cases same
      refine ⟨first, rest, rfl, rfl, fun later member same => last ?_⟩
      rw [List.map_map]
      exact List.mem_map.mpr ⟨later, member, same⟩
    · cases absent
  · rintro ⟨before, after, rfl, rfl, last⟩
    refine .inl ⟨before.map fun s => (s.name, s), after.map fun s => (s.name, s), by simp, ?_⟩
    rw [List.map_map]
    intro member
    obtain ⟨later, among, same⟩ := List.mem_map.mp member
    exact last later among same

/-- The entries of a table hold the symbols received last. -/
theorem latest_of_mem {symbols : List Symbol} {entry : String × Symbol}
    (member : entry ∈ (ofSymbols symbols).entries) : Symbol.Latest symbols entry.1 entry.2 := by
  have distinct : (ofSymbols symbols).names.Nodup := by
    rw [← setAll_eq_ofSymbols]
    exact OrderedMap.nodup_names_setAll (m := .empty) List.nodup_nil _
  rw [OrderedMap.entries_eq distinct] at member
  obtain ⟨name, -, found⟩ := List.mem_filterMap.mp member
  obtain ⟨symbol, held, rfl⟩ := Option.map_eq_some_iff.mp found
  exact get?_ofSymbols.mp held

/-- A name stands for nothing exactly if it was never received. -/
theorem get?_ofSymbols_eq_none {symbols : List Symbol} {name : String} :
    (ofSymbols symbols).get? name = none ↔ ∀ symbol ∈ symbols, symbol.name ≠ name := by
  have listed : (∃ symbol, (ofSymbols symbols).get? name = some symbol) ↔
      name ∈ symbols.map Symbol.name := by
    rw [← OrderedMap.mem_names_iff, names_ofSymbols, List.mem_eraseDups]
  rw [← Option.not_isSome_iff_eq_none, Option.isSome_iff_exists, listed]
  simp

end SymbolMap

/-! ## Requests to the members of a chain -/

namespace Scoped

/-- What is asked of a scope. -/
inductive Request where
  | insert (symbol : Symbol)
  | lookup (name : String)
  | lookupHere (name : String)

/-- The symbol that a request enters. -/
def Request.symbol? : Request → Option Symbol
  | .insert symbol => some symbol
  | .lookup _ => none
  | .lookupHere _ => none

/-- A request is served in the innermost scope. -/
def Request.work (rules : ScopeRules) : Request → ScopeWork Unit
  | .insert symbol => Scoped.insert rules symbol
  | .lookup name => do
    let _ ← Scoped.lookup rules name
  | .lookupHere name => do
    let _ ← Scoped.lookupHere rules name

/-- Work in a member of a chain, from which the members inside it cannot be seen. -/
def inMember {α : Type} (k : Nat) (work : ScopeWork α) : ScopeWork α := do
  let inner := (← get).chain.take k
  modify fun s => { s with chain := s.chain.drop k }
  let result ← work
  modify fun s => { s with chain := inner ++ s.chain }
  return result

/-- Requests are served one after the other, each in its member. -/
def serve {n : Nat} (rules : ScopeRules) (requests : List (Fin n × Request)) : ScopeWork Unit :=
  requests.forM fun request => inMember request.1 (request.2.work rules)

/-- The symbols that a member receives, in order. -/
def received {n : Nat} (requests : List (Fin n × Request)) (k : Nat) : List Symbol :=
  requests.filterMap fun request => if request.1.val = k then request.2.symbol? else none

/-- What is added to the log for lines, if lines are written at all. -/
def noted (rules : ScopeRules) (lines : List String) : Array String :=
  if rules.logs then lines.toArray else #[]

/-- What is found under a name in members that have received these symbols, from member `k` outwards and short
of member `stop`: the symbol received last in the nearest member that ever received the name, where the
search ends; or nothing if there is none. -/
inductive Nearest (symbols : Nat → List Symbol) (name : String) (k stop : Nat) :
    Option Symbol → Nat → Prop where
  | found {j : Nat} {symbol : Symbol} : k ≤ j → j < stop →
      (∀ i, k ≤ i → i < j → ∀ other ∈ symbols i, other.name ≠ name) →
      Symbol.Latest (symbols j) name symbol → Nearest symbols name k stop (some symbol) (j + 1)
  | missing : (∀ i, k ≤ i → i < stop → ∀ other ∈ symbols i, other.name ≠ name) →
      Nearest symbols name k stop none stop

/-- A member that never received the name is passed by. -/
theorem Nearest.outwards {symbols : Nat → List Symbol} {name : String} {k stop ending : Nat}
    {answer : Option Symbol} (other : ∀ symbol ∈ symbols k, symbol.name ≠ name)
    (h : Nearest symbols name (k + 1) stop answer ending) : Nearest symbols name k stop answer ending := by
  cases h with
  | found after before others latest =>
    refine .found (by omega) before (fun i start reach => ?_) latest
    rcases Nat.eq_or_lt_of_le start with rfl | inner
    · exact other
    · exact others i inner reach
  | missing others =>
    refine .missing fun i start reach => ?_
    rcases Nat.eq_or_lt_of_le start with rfl | inner
    · exact other
    · exact others i inner reach

variable {rules : ScopeRules} {st : ScopeState}

/-! ## What look-ups write -/

/-- A line that is written is noted. -/
theorem write_noted (rules : ScopeRules) (line : String) (st : ScopeState) :
    write rules line st = .ok () ⟨st.chain, st.log ++ noted rules [line]⟩ := by
  cases logs : rules.logs with
  | true =>
    rw [write_eq logs]
    simp [noted, logs]
  | false =>
    simp [write, noted, logs]
    rfl

/-- Lines one after the other. -/
theorem noted_cons (rules : ScopeRules) (line : String) (lines : List String) :
    noted rules (line :: lines) = noted rules [line] ++ noted rules lines := by
  cases logs : rules.logs <;> simp [noted, logs]

/-- A look-up in given scopes writes a line for each scope that it goes through, and changes nothing. -/
theorem lookupIn_noted (rules : ScopeRules) (chain : ScopeChain) (name : String) (st : ScopeState) :
    lookupIn rules chain name st = .ok (chain.lookup? name)
      ⟨st.chain, st.log ++ noted rules ((chain.examined name).map (lookupLine name))⟩ := by
  have written : ∀ (scopes : List Scope) (st : ScopeState),
      (scopes.forM fun scope => write rules (lookupLine name scope)) st =
        .ok () ⟨st.chain, st.log ++ noted rules (scopes.map (lookupLine name))⟩ := by
    intro scopes
    induction scopes with
    | nil =>
      intro st
      simp [noted]
      rfl
    | cons scope rest ih =>
      intro st
      refine (Work.bind_of_ok (write_noted rules _ st)).trans ((ih _).trans ?_)
      rw [List.map_cons, noted_cons rules _ (rest.map _), Array.append_assoc]
  exact Work.bind_of_ok (written _ st)

/-- Work in a member changes the scopes from this one outwards. -/
theorem inMember_of_ok {α : Type} {k : Nat} {work : ScopeWork α} {result : α} {st' : ScopeState}
    (h : work ⟨st.chain.drop k, st.log⟩ = .ok result st') :
    inMember k work st = .ok result ⟨st.chain.take k ++ st'.chain, st'.log⟩ := by
  rw [inMember, Work.get_bind, Work.modify_bind, Work.bind_of_ok h]
  rfl

/-- The members from one onwards begin with it. -/
theorem members_cons {chain : ScopeChain} {k stop : Nat} (before : k < stop) (bound : stop ≤ chain.length) :
    (chain.take stop).drop k =
      chain.get ⟨k, by omega⟩ :: (chain.take stop).drop (k + 1) := by
  have short : k < (chain.take stop).length := by
    rw [List.length_take]
    omega
  rw [List.drop_eq_getElem_cons short, List.getElem_take]
  rfl

/-- Up to itself there is one member. -/
theorem members_single {chain : ScopeChain} {k : Nat} (bound : k < chain.length) :
    (chain.take (k + 1)).drop k = [chain.get ⟨k, bound⟩] := by
  rw [members_cons (Nat.lt_succ_self k) bound]
  simp

/-! ## What requests do -/

/-- A request changes its member by the symbol that it enters, and no other one. -/
theorem work_ok (request : Request) {k : Nat} (bound : k < st.chain.length) :
    ∃ log, inMember k (request.work rules) st =
      .ok () ⟨st.chain.modify k fun scope => scope.declare request.symbol?.toList, log⟩ := by
  have cut := List.drop_eq_getElem_cons bound
  cases request with
  | insert symbol =>
    obtain ⟨log, inserted⟩ := @insert_ok rules ⟨st.chain.drop k, st.log⟩ _ _ symbol cut
    refine ⟨log, (inMember_of_ok inserted).trans ?_⟩
    rw [List.modify_eq_take_cons_drop bound]
    rfl
  | lookup name =>
    obtain ⟨log, found⟩ := @lookup_ok rules ⟨st.chain.drop k, st.log⟩ _ _ name cut
    have replied : (Request.lookup name).work rules ⟨st.chain.drop k, st.log⟩ = .ok () ⟨_, log⟩ :=
      Work.bind_of_ok found
    refine ⟨log, (inMember_of_ok replied).trans ?_⟩
    rw [List.modify_eq_take_cons_drop bound]
    rfl
  | lookupHere name =>
    obtain ⟨log, found⟩ := @lookupHere_ok rules ⟨st.chain.drop k, st.log⟩ _ _ name cut
    have replied : (Request.lookupHere name).work rules ⟨st.chain.drop k, st.log⟩ = .ok () ⟨_, log⟩ :=
      Work.bind_of_ok found
    refine ⟨log, (inMember_of_ok replied).trans ?_⟩
    rw [List.modify_eq_take_cons_drop bound]
    rfl

/-- After requests every member has what it received, and nothing else has changed. -/
theorem serve_ok {n : Nat} (requests : List (Fin n × Request)) (members : st.chain.length = n) :
    ∃ log, serve rules requests st =
      .ok () ⟨st.chain.mapIdx fun k scope => scope.declare (received requests k), log⟩ := by
  induction requests generalizing st with
  | nil =>
    refine ⟨st.log, ?_⟩
    have same : (st.chain.mapIdx fun k scope => scope.declare (@received n [] k)) = st.chain :=
      List.ext_getElem? fun k => by simp [received]
    rw [same]
    rfl
  | cons request rest ih =>
    obtain ⟨log, first⟩ := @work_ok rules st request.2 request.1 (by omega)
    obtain ⟨log', further⟩ := @ih ⟨st.chain.modify request.1 _, log⟩ ((List.length_modify ..).trans members)
    refine ⟨log', (Work.bind_of_ok first).trans (further.trans ?_)⟩
    congr 2
    -- member by member: the first request is among what its own member received, and no other one
    refine List.ext_getElem? fun k => ?_
    rw [List.getElem?_mapIdx, List.getElem?_mapIdx, List.getElem?_modify]
    cases st.chain[k]? with
    | none => rfl
    | some scope =>
      by_cases here : request.1.val = k
      · cases entered : request.2.symbol? <;> simp [received, here, entered]
      · simp [received, here]

/-! ## What look-ups find -/

/-- A look-up from a member goes through the scopes from this one outwards. -/
theorem inMember_lookup {k : Nat} (bound : k < st.chain.length) (name : String) :
    inMember k (lookup rules name) st = .ok (ScopeChain.lookup? (st.chain.drop k) name)
      ⟨st.chain, st.log ++
        noted rules ((ScopeChain.examined (st.chain.drop k) name).map (lookupLine name))⟩ := by
  have found : lookup rules name ⟨st.chain.drop k, st.log⟩ =
      lookupIn rules (st.chain.drop k) name ⟨st.chain.drop k, st.log⟩ := by
    rw [lookup, Work.get_bind, List.drop_eq_getElem_cons bound]
  rw [lookupIn_noted] at found
  rw [inMember_of_ok found, List.take_append_drop]

/-- A look-up in a member alone. -/
theorem inMember_lookupHere {k : Nat} (bound : k < st.chain.length) (name : String) :
    inMember k (lookupHere rules name) st =
      .ok (ScopeChain.lookup? ((st.chain.take (k + 1)).drop k) name)
        ⟨st.chain, st.log ++
          noted rules ((ScopeChain.examined ((st.chain.take (k + 1)).drop k) name).map (lookupLine name))⟩ := by
  have found : lookupHere rules name ⟨st.chain.drop k, st.log⟩ =
      lookupIn rules ((st.chain.take (k + 1)).drop k) name ⟨st.chain.drop k, st.log⟩ := by
    rw [lookupHere, Work.get_bind, List.drop_eq_getElem_cons bound, members_single bound]
    rfl
  rw [lookupIn_noted] at found
  rw [inMember_of_ok found, List.take_append_drop]

/-- A search ends behind the member where it starts and not behind the last one. -/
theorem Nearest.ending_le {symbols : Nat → List Symbol} {name : String} {k stop ending : Nat}
    {answer : Option Symbol} (h : Nearest symbols name k stop answer ending) (le : k ≤ stop) :
    k ≤ ending ∧ ending ≤ stop := by
  cases h with
  | found after before _ _ => omega
  | missing _ => omega

/-- A look-up goes outwards through members until one has received the name. -/
theorem nearest_members {chain : ScopeChain} {symbols : Nat → List Symbol}
    (holds : ∀ i : Fin chain.length, (chain.get i).symbols = .ofSymbols (symbols i)) (name : String)
    {k stop : Nat} (le : k ≤ stop) (bound : stop ≤ chain.length) :
    ∃ ending, Nearest symbols name k stop (ScopeChain.lookup? ((chain.take stop).drop k) name) ending ∧
      ScopeChain.examined ((chain.take stop).drop k) name = (chain.take ending).drop k := by
  -- induction on the number of members that are left to the search
  obtain ⟨d, rfl⟩ := Nat.exists_eq_add_of_le le
  induction d generalizing k with
  | zero =>
    have nothing : (chain.take k).drop k = [] := by simp
    refine ⟨k, ?_, ?_⟩
    · rw [Nat.add_zero, nothing]
      exact .missing (by omega)
    · rw [Nat.add_zero, nothing]
      rfl
  | succ d ih =>
    have within : k < chain.length := by omega
    rw [members_cons (by omega) bound]
    cases held : (chain.get ⟨k, within⟩).symbols.get? name with
    | some symbol =>
      refine ⟨k + 1, ?_, ?_⟩
      · rw [ScopeChain.lookup?, held]
        rw [holds, SymbolMap.get?_ofSymbols] at held
        exact .found (Nat.le_refl k) (by omega) (by omega) held
      · rw [ScopeChain.examined, Scope.has, held, members_single within]
        rfl
    | none =>
      obtain ⟨ending, nearest, examined⟩ := @ih (k + 1) (by omega) (by omega)
      have sames : k + 1 + d = k + (d + 1) := by omega
      rw [sames] at nearest examined
      have ends := nearest.ending_le (by omega)
      have start : k < ending := by omega
      refine ⟨ending, ?_, ?_⟩
      · rw [ScopeChain.lookup?, held]
        rw [holds, SymbolMap.get?_ofSymbols_eq_none] at held
        exact nearest.outwards held
      · rw [ScopeChain.examined, Scope.has, held, examined, members_cons start (by omega)]
        rfl

end Scoped

/-- The texts of nested scopes, each with the name of the scope around it. -/
theorem ScopeChain.getElem?_texts (chain : ScopeChain) (k : Nat) :
    chain.texts[k]? = chain[k]?.map fun scope => scope.text (chain[k + 1]?.map Scope.name) := by
  induction chain generalizing k with
  | nil => rfl
  | cons scope outer ih =>
    cases k with
    | zero => simp [texts, List.head?_eq_getElem?]
    | succ k => simp [texts, ih]

open Scoped in
/-- A chain of scopes, whatever requests its members have served, is a stack of ordered maps. A look-up from a
member answers with the symbol received last in the nearest member outwards that ever received the name, or in
this member alone if no other one is to be considered; it writes a line for each member from the first to the
one where it ends, and changes no scope. A scope is written down with every name that it received, once and in
the order of the first symbols, each with its latest symbol. -/
theorem nested_tables_serve (rules : ScopeRules) (headings : List (String × Nat))
    (requests : List (Fin headings.length × Request)) (log : Array String) :
    ∃ st, serve rules requests ⟨headings.map fun heading => .opened heading.1 heading.2, log⟩ = .ok () st ∧
      st.chain = headings.mapIdx (fun k heading => ⟨heading.1, heading.2, .ofSymbols (received requests k)⟩) ∧
      (∀ (k : Fin headings.length) (name : String),
        (∃ answer ending, Nearest (received requests) name k headings.length answer ending ∧
          inMember k (lookup rules name) st = .ok answer
            ⟨st.chain, st.log ++ noted rules (((st.chain.take ending).drop k).map fun scope =>
              "Lookup: " ++ name ++ ". (Scope name: " ++ scope.name ++ ")")⟩) ∧
        (∃ answer ending, Nearest (received requests) name k (k + 1) answer ending ∧
          inMember k (lookupHere rules name) st = .ok answer
            ⟨st.chain, st.log ++ noted rules (((st.chain.take ending).drop k).map fun scope =>
              "Lookup: " ++ name ++ ". (Scope name: " ++ scope.name ++ ")")⟩)) ∧
      ∀ k : Fin headings.length, ∃ symbols : SymbolMap,
        symbols.names = ((received requests k).map Symbol.name).eraseDups ∧
        (∀ entry ∈ symbols.entries, Symbol.Latest (received requests k) entry.1 entry.2) ∧
        st.chain.texts[k.val]? = some (Scope.printed ⟨(headings.get k).1, (headings.get k).2, symbols⟩
          (headings[k.val + 1]?.map Prod.fst)) := by
  let tables : ScopeChain :=
    headings.mapIdx fun k heading => ⟨heading.1, heading.2, .ofSymbols (received requests k)⟩
  have members : tables.length = headings.length := List.length_mapIdx
  have holds : ∀ i : Fin tables.length, (tables.get i).symbols = .ofSymbols (received requests i) := by
    intro i
    simp [tables]
  obtain ⟨log', served⟩ := @serve_ok rules
    ⟨headings.map fun heading => .opened heading.1 heading.2, log⟩ _ requests (List.length_map _)
  -- the scopes are empty at first, so each holds just what it received
  have made : ((headings.map fun heading => Scope.opened heading.1 heading.2).mapIdx
      fun k scope => scope.declare (received requests k)) = tables := by
    refine List.ext_getElem? fun k => ?_
    simp only [tables, List.getElem?_mapIdx, List.getElem?_map, Option.map_map]
    congr 1
    exact funext fun heading => Scope.declare_opened ..
  rw [made] at served
  refine ⟨_, served, rfl, fun k name => ?_, fun k => ?_⟩
  · have within : k.val < tables.length := by omega
    constructor
    · obtain ⟨ending, nearest, examined⟩ :=
        nearest_members holds name (Nat.le_of_lt within) (Nat.le_refl _)
      rw [List.take_length] at nearest examined
      rw [members] at nearest
      refine ⟨_, ending, nearest, ?_⟩
      rw [← examined]
      exact inMember_lookup within name
    · -- in one member alone the search stops right behind it
      obtain ⟨ending, nearest, examined⟩ := nearest_members holds name (Nat.le_succ k) within
      refine ⟨_, ending, nearest, ?_⟩
      rw [← examined]
      exact inMember_lookupHere within name
  · refine ⟨.ofSymbols (received requests k), SymbolMap.names_ofSymbols _, fun entry => SymbolMap.latest_of_mem,
      ?_⟩
    rw [ScopeChain.getElem?_texts, ← Scope.text_eq_printed]
    simp [tables, Function.comp_def]

end LittlePascal
