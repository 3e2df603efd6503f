import LittlePascal.Command.Demonstrate
import LittlePascal.Proofs.Tabulation

/-! # Declaring a name twice

The analysis with one table looks up each variable that is declared, to refuse a name that it has already. One of
the two demonstrations leaves this check out. As long as no name is declared twice, the check makes no difference
but for the lines that it writes: it neither changes the table nor what becomes of the statements. Where a name is
declared twice the analysis with the check stops, and the one without it goes on from the same names.

Main definitions:
* `Decl.leading`, `Decl.obstacle?`: the variables up to the first procedure, and the fault of that procedure;
* `Binding.lines`: what the analysis writes about a variable that it enters;
* `Flat.Looks`: work that looks up names and writes them down, whatever has been written before;
* `Flat.New`: variables none of which is declared twice.

Main statements:
* `Flat.decls_entered`, `Flat.decls_repeated`: declarations with and without a repeated name;
* `Flat.block_entered`: a block without a repeated name, with the check or without it;
* `repetition_check_compared`: the analyses of a program with the check and without it. -/

namespace LittlePascal

/-! ## Lines and endings -/

namespace Decl

/-- The variables that are declared before the first procedure. -/
def leading : List Decl → List Binding
  | [] => []
  | .var binding :: rest => binding :: leading rest
  | .procedure _ _ _ _ :: _ => []

/-- The fault of the first procedure, for which the analysis has no rule. -/
def obstacle? : List Decl → Option Fault
  | [] => none
  | .var _ :: rest => obstacle? rest
  | .procedure name parameters declarations body :: _ =>
    some (.unhandled (Decl.procedure name parameters declarations body).className)

/-- A procedure is not taken for a repeated name. -/
theorem obstacle?_ne_duplicate (ds : List Decl) (id : Ident) : obstacle? ds ≠ some (.duplicate id) := by
  induction ds with
  | nil => simp [obstacle?]
  | cons d rest ih =>
    cases d with
    | var b => exact ih
    | procedure => simp [obstacle?]

end Decl

/-- The line of a name that is looked up. -/
def Ident.line (id : Ident) : String := "Lookup: " ++ id.name

/-- The lines of a variable that is entered: its type is looked up, then its name if that is checked. -/
def Binding.lines (checksTwice : Bool) (b : Binding) : List String :=
  ["Lookup: " ++ b.type.type.name] ++ (if checksTwice then [b.id.line] else []) ++ ["Insert: " ++ b.id.name]

/-- The end of some work, with this fault if any. -/
def Fault.settled {σ : Type} (st : σ) : Option Fault → EStateM.Result Fault σ Unit
  | none => .ok () st
  | some fault => .error fault st

namespace Flat

variable {symbols : SymbolMap} {lines : List String}

/-- Looking up a name writes a line and tells what the table has. -/
theorem lookup_eq (name : String) :
    TableWork.lookup name ⟨symbols, lines.toArray⟩ =
      .ok (symbols.get? name) ⟨symbols, (lines ++ ["Lookup: " ++ name]).toArray⟩ := by
  rw [← List.push_toArray]
  rfl

/-- Entering a symbol writes a line. -/
theorem insert_eq (symbol : Symbol) :
    insert symbol ⟨symbols, lines.toArray⟩ =
      .ok () ⟨symbols.insertSymbol symbol, (lines ++ ["Insert: " ++ symbol.name]).toArray⟩ := by
  rw [← List.push_toArray]
  rfl

/-! ## Statements -/

/-- Work that looks up these names one after the other as far as it goes, and leaves the table as it is. What it
comes to does not depend on the lines before. -/
def Looks (symbols : SymbolMap) (ids : List Ident) (work : TableWork Unit) : Prop :=
  ∃ fault? used, used <+: ids ∧ (fault? = none → used = ids) ∧ (∀ id, fault? ≠ some (.duplicate id)) ∧
    ∀ lines : List String, work ⟨symbols, lines.toArray⟩ =
      Fault.settled ⟨symbols, (lines ++ used.map Ident.line).toArray⟩ fault?

namespace Looks

/-- Nothing is looked up. -/
theorem nil : Looks symbols [] (pure ()) := by
  refine ⟨none, [], List.prefix_refl _, fun _ => rfl, by simp, fun lines => ?_⟩
  rw [List.map_nil, List.append_nil]
  rfl

/-- Work that fails at once with another fault than a repeated name. -/
theorem unhandled (node : String) (ids : List Ident) : Looks symbols ids (throw (.unhandled node)) := by
  refine ⟨some (.unhandled node), [], List.nil_prefix, by simp, by simp, fun lines => ?_⟩
  rw [List.map_nil, List.append_nil]
  rfl

/-- One name is looked up. -/
theorem use (id : Ident) : Looks symbols [id] (use id) := by
  refine ⟨if (symbols.get? id.name).isNone then some (.undeclared id) else none, [id], List.prefix_refl _,
    fun _ => rfl, fun x => by split <;> simp, fun lines => ?_⟩
  rw [Flat.use, Work.bind_of_ok (lookup_eq id.name)]
  split <;> rfl

/-- Names are looked up, and then others. -/
theorem append {ids ids' : List Ident} {work work' : TableWork Unit} (first : Looks symbols ids work)
    (second : Looks symbols ids' work') :
    Looks symbols (ids ++ ids') (do
      work
      work') := by
  obtain ⟨fault?, used, sub, all, other, ends⟩ := first
  cases fault? with
  | none =>
    obtain ⟨fault?, used', sub', all', other', ends'⟩ := second
    obtain rfl := all rfl
    refine ⟨fault?, used ++ used', (List.prefix_append_right_inj used).mpr sub', fun none => by rw [all' none],
      other', fun lines => ?_⟩
    rw [Work.bind_of_ok (ends lines), ends', List.map_append, List.append_assoc]
  | some fault =>
    refine ⟨some fault, used, sub.trans (List.prefix_append _ _), by simp, other, fun lines => ?_⟩
    rw [Work.bind_of_error (ends lines)]
    rfl

end Looks

/-- The variables of an expression are looked up from left to right. -/
theorem expr_looks (symbols : SymbolMap) (e : Expr) : Looks symbols e.uses (expr e) := by
  induction e with
  | var id => exact .use id
  | binary _ _ left right ihLeft ihRight => exact ihLeft.append ihRight
  | literal | signed | hole => exact .unhandled _ _

mutual

/-- The variables of an assignment are looked up before its target. -/
theorem stmt_looks (symbols : SymbolMap) : ∀ s : Stmt, Looks symbols s.uses (stmt s)
  | .compound children => stmts_looks symbols children
  | .assign target _ value => (expr_looks symbols value).append (.use target)
  | .call _ _ => .unhandled _ _
  | .empty => .nil

/-- The variables of statements are looked up statement by statement. -/
theorem stmts_looks (symbols : SymbolMap) : ∀ body : List Stmt, Looks symbols (Stmt.usesAll body) (stmts body)
  | [] => .nil
  | statement :: rest => (stmt_looks symbols statement).append (stmts_looks symbols rest)

end

/-! ## Declarations -/

/-- A variable is entered with its type as the table has it. -/
def enterOne (symbols : SymbolMap) (b : Binding) : SymbolMap :=
  symbols.insertSymbol (.var b.id.name (symbols.get? b.type.type.name))

/-- Variables are entered one after the other. -/
def enterAll (symbols : SymbolMap) (bindings : List Binding) : SymbolMap := bindings.foldl enterOne symbols

/-- Variables each of which is new to the table when it is declared. -/
def New (symbols : SymbolMap) : List Binding → Prop
  | [] => True
  | b :: rest => b.id.name ∉ symbols.names ∧ New (enterOne symbols b) rest

variable {b : Binding} {bindings : List Binding} {ds : List Decl} {checksTwice : Bool}

theorem names_enterOne :
    (enterOne symbols b).names =
      if b.id.name ∈ symbols.names then symbols.names else symbols.names ++ [b.id.name] :=
  OrderedMap.names_set ..

/-- New names are listed behind the old ones. -/
theorem names_enterAll (symbols : SymbolMap) (bindings : List Binding) :
    (enterAll symbols bindings).names =
      symbols.names ++ ((Binding.names bindings).removeAll symbols.names).eraseDups := by
  -- each symbol is written under its name, so this is a case of writing to a map
  have writes : ∃ writes, writes.map Prod.fst = Binding.names bindings ∧
      enterAll symbols bindings = symbols.setAll writes := by
    induction bindings generalizing symbols with
    | nil => exact ⟨[], rfl, rfl⟩
    | cons b rest ih =>
      obtain ⟨writes, named, same⟩ := ih (enterOne symbols b)
      refine ⟨(b.id.name, .var b.id.name (symbols.get? b.type.type.name)) :: writes, ?_, same⟩
      rw [List.map_cons, named]
      rfl
  obtain ⟨writes, named, same⟩ := writes
  rw [same, OrderedMap.names_setAll, named]

/-- Variables that are new are listed as they are declared. -/
theorem names_enterAll_of_new (new : New symbols bindings) :
    (enterAll symbols bindings).names = symbols.names ++ Binding.names bindings := by
  induction bindings generalizing symbols with
  | nil => simp [enterAll, Binding.names]
  | cons b rest ih =>
    show (enterAll (enterOne symbols b) rest).names = _
    rw [ih new.2, names_enterOne, if_neg new.1, List.append_assoc]
    rfl

/-- A variable is entered if its name is new or that is not checked. -/
theorem decl_entered (new : checksTwice = true → b.id.name ∉ symbols.names) :
    decl checksTwice (.var b) ⟨symbols, lines.toArray⟩ =
      .ok () ⟨enterOne symbols b, (lines ++ b.lines checksTwice).toArray⟩ := by
  rw [decl, Work.bind_of_ok (lookup_eq _)]
  by_cases checked : checksTwice = true
  · have absent : (symbols.get? b.id.name).isSome = false := by
      rw [Bool.eq_false_iff, Ne, Option.isSome_iff_exists, ← OrderedMap.mem_names_iff]
      exact new checked
    rw [if_pos checked, Work.bind_of_ok (lookup_eq _), absent, if_neg Bool.false_ne_true]
    refine (insert_eq _).trans ?_
    simp [checked, Binding.lines, Ident.line, enterOne, Symbol.name]
  · rw [if_neg checked]
    refine (insert_eq _).trans ?_
    simp [checked, Binding.lines, enterOne, Symbol.name]

/-- A variable is refused if its name is in the table and that is checked. -/
theorem decl_repeated (known : b.id.name ∈ symbols.names) :
    decl true (.var b) ⟨symbols, lines.toArray⟩ = .error (.duplicate b.id)
      ⟨symbols, (lines ++ ["Lookup: " ++ b.type.type.name] ++ [b.id.line]).toArray⟩ := by
  have found : (symbols.get? b.id.name).isSome = true :=
    Option.isSome_iff_exists.mpr (OrderedMap.mem_names_iff.mp known)
  rw [decl, Work.bind_of_ok (lookup_eq _), if_pos rfl, Work.bind_of_ok (lookup_eq _), if_pos found]
  rfl

/-- Declarations are gone through one after the other. -/
theorem decls_cons (checksTwice : Bool) (d : Decl) (rest : List Decl) (st : TableState) :
    (d :: rest).forM (decl checksTwice) st =
      (decl checksTwice d >>= fun _ => rest.forM (decl checksTwice)) st := rfl

/-- Declarations enter the variables before the first procedure, if these are new or that is not checked. -/
theorem decls_entered (new : checksTwice = true → New symbols (Decl.leading ds)) :
    ds.forM (decl checksTwice) ⟨symbols, lines.toArray⟩ =
      Fault.settled ⟨enterAll symbols (Decl.leading ds),
        (lines ++ (Decl.leading ds).flatMap (Binding.lines checksTwice)).toArray⟩ (Decl.obstacle? ds) := by
  induction ds generalizing symbols lines with
  | nil =>
    rw [Decl.leading, List.flatMap_nil, List.append_nil]
    rfl
  | cons d rest ih =>
    rw [decls_cons]
    cases d with
    | var b =>
      rw [Work.bind_of_ok (decl_entered fun checked => (new checked).1), ih fun checked => (new checked).2,
        Decl.leading, List.flatMap_cons, List.append_assoc]
      rfl
    | procedure =>
      rw [Decl.leading, List.flatMap_nil, List.append_nil]
      rfl

/-- Where they are not, the first repeated name ends it. -/
theorem decls_repeated (repeated : ¬New symbols (Decl.leading ds)) (lines : List String) :
    ∃ before b after, ∃ lines' : List String, Decl.leading ds = before ++ b :: after ∧ New symbols before ∧
      b.id.name ∈ (enterAll symbols before).names ∧
      ds.forM (decl true) ⟨symbols, lines.toArray⟩ =
        .error (.duplicate b.id) ⟨enterAll symbols before, lines'.toArray⟩ := by
  induction ds generalizing symbols lines with
  | nil => exact absurd trivial repeated
  | cons d rest ih =>
    rw [decls_cons]
    cases d with
    | var b =>
      rw [Decl.leading, New] at repeated
      by_cases known : b.id.name ∈ symbols.names
      · exact ⟨[], b, Decl.leading rest, _, rfl, trivial, known, Work.bind_of_error (decl_repeated known)⟩
      · -- the variable is entered, and a later one is repeated
        have later : ¬New (enterOne symbols b) (Decl.leading rest) := fun new => repeated ⟨known, new⟩
        obtain ⟨before, b', after, lines', parts, new, known', ends⟩ := ih later (lines ++ b.lines true)
        refine ⟨b :: before, b', after, lines', ?_, ⟨known, new⟩, known', ?_⟩
        · rw [Decl.leading, parts, List.cons_append]
        · rw [Work.bind_of_ok (decl_entered fun _ => known), ends]
          rfl
    | procedure => exact absurd trivial repeated

/-! ## Blocks -/

/-- A block without a repeated name, or one that is not checked for it, comes to the same with the check and
without it, but for the lines of its variables. -/
theorem block_entered (symbols : SymbolMap) (b : Block) :
    ∃ fault? used, used <+: Stmt.usesAll b.body ∧ (∀ id, fault? ≠ some (.duplicate id)) ∧
      ∀ (checksTwice : Bool) (lines : List String),
        (checksTwice = true → New symbols (Decl.leading b.declarations)) →
        block checksTwice b ⟨symbols, lines.toArray⟩ =
          Fault.settled ⟨enterAll symbols (Decl.leading b.declarations),
            (lines ++ (Decl.leading b.declarations).flatMap (Binding.lines checksTwice) ++
              used.map Ident.line).toArray⟩ fault? := by
  cases obstacle : Decl.obstacle? b.declarations with
  | none =>
    obtain ⟨fault?, used, sub, _, other, ends⟩ := stmts_looks (enterAll symbols (Decl.leading b.declarations)) b.body
    refine ⟨fault?, used, sub, other, fun checksTwice lines new => ?_⟩
    have entered := @decls_entered symbols lines _ _ new
    rw [obstacle] at entered
    rw [block, Work.bind_of_ok entered, ends]
  | some fault =>
    -- the statements are not come to
    refine ⟨some fault, [], List.nil_prefix, ?_, fun checksTwice lines new => ?_⟩
    · exact obstacle ▸ Decl.obstacle?_ne_duplicate b.declarations
    · have entered := @decls_entered symbols lines _ _ new
      rw [obstacle] at entered
      rw [block, Work.bind_of_error entered, List.map_nil, List.append_nil]
      rfl

end Flat

/-! ## With the check and without it -/

/-- What a step of a session leaves: how it ended, the table, and the lines that were written. -/
structure StepOutcome.Tabulates (done : StepOutcome) (fault? : Option Fault) (symbols : SymbolMap)
    (lines : List String) : Prop where
  result : done.result = Fault.outcome fault?
  survey : done.session.survey? = some (.table ⟨symbols, lines.toArray⟩)

/-- The fault that is left is that of the step. -/
theorem StepOutcome.Tabulates.fault?_eq {done : StepOutcome} {fault? : Option Fault} {symbols : SymbolMap}
    {lines : List String} (h : done.Tabulates fault? symbols lines) : done.fault? = fault? := by
  rw [StepOutcome.fault?, h.result]
  cases fault? <;> rfl

/-- The analysis of a source from the start comes down to the block of its program. -/
theorem Session.tabulates_of_block {checksTwice : Bool} {source : Edition.checks.Source} {fault? : Option Fault}
    {symbols : SymbolMap} {lines : List String}
    (ends : Flat.block checksTwice source.program.block
      ⟨Declared.builtins, ["Insert: INTEGER", "Insert: REAL"].toArray⟩ =
        Fault.settled ⟨symbols, lines.toArray⟩ fault?) :
    ((Session.initial (some (.flat checksTwice))).step .checks (some (.flat checksTwice)) .analyse
      (some source.text)).Tabulates fault? symbols lines := by
  have node : (Analysis.flat checksTwice).node (.program source.program) (Analysis.flat checksTwice).initial =
      Fault.settled (.table ⟨symbols, lines.toArray⟩) fault? := by
    show Survey.onTable (Flat.block checksTwice source.program.block)
      (.table ⟨Declared.builtins, ["Insert: INTEGER", "Insert: REAL"].toArray⟩) = _
    rw [Survey.onTable, ends]
    cases fault? <;> rfl
  have start : (Session.initial (some (Analysis.flat checksTwice))).survey?.getD (Analysis.flat checksTwice).initial =
    (Analysis.flat checksTwice).initial := rfl
  rw [Session.step_source, Session.perform, Session.analyse, start, node]
  cases fault? <;> exact ⟨rfl, rfl⟩

/-- The demonstration of a repeated name analyses as the edition does. The other one, which leaves out the check
for repeated names, ends in the same way with the same table unless that check has failed, and writes the same
lines but for the check of each variable. If the check has failed, it has the names that were declared by then, in
the same order, and behind them those that are declared later. -/
theorem repetition_check_compared (source : Edition.checks.Source) (logs : Bool) :
    let done (analysis? : Option Analysis) :=
      (Session.initial analysis?).step .checks analysis? .analyse (some source.text)
    let own := Decl.leading source.program.block.declarations
    let types := ["Insert: INTEGER", "Insert: REAL"]
    done (some Demonstration.duplicate.analysis) = done (Edition.checks.analysis? logs) ∧
    ∃ fault? fault?' symbols symbols' lines lines',
      (done (Edition.checks.analysis? logs)).Tabulates fault? symbols lines ∧
      (done (some Demonstration.undeclared.analysis)).Tabulates fault?' symbols' lines' ∧
      ((∀ id, fault? ≠ some (.duplicate id)) → fault?' = fault? ∧ symbols' = symbols ∧
        ∃ used, used <+: Stmt.usesAll source.program.block.body ∧
          lines = types ++ own.flatMap (Binding.lines true) ++ used.map Ident.line ∧
          lines' = types ++ own.flatMap (Binding.lines false) ++ used.map Ident.line) ∧
      ∀ id, fault? = some (.duplicate id) →
        (Fault.duplicate id).message Edition.checks.wording = "Error: Duplicate identifier '" ++ id.name ++ "' found" ∧
        ∃ before b after, own = before ++ b :: after ∧ b.id = id ∧
          symbols.names = ["INTEGER", "REAL"] ++ Binding.names before ∧
          symbols'.names = symbols.names ++ ((Binding.names after).removeAll symbols.names).eraseDups := by
  intro done own types
  refine ⟨rfl, ?_⟩
  obtain ⟨fault?, used, sub, other, ends⟩ := Flat.block_entered Declared.builtins source.program.block
  have unchecked := Session.tabulates_of_block (ends false types fun checked => absurd checked Bool.false_ne_true)
  by_cases new : Flat.New Declared.builtins own
  · have checked := Session.tabulates_of_block (ends true types fun _ => new)
    refine ⟨fault?, fault?, _, _, _, _, checked, unchecked, fun _ => ⟨rfl, rfl, used, sub, rfl, rfl⟩, ?_⟩
    exact fun id repeated => absurd repeated (other id)
  · obtain ⟨before, b, after, lines, parts, before_new, known, failed⟩ := Flat.decls_repeated new types
    have checked := @Session.tabulates_of_block true source (some (.duplicate b.id)) _ _ (Work.bind_of_error failed)
    refine ⟨some (.duplicate b.id), fault?, _, _, _, _, checked, unchecked, fun none => absurd rfl (none b.id), ?_⟩
    rintro _ ⟨⟩
    refine ⟨rfl, before, b, after, parts, rfl, Flat.names_enterAll_of_new before_new, ?_⟩
    -- what is repeated adds no name
    show (Flat.enterAll Declared.builtins own).names = _
    rw [show own = before ++ b :: after from parts, Flat.enterAll, List.foldl_append]
    show (Flat.enterAll (Flat.enterAll Declared.builtins before) (b :: after)).names = _
    rw [Flat.names_enterAll, Binding.names, List.map_cons, List.cons_removeAll]
    simp [known, Binding.names]

/-- A name that is declared again with another type, and new names behind it: the check fails there, and without it
the program is accepted. -/
theorem repetition_check_compared_second_type :
    let text := "PROGRAM p; VAR a, b : INTEGER; a : REAL; c, b : REAL; BEGIN b := a + c END."
    let done (analysis? : Option Analysis) := (Session.initial analysis?).step .checks analysis? .analyse (some text)
    ∃ symbols symbols' lines lines',
      (done (Edition.checks.analysis? false)).Tabulates (some (.duplicate ⟨"a", ⟨1, 32⟩⟩)) symbols lines ∧
      (done (some Demonstration.undeclared.analysis)).Tabulates none symbols' lines' ∧
      ∃ later, symbols'.names = symbols.names ++ later := by
  intro text done
  have yields : Edition.checks.yields text (fun _ => true) = true := by decide +kernel
  obtain ⟨tree, reading, parsed, _⟩ := Edition.exists_accepts yields
  obtain ⟨source, same, _⟩ := Edition.exists_source rfl parsed
  obtain ⟨_, fault?, fault?', symbols, symbols', lines, lines', checked, unchecked, _, compared⟩ :=
    repetition_check_compared source false
  rw [same] at checked unchecked
  have failed : (done (Edition.checks.analysis? false)).fault? = some (.duplicate ⟨"a", ⟨1, 32⟩⟩) := by decide +kernel
  have passed : (done (some Demonstration.undeclared.analysis)).fault? = none := by decide +kernel
  obtain rfl := checked.fault?_eq.symm.trans failed
  obtain rfl := unchecked.fault?_eq.symm.trans passed
  obtain ⟨_, _, _, _, _, _, _, names⟩ := compared _ rfl
  exact ⟨symbols, symbols', lines, lines', checked, unchecked, _, names⟩

end LittlePascal
