import LittlePascal.Session
import LittlePascal.Proofs.Recognition
import LittlePascal.Proofs.Succession

/-! # Calls as a conservative extension

The last edition adds calls to the one before it. A tree that the one yields is yielded by the other as
well, at the same places, as long as no call is in it; and an edition without calls yields no others. So
both do the same with a text that the older one reads, whether they analyse or run it.

Main definition: `Node.hasCall`.

Main statements: `Grammar.Derives.transfer`, `Grammar.attempt_transfer`, `calls_extend_places`. -/

namespace LittlePascal

/-! ## Trees with calls -/

namespace Stmt

mutual

/-- Whether a statement is a call or holds one. -/
def hasCall : Stmt → Bool
  | .compound children => anyCall children
  | .call _ _ => true
  | .assign _ _ _ | .empty => false

/-- Whether one of the statements is a call or holds one. -/
def anyCall : List Stmt → Bool
  | [] => false
  | statement :: rest => statement.hasCall || anyCall rest

end

end Stmt

namespace Decl

mutual

/-- Whether a declaration holds a call. -/
def hasCall : Decl → Bool
  | .var _ => false
  | .procedure _ _ declarations body => anyCall declarations || Stmt.anyCall body

/-- Whether one of the declarations holds a call. -/
def anyCall : List Decl → Bool
  | [] => false
  | declaration :: rest => declaration.hasCall || anyCall rest

end

/-- Calls in declarations are calls in one or another of them. -/
theorem anyCall_append (ds ds' : List Decl) : anyCall (ds ++ ds') = (anyCall ds || anyCall ds') := by
  induction ds with
  | nil => rfl
  | cons d ds ih => rw [List.cons_append, anyCall, anyCall, ih, Bool.or_assoc]

/-- There are none in variables. -/
theorem anyCall_map_var (bindings : List Binding) : anyCall (bindings.map .var) = false := by
  induction bindings with
  | nil => rfl
  | cons binding bindings ih => rw [List.map_cons, anyCall, hasCall, ih, Bool.or_self]

end Decl

/-- Whether a block holds a call. -/
def Block.hasCall (b : Block) : Bool := Decl.anyCall b.declarations || Stmt.anyCall b.body

/-- Whether a tree is a call or holds one. -/
def Node.hasCall : Node → Bool
  | .stmt s => s.hasCall
  | .decl d => d.hasCall
  | .block b => b.hasCall
  | .program p => p.block.hasCall
  | .expr _ | .type _ | .parameter _ => false

/-! ## Derivations without calls -/

section Derivations

variable {g g' : Grammar}

mutual

/-- A grammar without calls derives no call. -/
theorem DerivesStmt.hasCall_eq_false (none : g.calls = false) {ms : List Mark} {s : Stmt}
    (h : DerivesStmt g ms s) : s.hasCall = false := by
  cases h with
  | compound _ forms _ => exact separated_anyCall_eq_false none forms
  | call calls _ _ _ _ _ =>
    rw [none] at calls
    cases calls
  | assign _ _ _ => rfl
  | empty => rfl

/-- A grammar without calls derives statements without calls. -/
theorem separated_anyCall_eq_false (none : g.calls = false) {ms : List Mark}
    {children : List Stmt} (h : Separated .semicolon (DerivesStmt g) ms children) :
    Stmt.anyCall children = false := by
  cases h with
  | one form => rw [Stmt.anyCall, form.hasCall_eq_false none, Stmt.anyCall, Bool.or_self]
  | more form _ forms =>
    rw [Stmt.anyCall, form.hasCall_eq_false none, separated_anyCall_eq_false none forms, Bool.or_self]

end

mutual

/-- A statement without calls is derived whether or not there are calls. -/
theorem DerivesStmt.transfer {ms : List Mark} {s : Stmt} (h : DerivesStmt g ms s)
    (free : s.hasCall = false) : DerivesStmt g' ms s := by
  cases h with
  | compound first forms last => exact .compound first (separated_transfer forms free) last
  | call _ _ _ _ _ _ => cases free
  | assign name mark form => exact .assign name mark form
  | empty => exact .empty

/-- Statements without calls are derived whether or not there are calls. -/
theorem separated_transfer {ms : List Mark} {children : List Stmt}
    (h : Separated .semicolon (DerivesStmt g) ms children) (free : Stmt.anyCall children = false) :
    Separated .semicolon (DerivesStmt g') ms children := by
  cases h with
  | one form =>
    rw [Stmt.anyCall, Bool.or_eq_false_iff] at free
    exact .one (form.transfer free.1)
  | more form mark forms =>
    rw [Stmt.anyCall, Bool.or_eq_false_iff] at free
    exact .more (form.transfer free.1) mark (separated_transfer forms free.2)

end

/-- The variables of a block hold no calls. -/
theorem DerivesVariables.anyCall_eq_false {ms : List Mark} {ds : List Decl}
    (h : DerivesVariables ms ds) : Decl.anyCall ds = false := by
  cases h with
  | absent => rfl
  | some _ forms =>
    induction forms with
    | nil => rfl
    | cons form _ ih =>
      obtain ⟨_, _⟩ := form
      rw [List.flatten_cons, Decl.anyCall_append, Decl.anyCall_map_var, ih, Bool.or_self]

mutual

/-- A grammar without calls derives procedures without calls. -/
theorem DerivesProcedure.hasCall_eq_false (none : g.calls = false) {ms : List Mark} {d : Decl} :
    DerivesProcedure g ms d → d.hasCall = false
  | .procedure _ _ _ _ form _ => form.hasCall_eq_false none

/-- A grammar without calls derives lists of procedures without calls. -/
theorem repeated_anyCall_eq_false (none : g.calls = false) {ms : List Mark} {ds : List Decl} :
    Repeated (DerivesProcedure g) ms ds → Decl.anyCall ds = false
  | .nil => rfl
  | .cons form forms => by
    rw [Decl.anyCall, form.hasCall_eq_false none, repeated_anyCall_eq_false none forms, Bool.or_self]

/-- A grammar without calls derives blocks without calls. -/
theorem DerivesBlock.hasCall_eq_false (none : g.calls = false) {ms : List Mark} {b : Block} :
    DerivesBlock g ms b → b.hasCall = false
  | .block vars procedures body => by
    have statements := body.hasCall_eq_false none
    rw [Stmt.hasCall] at statements
    rw [Block.hasCall, Decl.anyCall_append, vars.anyCall_eq_false,
      repeated_anyCall_eq_false none procedures, statements]
    rfl

end

mutual

/-- A procedure without calls is derived whether or not there are calls. -/
theorem DerivesProcedure.transfer {ms : List Mark} {d : Decl} :
    DerivesProcedure g ms d → d.hasCall = false → DerivesProcedure g' ms d
  | .procedure word name parameters first form last, free =>
    .procedure word name parameters first (form.transfer free) last

/-- Procedures without calls are derived whether or not there are calls. -/
theorem repeated_transfer {ms : List Mark} {ds : List Decl} :
    Repeated (DerivesProcedure g) ms ds → Decl.anyCall ds = false →
      Repeated (DerivesProcedure g') ms ds
  | .nil, _ => .nil
  | .cons form forms, free => by
    rw [Decl.anyCall, Bool.or_eq_false_iff] at free
    exact .cons (form.transfer free.1) (repeated_transfer forms free.2)

/-- A block without calls is derived whether or not there are calls. -/
theorem DerivesBlock.transfer {ms : List Mark} {b : Block} :
    DerivesBlock g ms b → b.hasCall = false → DerivesBlock g' ms b
  | .block vars procedures body, free => by
    rw [Block.hasCall, Decl.anyCall_append, Bool.or_eq_false_iff, Bool.or_eq_false_iff] at free
    exact .block vars (repeated_transfer procedures free.1.2) (body.transfer free.2)

end

/-- A grammar without calls derives programs without calls. -/
theorem Grammar.Derives.hasCall_eq_false (none : g.calls = false) {ms : List Mark}
    {p : Program} (h : g.Derives ms p) : p.block.hasCall = false := by
  obtain ⟨_, _, _, form, _⟩ := h
  exact form.hasCall_eq_false none

/-- A program without calls is derived whether or not there are calls. -/
theorem Grammar.Derives.transfer {ms : List Mark} {p : Program} (h : g.Derives ms p)
    (free : p.block.hasCall = false) : g'.Derives ms p := by
  obtain ⟨word, name, first, form, last⟩ := h
  exact .program word name first (form.transfer free) last

end Derivations

/-! ## Texts without calls -/

namespace Grammar

variable {g g' : Grammar} {text : String} {node : Node} {reading : Reading}

/-- A grammar without calls yields trees without calls. -/
theorem hasCall_of_attempt (full : g.Full) (none : g.calls = false)
    (h : g.lexis.attempt g.parse text = .done node reading) : node.hasCall = false := by
  obtain ⟨_, p, _, rfl, form⟩ := reads_of_attempt full h
  exact form.hasCall_eq_false none

/-- Grammars with the same lexemes yield the same trees without calls, and get as far. -/
theorem attempt_transfer (full : g.Full) (full' : g'.Full) (same : g.lexis = g'.lexis)
    (h : g.lexis.attempt g.parse text = .done node reading) (free : node.hasCall = false) :
    g'.lexis.attempt g'.parse text = .done node reading := by
  obtain ⟨r, opened, h⟩ := Lexis.attempt_eq_done.mp h
  obtain ⟨last, ms, p, passage, rfl, form⟩ := (parse_eq_ok full).mp h
  rw [same] at opened passage
  exact Lexis.attempt_of_ok opened
    ((parse_eq_ok full').mpr ⟨last, ms, p, passage, rfl, form.transfer free⟩)

end Grammar

/-- The edition before the last yields exactly the trees of the last edition that hold no call, at the same
places. What both read they analyse and run alike, with or without lines written, in a fresh session and
in any other. -/
theorem calls_extend_places (text : String) :
    (∀ node reading,
      Edition.places.lexis.attempt Edition.places.grammar.parse text = .done node reading ↔
        Edition.calls.lexis.attempt Edition.calls.grammar.parse text = .done node reading ∧
          node.hasCall = false) ∧
    ∀ node reading,
      Edition.places.lexis.attempt Edition.places.grammar.parse text = .done node reading →
      ∀ logs purpose,
        (Session.initial (Edition.places.analysis? logs)).step .places
            (Edition.places.analysis? logs) purpose (some text) =
          (Session.initial (Edition.calls.analysis? logs)).step .calls
            (Edition.calls.analysis? logs) purpose (some text) ∧
        ∀ session : Session,
          session.step .places (Edition.places.analysis? logs) purpose (some text) =
            session.step .calls (Edition.calls.analysis? logs) purpose (some text) := by
  have same : Edition.places.grammar.lexis = Edition.calls.grammar.lexis := rfl
  have trees : ∀ node reading,
      Edition.places.lexis.attempt Edition.places.grammar.parse text = .done node reading ↔
        Edition.calls.lexis.attempt Edition.calls.grammar.parse text = .done node reading ∧
          node.hasCall = false := by
    intro node reading
    constructor
    · intro h
      have free := Grammar.hasCall_of_attempt Edition.full_places rfl h
      exact ⟨Grammar.attempt_transfer Edition.full_places Edition.full_calls same h free, free⟩
    · rintro ⟨h, free⟩
      exact Grammar.attempt_transfer Edition.full_calls Edition.full_places same.symm h free
  refine ⟨trees, fun node reading h logs purpose => ?_⟩
  have steps : ∀ session : Session,
      session.step .places (Edition.places.analysis? logs) purpose (some text) =
        session.step .calls (Edition.calls.analysis? logs) purpose (some text) := by
    intro session
    -- the same tree, the same analysis and the same rules for values
    rw [Session.step, Session.step, h, ((trees node reading).mp h).1]
    rfl
  exact ⟨steps _, steps⟩

/-- A text without calls is read, analysed and run alike by both editions; a text with a call is read by the last one
alone. -/
theorem calls_extend_places_by_call :
    let plain := "PROGRAM p; VAR a : INTEGER; PROCEDURE q(b : INTEGER); BEGIN END; BEGIN a := 7 DIV 2 END."
    let calling := "PROGRAM p; VAR a : INTEGER; PROCEDURE q(b : INTEGER); BEGIN END; BEGIN q(7 DIV 2) END."
    (∃ tree reading, Edition.places.Accepts plain tree reading ∧ Edition.calls.Accepts plain tree reading ∧
      ∀ logs purpose,
        (Session.initial (Edition.places.analysis? logs)).step .places (Edition.places.analysis? logs) purpose
            (some plain) =
          (Session.initial (Edition.calls.analysis? logs)).step .calls (Edition.calls.analysis? logs) purpose
            (some plain)) ∧
    (∃ tree reading, Edition.calls.Accepts calling tree reading) ∧
      ∀ tree reading, ¬ Edition.places.Accepts calling tree reading := by
  intro plain calling
  have yields : Edition.places.yields plain (fun _ => true) = true := by decide +kernel
  have yields' : Edition.calls.yields calling Node.hasCall = true := by decide +kernel
  obtain ⟨tree, reading, accepted, _⟩ := Edition.exists_accepts yields
  obtain ⟨tree', reading', accepted', call⟩ := Edition.exists_accepts yields'
  obtain ⟨trees, steps⟩ := calls_extend_places plain
  refine ⟨⟨tree, reading, accepted, ((trees tree reading).mp accepted).1,
    fun logs purpose => (steps tree reading accepted logs purpose).1⟩, ⟨tree', reading', accepted'⟩, ?_⟩
  intro other last also
  obtain ⟨same, free⟩ := ((calls_extend_places calling).1 other last).mp also
  -- the last edition yields one tree, and it has the call
  cases accepted'.symm.trans same
  exact Bool.noConfusion (call.symm.trans free)

end LittlePascal
