import LittlePascal.Proofs.Recognition
import LittlePascal.Proofs.Verdict

/-! # Containment of rules

A rule that reads a text of bounded length ends in one of two ways: it yields a tree, or it fails with a
fault of a known class. It never runs out of budget, since every round of a loop and every level of nesting
passes a token and the budget exceeds the number of tokens that are left.

What is known of readings, faults and names is a parameter, a `Watch`. It is enough that the reader keeps it
from token to token; the rules of a grammar then keep it as well.

Main definitions: `Watch`, `Watch.Kept`, `Parse.Contained`.

Main statements: one lemma for every combinator and every rule, `Grammar.parse_contained`, and for whole
texts `Grammar.attempt_contained`. -/

namespace LittlePascal

/-! ## What is kept while reading -/

/-- What is known while a text is read: of the readings, of the faults, and of the names that are met. -/
structure Watch where
  fine : Reading → Prop
  known : Fault → Prop
  names : String → Prop

/-- The reader keeps what is known from token to token. -/
structure Watch.Kept (w : Watch) (lx : Lexis) : Prop where
  next {r s : Reading} {u : Unit} : w.fine r → Parse.next lx r = .ok u s → w.fine s
  fails {r s : Reading} {fault : Fault} : w.fine r → Parse.next lx r = .error fault s → w.known fault
  refuses (t : Token) : w.known (.unexpected t)
  names {r : Reading} {s : String} {place : Place} :
    w.fine r → r.token = .lexeme (.name s) place → w.names s

namespace Parse

variable {α β : Type} {w : Watch} {lx : Lexis} {bound bound' spent spent' : Nat} {P Q : α → Prop}

/-- What a rule comes to from a reading: a result that is such, with so much less room at least, or a fault
that is known. -/
inductive Ends (w : Watch) (spent : Nat) (P : α → Prop) (r : Reading) :
    EStateM.Result Fault Reading α → Prop where
  | read {a : α} {s : Reading} : w.fine s → s.room + spent ≤ r.room → P a → Ends w spent P r (.ok a s)
  | failed {fault : Fault} {s : Reading} : w.known fault → Ends w spent P r (.error fault s)

/-- The rule ends so from every reading with less room than the bound. -/
def Contained (w : Watch) (bound spent : Nat) (rule : Parse α) (P : α → Prop) : Prop :=
  ∀ ⦃r : Reading⦄, w.fine r → r.room < bound → Ends w spent P r (rule r)

/-- The rule ends so from every such reading that stands at a token. -/
def ContainedAt (w : Watch) (t : Token) (bound spent : Nat) (rule : Parse α) (P : α → Prop) : Prop :=
  ∀ ⦃r : Reading⦄, w.fine r → r.token = t → r.room < bound → Ends w spent P r (rule r)

/-- Rules in sequence end so if each of them does, from one reading. -/
theorem Ends.bind {rule : Parse α} {further : α → Parse β} {Q : β → Prop} {r : Reading}
    (first : Ends w spent P r (rule r))
    (second : ∀ ⦃a s⦄, w.fine s → s.room + spent ≤ r.room → P a → Ends w spent' Q s (further a s)) :
    Ends w (spent + spent') Q r ((rule >>= further) r) := by
  cases outcome : rule r with
  | error fault s =>
    rw [Work.bind_of_error outcome]
    rw [outcome] at first
    cases first with
    | failed known => exact .failed known
  | ok a s =>
    rw [Work.bind_of_ok outcome]
    rw [outcome] at first
    cases first with
    | read fine room such =>
      have later := second fine room such
      cases end' : further a s with
      | error fault t =>
        rw [end'] at later
        cases later with
        | failed known => exact .failed known
      | ok b t =>
        rw [end'] at later
        cases later with
        | read fine' room' such' => exact .read fine' (by omega) such'

/-- Less can be said of an end. -/
theorem Ends.mono {outcome : EStateM.Result Fault Reading α} {r : Reading} (h : Ends w spent P r outcome)
    (less : spent' ≤ spent) (such : ∀ a, P a → Q a) : Ends w spent' Q r outcome := by
  cases h with
  | read fine room fits => exact .read fine (by omega) (such _ fits)
  | failed known => exact .failed known

namespace Contained

variable {rule : Parse α} {further : α → Parse β} {R : β → Prop}

/-- Less can be said of a rule. -/
theorem mono (h : Contained w bound spent rule P) (smaller : bound' ≤ bound) (less : spent' ≤ spent)
    (such : ∀ a, P a → Q a) : Contained w bound' spent' rule Q :=
  fun _ fine room => (h fine (by omega)).mono less such

/-- A rule that is contained stays so for readings with less room. -/
theorem within (h : Contained w bound spent rule P) (smaller : bound' ≤ bound) :
    Contained w bound' spent rule P :=
  h.mono smaller (Nat.le_refl _) fun _ such => such

/-- Of the tokens that a rule passes nothing need be known. -/
theorem lax (h : Contained w bound spent rule P) : Contained w bound 0 rule P :=
  h.mono (Nat.le_refl _) (Nat.zero_le _) fun _ such => such

/-- A rule that passes tokens may stand before another one, which then has less room. -/
theorem before (first : Contained w bound spent rule P)
    (second : ∀ a, P a → Contained w (bound - spent) spent' (further a) R) :
    Contained w bound spent (rule >>= further) R := by
  intro r fine room
  have both := (first fine room).bind fun a _ fine' less such => second a such fine' (by omega)
  exact both.mono (Nat.le_add_right _ _) fun _ such => such

/-- A rule that need not pass tokens may stand before one that does. -/
theorem behind (first : Contained w bound 0 rule P)
    (second : ∀ a, P a → Contained w bound spent (further a) R) :
    Contained w bound spent (rule >>= further) R := by
  intro r fine room
  have both := (first fine room).bind fun a _ fine' less such => second a such fine' (by omega)
  exact both.mono (by omega) fun _ such => such

/-- A result without reading is contained if it is such. -/
theorem pure {a : α} (h : P a) : Contained w bound 0 (Pure.pure a) P :=
  fun _ fine _ => .read fine (Nat.le_refl _) h

/-- A rule stays contained if its result is changed. -/
theorem map (h : Contained w bound spent rule P) {k : α → β} (changed : ∀ a, P a → R (k a)) :
    Contained w bound spent (do return k (← rule)) R :=
  h.before fun a such => pure (changed a such)

/-- What is refused is known to be. -/
theorem reject (kept : w.Kept lx) : Contained w bound spent Parse.reject P :=
  fun r _ _ => .failed (kept.refuses r.token)

/-- A rule may look at the current token first. -/
theorem current {further : Token → Parse β} (h : ∀ t, ContainedAt w t bound spent (further t) R) :
    Contained w bound spent (Parse.current >>= further) R :=
  fun r fine room => h r.token fine rfl room

/-- A rule that is contained is so at every token. -/
theorem at_token (h : Contained w bound spent rule P) (t : Token) : ContainedAt w t bound spent rule P :=
  fun _ fine _ room => h fine room

/-- A rule may look at the kind of the current token first. -/
theorem kind_at {further : Kind → Parse β} (h : ∀ t, ContainedAt w t bound spent (further t.kind) R) :
    Contained w bound spent (Parse.kind >>= further) R :=
  fun r fine room => h r.token fine rfl room

/-- A rule may look at the kind first, if nothing more need be known of it. -/
theorem kind {further : Kind → Parse β} (h : ∀ k, Contained w bound spent (further k) R) :
    Contained w bound spent (Parse.kind >>= further) R :=
  kind_at fun t => (h t.kind).at_token t

/-- The budget exceeds the room that is left. -/
theorem budget {further : Nat → Parse β} (h : ∀ n, Contained w (min bound n) spent (further n) R) :
    Contained w bound spent (Parse.budget >>= further) R := by
  intro r fine room
  refine h _ fine ?_
  have most : r.room ≤ r.cursor.rest.length + 1 := by
    unfold Reading.room
    split <;> omega
  omega

/-- A rule may refuse its result on a condition. -/
theorem guarded (kept : w.Kept lx) {c : Prop} [Decidable c] {a : α} (h : P a) :
    Contained w bound 0
      (do
        if c then Parse.reject
        return a) P := by
  split
  · exact before (P := fun _ => True) (reject kept) fun _ _ => pure h
  · exact pure h

end Contained

/-! ## Tokens and lists -/

/-- A step past a lexeme takes room away, or fails with a known fault. -/
theorem next_ends (kept : w.Kept lx) {r : Reading} (fine : w.fine r) {l : Lexeme} {place : Place}
    (token : r.token = .lexeme l place) : Ends w 1 (fun _ => True) r (next lx r) := by
  cases outcome : next lx r with
  | error fault s => exact .failed (kept.fails fine outcome)
  | ok u s =>
    have lexeme : r.token ≠ .endOfText := by
      rw [token]
      nofun
    exact .read (kept.next fine outcome) (room_next lexeme outcome) trivial

/-- A rule behind a step past a lexeme may use the room before that. -/
theorem next_contained (kept : w.Kept lx) {l : Lexeme} {place : Place} {further : Unit → Parse β}
    {R : β → Prop} (second : Contained w (bound - 1) spent (further ()) R) :
    ContainedAt w (.lexeme l place) bound 1 (next lx >>= further) R := by
  intro r fine token room
  have both := (next_ends kept fine token).bind fun _ _ fine' less _ => second fine' (by omega)
  exact both.mono (Nat.le_add_right _ _) fun _ such => such

/-- Of the tokens that a rule passes from a token on nothing need be known. -/
theorem ContainedAt.lax {rule : Parse α} {t : Token} (h : ContainedAt w t bound spent rule P) :
    ContainedAt w t bound 0 rule P :=
  fun _ fine token room => (h fine token room).mono (Nat.zero_le _) fun _ such => such

/-- A token of a kind that only lexemes have is passed or refused. -/
theorem expect_contained (kept : w.Kept lx) {k : Kind} {l : Lexeme} (only : k.lexeme? = some l) :
    Contained w bound 1 (expect lx k) fun _ => True := by
  intro r fine room
  rw [expect, current_bind]
  split
  · rename_i same
    obtain ⟨place, token⟩ := (Token.kind_eq_iff only).mp same
    exact next_ends kept fine token
  · exact .failed (kept.refuses _)

/-- A name is one of the known names, or something else is refused. -/
theorem ident_contained (kept : w.Kept lx) :
    Contained w bound 1 (ident lx) fun id => w.names id.name := by
  refine .current fun t => ?_
  split
  · rename_i name place
    intro r fine token room
    have named : Contained w (bound - 1) 0 (Pure.pure ⟨name, place⟩) fun id : Ident => w.names id.name :=
      .pure (kept.names fine token)
    exact next_contained kept named fine token room
  · exact (Contained.reject kept).at_token _

variable {rule : Parse α}

/-- Any number of items end within the bound if each of them passes a token. -/
theorem manyWhile_contained {announced : Kind → Bool} (item : Contained w bound 1 rule P) (n : Nat) :
    Contained w (min bound n) 0 (manyWhile announced rule n) fun as => ∀ a ∈ as, P a := by
  induction n with
  | zero =>
    intro r _ room
    omega
  | succ n ih =>
    refine .kind fun k => ?_
    split
    · have later : Contained w (min bound (n + 1) - 1) 0 (manyWhile announced rule n) _ := ih.within (by omega)
      refine ((item.within (by omega)).before fun a such => later.map fun rest all => ?_).lax
      exact List.forall_mem_cons.mpr ⟨such, all⟩
    · exact .pure (by simp)

/-- The budget is enough for their number. -/
theorem many_contained {opener : Kind} (item : Contained w bound 1 rule P) :
    Contained w bound 0 (many opener rule) fun as => ∀ a ∈ as, P a :=
  .budget fun n => manyWhile_contained item n

/-- Items with separators are contained if the items are. -/
theorem separated_contained (kept : w.Kept lx) {separator : Kind} {l : Lexeme}
    (only : separator.lexeme? = some l) (item : Contained w bound spent rule P) :
    Contained w bound spent (separated lx separator rule) fun as => ∀ a ∈ as, P a := by
  have preceded : Contained w bound 1 (do expect lx separator; rule) P :=
    (expect_contained kept only).before fun _ _ => item.within (by omega)
  refine item.before fun a such => ((many_contained preceded).within (by omega)).map fun rest all => ?_
  exact List.forall_mem_cons.mpr ⟨such, all⟩

/-- Operands with operators between them are contained if the operands are. -/
theorem foldLeft_contained (kept : w.Kept lx) {operators : List Operator}
    {combine : Operator → Place → α → α → Parse α} (operand : Contained w bound 0 rule P)
    (combined : ∀ o p a b, P a → P b → Contained w bound 0 (combine o p a b) P) (n : Nat) {left : α}
    (such : P left) :
    Contained w (min bound n) 0 (foldLeft lx (operatorAmong operators) combine rule n left) P := by
  induction n generalizing left with
  | zero =>
    intro r _ room
    omega
  | succ n ih =>
    refine .current fun t => ?_
    split
    · exact (Contained.pure such).at_token _
    · rename_i o place found
      obtain ⟨rfl, _⟩ := operatorAmong_eq_some.mp found
      exact (next_contained kept ((operand.within (by omega)).before fun right such' =>
        ((combined o place left right such such').within (by omega)).before fun a both =>
          (ih both).within (by omega))).lax

end Parse

/-! ## Regular trees -/

/-- A block all of whose expressions and declared names are regular. -/
structure Block.Regular (names : String → Prop) (b : Block) : Prop where
  declarations : Decl.AllRegular names b.declarations
  body : Stmt.AllRegular names b.body

variable {names : String → Prop}

/-- Statements are regular if each of them is. -/
theorem Stmt.allRegular_of_forall {statements : List Stmt} (h : ∀ s ∈ statements, AllRegular names [s]) :
    AllRegular names statements := by
  induction statements with
  | nil => exact .nil
  | cons s rest ih =>
    rw [List.forall_mem_cons] at h
    exact h.1.cons (ih h.2)

/-- Regular declarations before regular ones are regular together. -/
theorem Decl.AllRegular.append {ds ds' : List Decl} (first : AllRegular names ds)
    (later : AllRegular names ds') : AllRegular names (ds ++ ds') := by
  induction first with
  | nil => exact later
  | var proper _ ih => exact .var proper ih
  | procedure inner body _ _ ih => exact .procedure inner body ih

/-- Declarations are regular if each of them is. -/
theorem Decl.allRegular_of_forall {ds : List Decl} (h : ∀ d ∈ ds, AllRegular names [d]) :
    AllRegular names ds := by
  induction ds with
  | nil => exact .nil
  | cons d ds ih =>
    rw [List.forall_mem_cons] at h
    exact h.1.append (ih h.2)

/-- Lists of regular declarations, one after the other, are regular. -/
theorem Decl.AllRegular.flatten {parts : List (List Decl)} (h : ∀ ds ∈ parts, AllRegular names ds) :
    AllRegular names parts.flatten := by
  induction parts with
  | nil => exact .nil
  | cons ds parts ih =>
    rw [List.forall_mem_cons] at h
    exact h.1.append (ih h.2)

/-- Variables with names of the class are regular. -/
theorem Decl.allRegular_map_var {bindings : List Binding} (h : ∀ b ∈ bindings, names b.id.name) :
    AllRegular names (bindings.map .var) := by
  induction bindings with
  | nil => exact .nil
  | cons b rest ih =>
    rw [List.forall_mem_cons] at h
    exact .var h.1 (ih h.2)

/-! ## Rules of a grammar -/

namespace Grammar

open Parse

variable {g : Grammar} {w : Watch} {bound spent : Nat}

/-- A chain of operands has every property that its operands have and pass on. -/
theorem chain_contained (kept : w.Kept g.lexis) {P : Expr → Prop}
    (joined : ∀ o p left right, P left → P right → P (.binary o p left right)) {operators : List Operator}
    {operand : Parse Expr} (h : Contained w bound spent operand P) :
    Contained w bound spent (g.chain operators operand) P := by
  have combined : ∀ o p left right, P left → P right →
      Contained w (bound - spent) 0 (pure (Expr.binary o p left right)) P :=
    fun o p left right such such' => .pure (joined o p left right such such')
  exact h.before fun first such => .budget fun n =>
    foldLeft_contained kept (h.within (Nat.sub_le bound spent)).lax combined n such

/-- Factors with such a property, at every level of nesting. What is neither a sign, a literal nor in parentheses
may be left out, so a factor need not pass a token. -/
theorem factorWithin_contained (kept : w.Kept g.lexis) {P : Expr → Prop} (atMost : spent ≤ 1)
    (last : ∀ bound, Contained w bound spent g.lastFactor P)
    (literal : ∀ {r : Reading} {l : Literal} {place : Place}, w.fine r → r.token = .lexeme (.literal l) place →
      P (.literal l place))
    (signed : ∀ sign place e, P e → P (.signed sign place e))
    (joined : ∀ o p left right, P left → P right → P (.binary o p left right)) (n : Nat) :
    Contained w n spent (g.factorWithin n) P := by
  induction n with
  | zero =>
    intro r _ room
    omega
  | succ n ih =>
    -- a step past a lexeme is more than need be known
    have stepped : ∀ {t : Token} {rule : Parse Expr}, ContainedAt w t (n + 1) 1 rule P →
        ContainedAt w t (n + 1) spent rule P :=
      fun h _ fine token room => (h fine token room).mono atMost fun _ such => such
    have sign : ∀ sign operator place,
        ContainedAt w (.lexeme (.operator operator) place) (n + 1) spent
          (if g.signs then do
            next g.lexis
            return Expr.signed sign place (← g.factorWithin n)
          else g.lastFactor) P := by
      intro sign operator place
      split
      · exact stepped (next_contained kept (ih.map fun e such => signed sign place e such))
      · exact (last _).at_token _
    refine .current fun t => ?_
    split
    · rename_i l place
      intro r fine token room
      exact stepped (next_contained kept (.pure (literal fine token))) fine token room
    · have inner : Contained w n spent (g.sum (g.factorWithin n)) P :=
        chain_contained kept joined (chain_contained kept joined ih)
      exact stepped (next_contained kept (inner.before fun _ such =>
        (expect_contained kept rfl).map fun _ _ => such))
    · exact sign .plus .plus _
    · exact sign .minus .minus _
    · exact (last _).at_token _

/-- An expression has every property that its operands have and pass on. -/
theorem expr_contained_of (kept : w.Kept g.lexis) {P : Expr → Prop} (atMost : spent ≤ 1)
    (last : ∀ bound, Contained w bound spent g.lastFactor P)
    (literal : ∀ {r : Reading} {l : Literal} {place : Place}, w.fine r → r.token = .lexeme (.literal l) place →
      P (.literal l place))
    (signed : ∀ sign place e, P e → P (.signed sign place e))
    (joined : ∀ o p left right, P left → P right → P (.binary o p left right)) :
    Contained w bound spent g.expr P := by
  refine .budget fun n => ?_
  have factor := factorWithin_contained kept atMost last literal signed joined n
  exact chain_contained kept joined (chain_contained kept joined (factor.within (Nat.min_le_right bound n)))

/-- An expression is read as a regular one, or fails with a known fault. -/
theorem expr_contained (kept : w.Kept g.lexis) (holes : g.holes = false) :
    Contained w bound 1 g.expr (Expr.Regular w.names) := by
  have last : ∀ bound, Contained w bound 1 g.lastFactor (Expr.Regular w.names) := by
    intro bound
    rw [lastFactor, holes]
    exact (ident_contained kept).map fun _ proper => proper
  have joined : ∀ o p left right, left.Regular w.names → right.Regular w.names →
      (Expr.binary o p left right).Regular w.names :=
    fun _ _ _ _ regular regular' => ⟨regular, regular'⟩
  exact expr_contained_of kept (Nat.le_refl 1) last (fun _ _ => trivial) (fun _ _ _ _ => trivial) joined

/-- An assignment is read as a regular statement, or fails with a known fault. -/
theorem assignment_contained (kept : w.Kept g.lexis) (holes : g.holes = false) :
    Contained w bound 1 g.assignment fun s => Stmt.AllRegular w.names [s] := by
  refine @Contained.before _ _ w bound 1 1 _ _ _ _ (ident_contained kept) fun target proper => .current fun t => ?_
  split
  · exact next_contained kept ((expr_contained kept holes).map fun _ regular => .assign proper regular .nil)
  · exact (Contained.reject kept).at_token _

/-- A call is read as a regular statement, or fails with a known fault. -/
theorem call_contained (kept : w.Kept g.lexis) (holes : g.holes = false) :
    Contained w bound 1 g.call fun s => Stmt.AllRegular w.names [s] := by
  have arguments : ∀ {bound}, Contained w bound 0 g.arguments fun es => ∀ e ∈ es, e.Regular w.names := by
    intro bound
    refine .kind fun k => ?_
    split
    · exact .pure (by simp)
    · exact (separated_contained kept rfl (expr_contained kept holes)).lax
  exact (ident_contained kept).before fun _ _ => (expect_contained kept rfl).before fun _ _ =>
    arguments.before fun _ regular => (expect_contained kept rfl).map fun _ _ => .call regular .nil

/-- A compound statement has regular statements in it if its rule for them is contained. -/
theorem compoundOf_contained (kept : w.Kept g.lexis) {statement : Parse Stmt}
    (h : Contained w bound 0 statement fun s => Stmt.AllRegular w.names [s]) :
    Contained w (bound + 1) 1 (g.compoundOf statement) (Stmt.AllRegular w.names) := by
  have statements : Contained w bound 0 (g.statementsOf statement) (Stmt.AllRegular w.names) :=
    (separated_contained kept rfl h).before fun _ regular => .kind fun _ =>
      .guarded kept (Stmt.allRegular_of_forall regular)
  exact (expect_contained kept rfl).before fun _ _ => statements.before fun _ regular =>
    (expect_contained kept rfl).map fun _ _ => regular

/-- A statement is regular, at every level of nesting. -/
theorem statementWithin_contained (kept : w.Kept g.lexis) (holes : g.holes = false) (n : Nat) :
    Contained w n 0 (g.statementWithin n) fun s => Stmt.AllRegular w.names [s] := by
  induction n with
  | zero =>
    intro r _ room
    omega
  | succ n ih =>
    refine .kind fun k => ?_
    split
    · exact ((compoundOf_contained kept ih).map fun _ regular => .compound regular .nil).lax
    · intro r fine room
      rw [startsCall_bind]
      split
      · exact (call_contained kept holes).lax fine room
      · exact (assignment_contained kept holes).lax fine room
    · exact .pure (.empty .nil)

/-- The statements of a block are regular. -/
theorem compound_contained (kept : w.Kept g.lexis) (holes : g.holes = false) :
    Contained w bound 1 g.compound (Stmt.AllRegular w.names) := by
  refine .budget fun n => ?_
  have statement := (statementWithin_contained kept holes n).within (Nat.min_le_right bound n)
  exact (compoundOf_contained kept statement).within (Nat.le_succ _)

/-- Names that share a type are known ones. -/
theorem bindings_contained (kept : w.Kept g.lexis) :
    Contained w bound 1 g.bindings fun bs => ∀ b ∈ bs, w.names b.id.name := by
  have typeRef : ∀ {bound}, Contained w bound 1 g.typeRef fun _ => True := by
    intro bound
    refine .current fun t => ?_
    split
    · exact next_contained kept (.pure trivial)
    · exact next_contained kept (.pure trivial)
    · exact (Contained.reject kept).at_token _
  refine (separated_contained kept rfl (ident_contained kept)).before fun ids proper =>
    (expect_contained kept rfl).before fun _ _ => typeRef.map fun type _ b member => ?_
  obtain ⟨id, among, rfl⟩ := List.mem_map.mp member
  exact proper id among

/-- A section of variables declares known names. -/
theorem variableSection_contained (kept : w.Kept g.lexis) :
    Contained w bound 1 g.variableSection (Decl.AllRegular w.names) := by
  have group : ∀ {bound}, Contained w bound 1 g.variableDecls (Decl.AllRegular w.names) := by
    intro bound
    exact (bindings_contained kept).before fun _ proper =>
      (expect_contained kept rfl).map fun _ _ => Decl.allRegular_map_var proper
  exact (expect_contained kept rfl).before fun _ _ => (many_contained group).map fun _ regular => .flatten regular

/-- The parameters of a procedure are read, or fail with a known fault. -/
theorem parameterSection_contained (kept : w.Kept g.lexis) :
    Contained w bound 0 g.parameterSection fun _ => True := by
  have list : ∀ {bound}, Contained w bound 0 g.parameterList fun _ => True := by
    intro bound
    refine .kind fun k => ?_
    split
    · exact ((separated_contained kept rfl (bindings_contained kept)).map fun _ _ => trivial).lax
    · exact .pure trivial
  refine .kind_at fun t => ?_
  split
  · rename_i opened
    rw [Bool.and_eq_true, decide_eq_true_eq] at opened
    obtain ⟨place, rfl⟩ := (Token.kind_eq_iff rfl).mp opened.2
    exact (next_contained kept (list.before fun _ _ => (expect_contained kept rfl).map fun _ _ => trivial)).lax
  · exact (Contained.pure trivial).at_token _

/-- A procedure is regular if its rule for blocks is contained. -/
theorem procedureOf_contained (kept : w.Kept g.lexis) {block : Parse Block}
    (h : Contained w bound 1 block (Block.Regular w.names)) :
    Contained w (bound + 1) 1 (g.procedureOf block) fun d => Decl.AllRegular w.names [d] :=
  (expect_contained kept rfl).before fun _ _ => (ident_contained kept).before fun _ _ =>
    (parameterSection_contained kept).before fun _ _ => (expect_contained kept rfl).before fun _ _ =>
      (h.within (by omega)).before fun _ regular => (expect_contained kept rfl).map fun _ _ =>
        .procedure regular.declarations regular.body .nil

/-- Declarations are regular, in a fixed order or in any order. -/
theorem declarationsOf_contained (kept : w.Kept g.lexis) {block : Parse Block}
    (h : Contained w bound 1 block (Block.Regular w.names)) :
    Contained w (bound + 1) 0 (g.declarationsOf block) (Decl.AllRegular w.names) := by
  cases any : g.interleaved with
  | true =>
    have sections : Contained w (bound + 1) 1 (g.sectionOf block) (Decl.AllRegular w.names) := by
      refine .kind fun k => ?_
      split
      · exact variableSection_contained kept
      · exact (procedureOf_contained kept h).map fun _ regular => regular
    rw [declarationsOf, any]
    exact .budget fun n => (manyWhile_contained sections n).map fun _ regular => .flatten regular
  | false =>
    have vars : Contained w (bound + 1) 0 g.vars (Decl.AllRegular w.names) := by
      refine .kind fun k => ?_
      split
      · exact (variableSection_contained kept).lax
      · exact .pure .nil
    rw [declarationsOf_eq any]
    exact vars.before fun _ regular => (many_contained (procedureOf_contained kept h)).map fun _ regular' =>
      regular.append (Decl.allRegular_of_forall regular')

/-- A block is regular, at every level of nesting. -/
theorem blockWithin_contained (kept : w.Kept g.lexis) (holes : g.holes = false) (n : Nat) :
    Contained w n 1 (g.blockWithin n) (Block.Regular w.names) := by
  induction n with
  | zero =>
    intro r _ room
    omega
  | succ n ih =>
    exact (declarationsOf_contained kept ih).behind fun _ regular =>
      (compound_contained kept holes).map fun _ regular' => ⟨regular, regular'⟩

/-- A whole text is read as a regular program, or fails with a known fault. -/
theorem parse_contained (kept : w.Kept g.lexis) (holes : g.holes = false) (header : g.header = true) :
    Contained w bound 1 g.parse fun node => ∃ p, node = .program p ∧ p.block.Regular w.names := by
  have block : ∀ {bound}, Contained w bound 1 g.block (Block.Regular w.names) := by
    intro bound
    exact .budget fun n => (blockWithin_contained kept holes n).within (Nat.min_le_right bound n)
  have program : Contained w bound 1 g.program fun p => p.block.Regular w.names :=
    (expect_contained kept rfl).before fun _ _ => (ident_contained kept).before fun _ _ =>
      (expect_contained kept rfl).before fun _ _ => block.before fun _ regular =>
        (expect_contained kept rfl).map fun _ _ => regular
  rw [parse, whole_headed holes header]
  exact (program.map fun p regular => ⟨p, rfl, regular⟩).before fun _ regular => .kind fun _ =>
    .guarded kept regular

/-- A text that can be begun yields a regular program, or is refused with a known fault. -/
theorem attempt_contained (kept : w.Kept g.lexis) (holes : g.holes = false) (header : g.header = true)
    {text : String} {r : Reading} (opened : g.lexis.openReading text = .ok r) (fine : w.fine r) :
    (∃ fault reading, g.lexis.attempt g.parse text = .failed fault reading ∧ w.known fault) ∨
      ∃ p reading, g.lexis.attempt g.parse text = .done (.program p) reading ∧
        p.block.Regular w.names := by
  have ends := parse_contained kept holes header fine (Nat.lt_succ_self r.room)
  cases outcome : g.parse r with
  | error fault s =>
    rw [outcome] at ends
    cases ends with
    | failed known => exact .inl ⟨fault, s, Lexis.attempt_of_error opened outcome, known⟩
  | ok node s =>
    rw [outcome] at ends
    cases ends with
    | read _ _ such =>
      obtain ⟨p, rfl, regular⟩ := such
      exact .inr ⟨p, s, Lexis.attempt_of_ok opened outcome, regular⟩

end Grammar

end LittlePascal
