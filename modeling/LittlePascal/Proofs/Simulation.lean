import LittlePascal.Proofs.Recognition
import LittlePascal.Proofs.Segmentation

/-! # One grammar follows another

A grammar follows another one if it reads whatever the other one reads, with the same result and as far.
That is said of every rule: whatever the one rule yields, its counterpart yields from the same reading on.
The two grammars may read lexemes differently, as long as they agree on those of the text at hand.

Main definitions:
* `Lexis.Agrees`: two readers of lexemes come to the same tokens from a cursor on;
* `Parse.Follows`: a rule yields whatever another one yields;
* `Grammar.Widens`: the decisions in which a grammar may differ from one that it follows.

Main statements:
* `Grammar.blockWithin_follows`: blocks, with declarations in a fixed order or in any order;
* `Grammar.attempt_of_widens`: whole texts. -/

namespace LittlePascal

/-! ## Readers that agree -/

/-- From a cursor on, each call of the one reader that comes to a token comes to it in the other one as
well. -/
def Lexis.Agrees (lx lx' : Lexis) (c : Cursor) : Prop :=
  ∀ n t d, lx.nth n c = .ok t d → lx'.nth n c = .ok t d

/-- Readers that agree come to the same token, and agree behind it. -/
theorem Lexis.Agrees.token {lx lx' : Lexis} {c d : Cursor} {t : Token} (agrees : lx.Agrees lx' c)
    (read : lx.token c = .ok t d) : lx'.token c = .ok t d ∧ lx.Agrees lx' d := by
  have read' : lx'.token c = .ok t d := agrees 0 t d read
  refine ⟨read', fun n t' d' later => ?_⟩
  have call : lx.nth (n + 1) c = .ok t' d' := by
    rw [nth, Work.bind_of_ok read, later]
  have call' := agrees (n + 1) t' d' call
  rwa [nth, Work.bind_of_ok read'] at call'

/-- Readers agree from a cursor on if all tokens that the one comes to are such that the other reads them
too. -/
theorem Lexis.agrees_of_tokens {lx lx' : Lexis} {P : Token → Prop}
    (same : ∀ {c t d}, P t → lx.token c = .ok t d → lx'.token c = .ok t d) {c : Cursor}
    (all : ∀ n t d, lx.nth n c = .ok t d → P t) : lx.Agrees lx' c := by
  intro n
  induction n generalizing c with
  | zero => exact fun t d read => same (all 0 t d read) read
  | succ n ih =>
    intro t d call
    obtain ⟨first, c', read, call⟩ := Work.bind_eq_ok.mp call
    rw [nth, Work.bind_of_ok (same (all 0 _ _ read) read)]
    refine ih (fun m t d later => all (m + 1) t d ?_) t d call
    rw [nth, Work.bind_of_ok read, later]

/-- Readers that agree on a text begin it alike. -/
theorem Lexis.Agrees.openReading {lx lx' : Lexis} {text : String} {r : Reading}
    (agrees : lx.Agrees lx' (.start text.toList)) (same : lx'.emptyText = lx.emptyText)
    (opened : lx.openReading text = .ok r) :
    lx'.openReading text = .ok r ∧ lx.Agrees lx' r.cursor := by
  obtain ⟨nonempty, read⟩ := openReading_eq_ok.mp opened
  obtain ⟨read', agrees'⟩ := agrees.token read
  rw [← same] at nonempty
  exact ⟨openReading_eq_ok.mpr ⟨nonempty, read'⟩, agrees'⟩

namespace Parse

variable {α β : Type} {lx lx' : Lexis}

/-- Whatever the one rule yields, the other one yields from the same reading on, if the readers of lexemes
agree there; and then they agree behind it. -/
def Follows (lx lx' : Lexis) (x y : Parse α) : Prop :=
  ∀ ⦃r s : Reading⦄ ⦃a : α⦄, lx.Agrees lx' r.cursor → x r = .ok a s →
    y r = .ok a s ∧ lx.Agrees lx' s.cursor

namespace Follows

variable {x y : Parse α} {f g : α → Parse β}

/-- A result without reading is followed. -/
theorem pure (a : α) : Follows lx lx' (Pure.pure a) (Pure.pure a) := by
  intro r s b agrees read
  cases read
  exact ⟨rfl, agrees⟩

/-- What is refused need not be followed. -/
theorem reject : Follows lx lx' Parse.reject y := by
  intro r s a _ read
  cases read

/-- Rules in sequence are followed if each of them is. -/
theorem bind (first : Follows lx lx' x y) (second : ∀ a, Follows lx lx' (f a) (g a)) :
    Follows lx lx' (x >>= f) (y >>= g) := by
  intro r s b agrees read
  obtain ⟨a, t, read, later⟩ := Work.bind_eq_ok.mp read
  obtain ⟨read', agrees'⟩ := first agrees read
  rw [Work.bind_of_ok read']
  exact second a agrees' later

/-- A rule whose result is changed is followed by one whose result is changed alike. -/
theorem map (h : Follows lx lx' x y) (k : α → β) :
    Follows lx lx' (do return k (← x)) (do return k (← y)) :=
  h.bind fun a => pure (k a)

/-- Rules that look at the current token first see the same one. -/
theorem current_bind {f g : Token → Parse α} (h : ∀ t, Follows lx lx' (f t) (g t)) :
    Follows lx lx' (current >>= f) (current >>= g) :=
  fun r _ _ agrees read => h r.token agrees read

/-- Rules that look at the kind of the current token first see the same one. -/
theorem kind_bind {f g : Kind → Parse α} (h : ∀ k, Follows lx lx' (f k) (g k)) :
    Follows lx lx' (kind >>= f) (kind >>= g) :=
  fun r _ _ agrees read => h r.token.kind agrees read

/-- Rules that take their bound from the text that is left have the same one. -/
theorem budget_bind {f g : Nat → Parse α} (h : ∀ n, Follows lx lx' (f n) (g n)) :
    Follows lx lx' (budget >>= f) (budget >>= g) :=
  fun r _ _ agrees read => h (r.cursor.rest.length + 2) agrees read

end Follows

/-! ## Single tokens and lists -/

/-- A step to the next token is followed. -/
theorem next_follows : Follows lx lx' (next lx) (next lx') := by
  intro r s u agrees read
  obtain ⟨read', agrees'⟩ := agrees.token (next_ok read)
  refine ⟨?_, agrees'⟩
  rw [next, read']

/-- A token of a given kind is passed by both readers. -/
theorem expect_follows (k : Kind) : Follows lx lx' (expect lx k) (expect lx' k) := by
  refine .current_bind fun t => ?_
  split
  · exact next_follows
  · exact .reject

/-- A name is passed by both readers. -/
theorem ident_follows : Follows lx lx' (ident lx) (ident lx') := by
  refine .current_bind fun t => ?_
  split
  · exact next_follows.bind fun _ => .pure _
  · exact .reject

/-- Any number of announced items are followed if the items are. -/
theorem manyWhile_follows {x y : Parse α} {announced : Kind → Bool} (item : Follows lx lx' x y)
    (n : Nat) : Follows lx lx' (manyWhile announced x n) (manyWhile announced y n) := by
  induction n with
  | zero =>
    intro r s as _ read
    cases read
  | succ n ih =>
    refine .kind_bind fun k => ?_
    split
    · exact item.bind fun a => ih.map (a :: ·)
    · exact .pure []

/-- Items that begin with a token of a given kind are followed if the items are. -/
theorem many_follows {x y : Parse α} (opener : Kind) (item : Follows lx lx' x y) :
    Follows lx lx' (many opener x) (many opener y) :=
  .budget_bind fun n => manyWhile_follows item n

/-- Items with separators are followed if the items are. -/
theorem separated_follows {x y : Parse α} (separator : Kind) (item : Follows lx lx' x y) :
    Follows lx lx' (separated lx separator x) (separated lx' separator y) := by
  refine item.bind fun a => ?_
  have preceded : Follows lx lx' (do expect lx separator; x) (do expect lx' separator; y) :=
    (expect_follows separator).bind fun _ => item
  exact (many_follows separator preceded).map (a :: ·)

/-- Operands with operators between them are followed if the operands are. -/
theorem foldLeft_follows {x y : Parse α} {operator? : Token → Option (Operator × Place)}
    {combine : Operator → Place → α → α → Parse α} (operand : Follows lx lx' x y)
    (combined : ∀ o p a b, Follows lx lx' (combine o p a b) (combine o p a b)) (n : Nat) (left : α) :
    Follows lx lx' (foldLeft lx operator? combine x n left)
      (foldLeft lx' operator? combine y n left) := by
  induction n generalizing left with
  | zero =>
    intro r s a _ read
    cases read
  | succ n ih =>
    refine .current_bind fun t => ?_
    split
    · exact .pure left
    · rename_i o p _
      exact next_follows.bind fun _ => operand.bind fun right =>
        (combined o p left right).bind fun a => ih a

/-- A larger bound changes nothing for a list that was read. -/
theorem manyWhile_mono {x : Parse α} {announced : Kind → Bool} {n m : Nat} (le : n ≤ m)
    {r s : Reading} {as : List α} (h : manyWhile announced x n r = .ok as s) :
    manyWhile announced x m r = .ok as s := by
  induction n generalizing m r s as with
  | zero => cases h
  | succ n ih =>
    obtain ⟨k, rfl⟩ : ∃ k, m = k + 1 := ⟨m - 1, by omega⟩
    rw [manyWhile, Parse.kind_bind] at h ⊢
    split at h
    · rename_i announce
      rw [if_pos announce]
      obtain ⟨a, t, first, h⟩ := Work.bind_eq_ok.mp h
      obtain ⟨rest, u, later, h⟩ := Work.bind_eq_ok.mp h
      rw [Work.bind_of_ok first, Work.bind_of_ok (ih (by omega) later)]
      exact h
    · rename_i last
      rw [if_neg last]
      exact h

/-- A list behind a passage is read with what is left of the bound from before it. -/
theorem manyWhile_within {x : Parse α} {announced : Kind → Bool} {r t s : Reading} {ms : List Mark}
    {as : List α} (passage : Passage lx r ms t) (nonempty : ms ≠ [])
    (h : manyWhile announced x (t.cursor.rest.length + 2) t = .ok as s)
    (ends : announced .endOfText = false) :
    manyWhile announced x (r.cursor.rest.length + 1) t = .ok as s := by
  by_cases last : t.token = .endOfText
  · rw [manyWhile, Parse.kind_bind, last, Token.kind, ends] at h ⊢
    exact h
  · -- each mark takes room, and the token behind them is one more
    have shorter := passage.length_add_room_le
    have longer := List.length_pos_iff.mpr nonempty
    have room : r.room ≤ r.cursor.rest.length + 1 := by
      unfold Reading.room
      split <;> omega
    have room' : t.room = t.cursor.rest.length + 1 := by rw [Reading.room, if_neg last]
    exact manyWhile_mono (by omega) h

end Parse

/-! ## Grammars -/

namespace Grammar

open Parse

/-- The decisions in which a grammar may differ from one that it follows: it may allow any order of
declarations where the other one does not, and parameters, and it may drop the guard behind lists of
statements. -/
structure Widens (g g' : Grammar) : Prop where
  holes : g.holes = false
  holes' : g'.holes = false
  header : g.header = true
  header' : g'.header = true
  calls : g.calls = false
  calls' : g'.calls = false
  signs : g.signs = g'.signs
  interleaved : g.interleaved = true → g'.interleaved = true
  parameters : g.parameters = true → g'.parameters = true
  guardsNames : g'.guardsNames = true → g.guardsNames = true

variable {g g' : Grammar}

/-! ## Expressions and statements -/

/-- Chains are followed if their operands are. -/
theorem chain_follows {operators : List Operator} {x y : Parse Expr}
    (operand : Follows g.lexis g'.lexis x y) :
    Follows g.lexis g'.lexis (g.chain operators x) (g'.chain operators y) :=
  operand.bind fun first => .budget_bind fun n =>
    foldLeft_follows operand (fun _ _ _ _ => .pure _) n first

/-- Factors are followed, at every level of nesting. -/
theorem factorWithin_follows (widens : g.Widens g') (n : Nat) :
    Follows g.lexis g'.lexis (g.factorWithin n) (g'.factorWithin n) := by
  have last : Follows g.lexis g'.lexis g.lastFactor g'.lastFactor := by
    rw [lastFactor, lastFactor, widens.holes, widens.holes']
    exact ident_follows.map Expr.var
  induction n with
  | zero =>
    intro r s e _ read
    cases read
  | succ n ih =>
    refine .current_bind fun t => ?_
    have signed : ∀ sign place,
        Follows g.lexis g'.lexis
          (if g.signs then do
            next g.lexis
            return Expr.signed sign place (← g.factorWithin n)
          else g.lastFactor)
          (if g'.signs then do
            next g'.lexis
            return Expr.signed sign place (← g'.factorWithin n)
          else g'.lastFactor) := by
      intro sign place
      rw [← widens.signs]
      split
      · exact next_follows.bind fun _ => ih.map (Expr.signed sign place)
      · exact last
    split
    · exact next_follows.bind fun _ => .pure _
    · exact next_follows.bind fun _ => (chain_follows (chain_follows ih)).bind fun inner =>
        (expect_follows _).bind fun _ => .pure inner
    · exact signed .plus _
    · exact signed .minus _
    · exact last

/-- Expressions are read alike by the wider grammar. -/
theorem expr_follows (widens : g.Widens g') : Follows g.lexis g'.lexis g.expr g'.expr :=
  .budget_bind fun n => chain_follows (chain_follows (factorWithin_follows widens n))

/-- Assignments are read alike by the wider grammar. -/
theorem assignment_follows (widens : g.Widens g') :
    Follows g.lexis g'.lexis g.assignment g'.assignment := by
  refine ident_follows.bind fun target => .current_bind fun t => ?_
  split
  · exact next_follows.bind fun _ => (expr_follows widens).map _
  · exact .reject

/-- Statements with semicolons between them. What the guard of the one grammar lets pass, a grammar without
it lets pass too. -/
theorem statementsOf_follows (widens : g.Widens g') {x y : Parse Stmt}
    (statement : Follows g.lexis g'.lexis x y) :
    Follows g.lexis g'.lexis (g.statementsOf x) (g'.statementsOf y) := by
  refine (separated_follows _ statement).bind fun statements => .kind_bind fun k => ?_
  intro r s a agrees read
  by_cases guarded : (g.guardsNames && decide (k = .name)) = true
  · rw [if_pos guarded] at read
    cases read
  · have unguarded : ¬(g'.guardsNames && decide (k = .name)) = true := by
      rw [Bool.and_eq_true] at guarded ⊢
      exact fun both => guarded ⟨widens.guardsNames both.1, both.2⟩
    rw [if_neg guarded] at read
    rw [if_neg unguarded]
    exact Follows.pure statements agrees read

/-- Compound statements are followed if their statements are. -/
theorem compoundOf_follows (widens : g.Widens g') {x y : Parse Stmt}
    (statement : Follows g.lexis g'.lexis x y) :
    Follows g.lexis g'.lexis (g.compoundOf x) (g'.compoundOf y) :=
  (expect_follows _).bind fun _ => (statementsOf_follows widens statement).bind fun statements =>
    (expect_follows _).bind fun _ => .pure statements

/-- Statements are followed, at every level of nesting. -/
theorem statementWithin_follows (widens : g.Widens g') (n : Nat) :
    Follows g.lexis g'.lexis (g.statementWithin n) (g'.statementWithin n) := by
  induction n with
  | zero =>
    intro r s statement _ read
    cases read
  | succ n ih =>
    refine .kind_bind fun k => ?_
    split
    · exact (compoundOf_follows widens ih).map Stmt.compound
    · -- neither grammar has calls
      intro r s statement agrees read
      rw [startsCall_bind, if_neg fun starts => by simp [widens.calls] at starts] at read
      rw [startsCall_bind, if_neg fun starts => by simp [widens.calls'] at starts]
      exact assignment_follows widens agrees read
    · exact .pure Stmt.empty

/-- The statements of a block are read alike by the wider grammar. -/
theorem compound_follows (widens : g.Widens g') : Follows g.lexis g'.lexis g.compound g'.compound :=
  .budget_bind fun n => compoundOf_follows widens (statementWithin_follows widens n)

/-! ## Declarations -/

/-- Types are read alike. -/
theorem typeRef_follows : Follows g.lexis g'.lexis g.typeRef g'.typeRef := by
  refine .current_bind fun t => ?_
  split
  · exact next_follows.bind fun _ => .pure _
  · exact next_follows.bind fun _ => .pure _
  · exact .reject

/-- Names that share a type are read alike. -/
theorem bindings_follows : Follows g.lexis g'.lexis g.bindings g'.bindings :=
  (separated_follows _ ident_follows).bind fun _ => (expect_follows _).bind fun _ =>
    typeRef_follows.map _

/-- Sections of variables are read alike. -/
theorem variableSection_follows :
    Follows g.lexis g'.lexis g.variableSection g'.variableSection := by
  have group : Follows g.lexis g'.lexis g.variableDecls g'.variableDecls :=
    bindings_follows.bind fun _ => (expect_follows _).bind fun _ => .pure _
  exact (expect_follows _).bind fun _ => (many_follows _ group).map List.flatten

/-- Variables are read alike, if there are any. -/
theorem vars_follows : Follows g.lexis g'.lexis g.vars g'.vars := by
  refine .kind_bind fun k => ?_
  split
  · exact variableSection_follows
  · exact .pure []

/-- Parameters and the semicolon behind them. A grammar without parameters expects the semicolon at once, and
then no parenthesis stands there for the other one. -/
theorem parameterSection_follows (widens : g.Widens g') :
    Follows g.lexis g'.lexis
      (do let parameters ← g.parameterSection
          expect g.lexis (.punctuation .semicolon)
          return parameters)
      (do let parameters ← g'.parameterSection
          expect g'.lexis (.punctuation .semicolon)
          return parameters) := by
  have list : Follows g.lexis g'.lexis g.parameterList g'.parameterList := by
    refine .kind_bind fun k => ?_
    split
    · exact (separated_follows _ bindings_follows).map List.flatten
    · exact .pure []
  have semicolon : ∀ parameters : List Binding, Follows g.lexis g'.lexis
      (do expect g.lexis (.punctuation .semicolon); return parameters)
      (do expect g'.lexis (.punctuation .semicolon); return parameters) :=
    fun parameters => (expect_follows _).bind fun _ => .pure parameters
  intro r s parameters agrees read
  obtain ⟨ps, t, opened, read⟩ := Work.bind_eq_ok.mp read
  suffices h : g'.parameterSection r = .ok ps t ∧ g.lexis.Agrees g'.lexis t.cursor by
    rw [Work.bind_of_ok h.1]
    exact semicolon ps h.2 read
  rw [parameterSection, Parse.kind_bind] at opened ⊢
  by_cases paren : (g.parameters && decide (r.token.kind = .punctuation .leftParen)) = true
  · have paren' : (g'.parameters && decide (r.token.kind = .punctuation .leftParen)) = true := by
      rw [Bool.and_eq_true] at paren ⊢
      exact ⟨widens.parameters paren.1, paren.2⟩
    rw [if_pos paren] at opened
    rw [if_pos paren']
    exact (next_follows.bind fun _ => list.bind fun ps =>
      (expect_follows _).bind fun _ => Follows.pure ps) agrees opened
  · rw [if_neg paren] at opened
    cases opened
    obtain ⟨_, _, closed, _⟩ := Work.bind_eq_ok.mp read
    obtain ⟨m, mark, passage⟩ := (expect_eq_ok rfl).mp closed
    have other : ¬(g'.parameters && decide (r.token.kind = .punctuation .leftParen)) = true := by
      rw [passage.token_eq, Mark.token, mark, Bool.and_eq_true]
      rintro ⟨-, same⟩
      cases of_decide_eq_true same
    rw [if_neg other]
    exact ⟨rfl, agrees⟩

/-- Procedures are followed if their blocks are. -/
theorem procedureOf_follows (widens : g.Widens g') {x y : Parse Block}
    (block : Follows g.lexis g'.lexis x y) :
    Follows g.lexis g'.lexis (g.procedureOf x) (g'.procedureOf y) := by
  have rest : ∀ (id : Ident) (parameters : List Binding), Follows g.lexis g'.lexis
      (do let inner ← x
          expect g.lexis (.punctuation .semicolon)
          return Decl.procedure id.name parameters inner.declarations inner.body)
      (do let inner ← y
          expect g'.lexis (.punctuation .semicolon)
          return Decl.procedure id.name parameters inner.declarations inner.body) :=
    fun _ _ => block.bind fun _ => (expect_follows _).bind fun _ => .pure _
  have behind := fun id : Ident =>
    (parameterSection_follows widens).bind fun parameters => rest id parameters
  simp only [bind_assoc, pure_bind] at behind
  exact (expect_follows _).bind fun _ => ident_follows.bind behind

/-- Declarations in a fixed order are followed if their blocks are. -/
theorem ordered_follows (widens : g.Widens g') {x y : Parse Block}
    (block : Follows g.lexis g'.lexis x y) :
    Follows g.lexis g'.lexis
      (do return (← g.vars) ++ (← many (.reserved .procedure) (g.procedureOf x)))
      (do return (← g'.vars) ++ (← many (.reserved .procedure) (g'.procedureOf y))) :=
  vars_follows.bind fun _ => (many_follows _ (procedureOf_follows widens block)).map _

/-- Procedures are sections, read one after the other. -/
theorem manyWhile_sectionOf {block : Parse Block} {n : Nat} {r s : Reading} {procedures : List Decl}
    (h : manyWhile (· == .reserved .procedure) (g.procedureOf block) n r = .ok procedures s)
    (last : opensSection s.token.kind = false) :
    manyWhile opensSection (g.sectionOf block) n r = .ok (procedures.map ([·])) s := by
  induction n generalizing r procedures with
  | zero => cases h
  | succ n ih =>
    rw [manyWhile, Parse.kind_bind] at h ⊢
    split at h
    · rename_i opens
      have kind : r.token.kind = .reserved .procedure := beq_iff_eq.mp opens
      obtain ⟨procedure, t, first, h⟩ := Work.bind_eq_ok.mp h
      obtain ⟨rest, u, later, h⟩ := Work.bind_eq_ok.mp h
      cases h
      have single : g.sectionOf block r = .ok [procedure] t := by
        rw [sectionOf, Parse.kind_bind, kind, if_neg (by decide), Work.bind_of_ok first]
        rfl
      rw [if_pos (by rw [kind]; rfl), Work.bind_of_ok single, Work.bind_of_ok (ih later)]
      rfl
    · cases h
      rw [last]
      rfl

/-- Declarations in a fixed order are declarations in any order, if none follows them. -/
theorem declarationsOf_of_ordered (interleaved : g.interleaved = true) {block : Parse Block}
    {r s : Reading} {declarations : List Decl}
    (h : (do return (← g.vars) ++ (← many (.reserved .procedure) (g.procedureOf block)) :
      Parse (List Decl)) r = .ok declarations s)
    (last : opensSection s.token.kind = false) :
    g.declarationsOf block r = .ok declarations s := by
  obtain ⟨vars, t, readVars, h⟩ := Work.bind_eq_ok.mp h
  obtain ⟨procedures, u, readProcedures, h⟩ := Work.bind_eq_ok.mp h
  cases h
  rw [many, Parse.budget_bind] at readProcedures
  have later := manyWhile_sectionOf readProcedures last
  suffices rounds : ∃ sections, sections.flatten = vars ++ procedures ∧
      manyWhile opensSection (g.sectionOf block) (r.cursor.rest.length + 2) r = .ok sections s by
    obtain ⟨sections, flat, rounds⟩ := rounds
    rw [declarationsOf, interleaved, if_pos rfl, Parse.budget_bind, Work.bind_of_ok rounds, flat]
    rfl
  have flat : (procedures.map ([·])).flatten = procedures := by
    rw [← List.flatMap_def, List.flatMap_singleton']
  rw [Grammar.vars, Parse.kind_bind] at readVars
  split at readVars
  · -- the section of variables is the first round
    rename_i kind
    have first : g.sectionOf block r = .ok vars t := by
      rw [sectionOf, Parse.kind_bind, if_pos kind, readVars]
    obtain ⟨ms, passage, _, nonempty⟩ := variableSection_sound readVars
    refine ⟨vars :: procedures.map ([·]), by rw [List.flatten_cons, flat], ?_⟩
    have opens : opensSection r.token.kind = true := by
      rw [kind]
      rfl
    rw [manyWhile, Parse.kind_bind, if_pos opens, Work.bind_of_ok first,
      Work.bind_of_ok (manyWhile_within passage nonempty later rfl)]
    rfl
  · cases readVars
    exact ⟨procedures.map ([·]), flat, later⟩

/-- Declarations that statements follow are read alike by the wider grammar. -/
theorem declarationsOf_follows (widens : g.Widens g') {x y : Parse Block}
    (block : Follows g.lexis g'.lexis x y) {r s : Reading} {declarations : List Decl}
    (agrees : g.lexis.Agrees g'.lexis r.cursor) (read : g.declarationsOf x r = .ok declarations s)
    (last : opensSection s.token.kind = false) :
    g'.declarationsOf y r = .ok declarations s ∧ g.lexis.Agrees g'.lexis s.cursor := by
  cases any : g.interleaved with
  | true =>
    have sections : Follows g.lexis g'.lexis (g.sectionOf x) (g'.sectionOf y) := by
      refine .kind_bind fun k => ?_
      split
      · exact variableSection_follows
      · exact (procedureOf_follows widens block).map ([·])
    have rounds : Follows g.lexis g'.lexis
        (do return (← manyWhile opensSection (g.sectionOf x) (← budget)).flatten)
        (do return (← manyWhile opensSection (g'.sectionOf y) (← budget)).flatten) :=
      .budget_bind fun n => (manyWhile_follows sections n).map List.flatten
    rw [declarationsOf, any] at read
    rw [declarationsOf, widens.interleaved any]
    exact rounds agrees read
  | false =>
    rw [declarationsOf_eq any] at read
    obtain ⟨read', agrees'⟩ := ordered_follows widens block agrees read
    refine ⟨?_, agrees'⟩
    cases any' : g'.interleaved with
    | true => exact declarationsOf_of_ordered any' read' last
    | false => rw [declarationsOf_eq any', read']

/-- Blocks, at every level of nesting. The statements show that no declaration is left. -/
theorem blockWithin_follows (widens : g.Widens g') (n : Nat) :
    Follows g.lexis g'.lexis (g.blockWithin n) (g'.blockWithin n) := by
  induction n with
  | zero =>
    intro r s block _ read
    cases read
  | succ n ih =>
    intro r s block agrees read
    obtain ⟨declarations, t, readDeclarations, read⟩ := Work.bind_eq_ok.mp read
    have last : opensSection t.token.kind = false := by
      obtain ⟨_, _, readBody, _⟩ := Work.bind_eq_ok.mp read
      rw [compound, Parse.budget_bind] at readBody
      obtain ⟨_, _, begins, _⟩ := Work.bind_eq_ok.mp readBody
      obtain ⟨m, mark, passage⟩ := (expect_eq_ok rfl).mp begins
      rw [passage.token_eq, Mark.token, mark]
      rfl
    obtain ⟨readDeclarations', agrees'⟩ := declarationsOf_follows widens ih agrees readDeclarations last
    rw [blockWithin, Work.bind_of_ok readDeclarations']
    exact (compound_follows widens).map _ agrees' read

/-! ## Programs -/

/-- Programs are read alike by the wider grammar. -/
theorem program_follows (widens : g.Widens g') : Follows g.lexis g'.lexis g.program g'.program :=
  (expect_follows _).bind fun _ => ident_follows.bind fun _ => (expect_follows _).bind fun _ =>
    (Follows.budget_bind fun n => blockWithin_follows widens n).bind fun _ =>
      (expect_follows _).bind fun _ => .pure _

/-- A whole text that is read is read alike by the wider grammar. -/
theorem parse_follows (widens : g.Widens g') : Follows g.lexis g'.lexis g.parse g'.parse := by
  have whole : Follows g.lexis g'.lexis g.whole g'.whole := by
    rw [Grammar.whole, Grammar.whole, widens.holes, widens.holes', widens.header, widens.header']
    exact (program_follows widens).map Node.program
  refine whole.bind fun node => ?_
  rw [widens.holes, widens.holes']
  refine .kind_bind fun k => ?_
  split
  · exact .reject
  · exact .pure node

/-- A text that yields a tree yields the same one by a grammar that follows. -/
theorem attempt_of_widens (widens : g.Widens g') {text : String}
    (agrees : g.lexis.Agrees g'.lexis (.start text.toList))
    (same : g'.lexis.emptyText = g.lexis.emptyText) {node : Node} {reading : Reading}
    (h : g.lexis.attempt g.parse text = .done node reading) :
    g'.lexis.attempt g'.parse text = .done node reading := by
  obtain ⟨r, opened, read⟩ := Lexis.attempt_eq_done.mp h
  obtain ⟨opened', agrees'⟩ := agrees.openReading same opened
  exact Lexis.attempt_of_ok opened' (parse_follows widens agrees' read).1

end Grammar

end LittlePascal
