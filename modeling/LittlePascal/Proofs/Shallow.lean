import LittlePascal.Proofs.Migration
import LittlePascal.Proofs.Succession

/-! # Shallow programs

A program is shallow if its procedures declare no procedures themselves. Of such a program every edition with
declarations reads the same tree, as long as no procedure has parameters where the edition has none. Which tree
that is depends on the lexemes only, up to places.

Main definitions: `DerivesLeaf`, `Grammar.DerivesShallow`, `Mark.Carried`.

Main statements:
* `Edition.accepts_of_shallow`: shallow programs are read;
* `Grammar.DerivesShallow.carried`: other marks with the same lexemes derive the same tree up to places. -/

namespace LittlePascal

/-! ## Derivations -/

/-- A procedure that declares no procedures. Its parameters are left out where the grammar has none. -/
inductive DerivesLeaf (g : Grammar) : List Mark → Decl → Prop where
  | procedure {m n k l : Mark} {ms us vs : List Mark} {s : String} {parameters : List Binding}
      {vars : List Decl} {body : List Stmt} :
      m.lexeme = .reserved .procedure → n.lexeme = .name s → DerivesParameters ms parameters →
      (g.parameters = true ∨ ms = []) → k.lexeme = .punctuation .semicolon → DerivesVariables us vars →
      DerivesStmt g.completed vs (.compound body) → l.lexeme = .punctuation .semicolon →
      DerivesLeaf g (m :: n :: (ms ++ k :: (us ++ (vs ++ [l])))) (.procedure s parameters vars body)

/-- A program whose procedures declare no procedures. -/
inductive Grammar.DerivesShallow (g : Grammar) : List Mark → Program → Prop where
  | program {m n k l : Mark} {us vs ws : List Mark} {s : String} {vars procedures : List Decl}
      {body : List Stmt} :
      m.lexeme = .reserved .program → n.lexeme = .name s → k.lexeme = .punctuation .semicolon →
      DerivesVariables us vars → Repeated (DerivesLeaf g) vs procedures →
      DerivesStmt g.completed ws (.compound body) → l.lexeme = .punctuation .dot →
      g.DerivesShallow (m :: n :: k :: (us ++ (vs ++ (ws ++ [l])))) ⟨s, ⟨vars ++ procedures, body⟩⟩

/-! ## Reading -/

namespace Grammar

open Parse

variable {g : Grammar}

/-- The grammar in which variables stand before procedures. -/
def ordered (g : Grammar) : Grammar := { g with interleaved := false }

/-- A compound statement is read, whatever follows it. -/
theorem Full.compound_of_passage (full : g.completed.Full) {r s : Reading} {ms : List Mark}
    {children : List Stmt} (passage : Passage g.lexis r ms s)
    (form : DerivesStmt g.completed ms (.compound children)) : g.compound r = .ok children s := by
  rw [← compound_completed]
  exact compound_complete full passage form

/-- Statements begin with their word. -/
theorem begins_of_passage {lx : Lexis} {r s : Reading} {ms : List Mark} {children : List Stmt}
    (passage : Passage lx r ms s) (form : DerivesStmt g ms (.compound children)) :
    r.token.kind = .reserved .beginBlock := by
  cases form with
  | compound word _ _ =>
    rw [passage.token_eq, Mark.token, word]
    rfl

/-- Parameters are read if no parenthesis follows them, and where they are left out there is none to read. -/
theorem parameterSection_of_absent (full : g.completed.Full) {r s : Reading} {ms : List Mark}
    {parameters : List Binding} (passage : Passage g.lexis r ms s) (form : DerivesParameters ms parameters)
    (allowed : g.parameters = true ∨ ms = []) (stop : s.token.kind ≠ .punctuation .leftParen) :
    g.parameterSection r = .ok parameters s := by
  rcases allowed with parameters | rfl
  · have same : g.parameterSection = g.completed.parameterSection := by
      funext r
      rw [parameterSection, parameterSection, parameters]
      rfl
    rw [same]
    exact parameterSection_of_passage full passage form stop
  · cases form
    obtain rfl := Passage.nil_iff.mp passage
    rw [parameterSection, kind_bind, decide_eq_false stop, Bool.and_false]
    rfl

/-- A block without procedures is read, whatever follows it. -/
theorem blockWithin_of_passage (full : g.completed.Full) (ordered : g.interleaved = false) (n : Nat)
    {r s t : Reading} {us vs : List Mark} {vars : List Decl} {body : List Stmt}
    (first : Passage g.lexis r us s) (second : Passage g.lexis s vs t) (form : DerivesVariables us vars)
    (form' : DerivesStmt g.completed vs (.compound body)) :
    g.blockWithin (n + 1) r = .ok ⟨vars, body⟩ t := by
  have begins := begins_of_passage second form'
  have none : many (.reserved .procedure) (g.procedureOf (g.blockWithin n)) s = .ok [] s := by
    have other : (s.token.kind == .reserved .procedure) = false := by
      rw [begins]
      rfl
    rw [many, budget_bind, manyWhile, kind_bind, other]
    rfl
  rw [blockWithin, declarationsOf_eq ordered, bind_assoc,
    Work.bind_of_ok (vars_of_passage first form (.inr begins)), bind_assoc, Work.bind_of_ok none, pure_bind,
    Work.bind_of_ok (full.compound_of_passage second form'), List.append_nil]
  rfl

/-- A procedure that declares no procedures is read, whatever follows it. -/
theorem procedureOf_leaf (full : g.completed.Full) (ordered : g.interleaved = false) (n bound : Nat) :
    Complete g.lexis bound (g.procedureOf (g.blockWithin (n + 1))) (DerivesLeaf g) fun _ => True := by
  rintro r s _ _ passage - ⟨reserved, name, form, allowed, semicolon, vars, body, semicolon'⟩ -
  obtain ⟨t, first, rest⟩ := Passage.step_iff.mp passage
  obtain ⟨t₁, second, rest⟩ := Passage.step_iff.mp rest
  obtain ⟨t₂, third, rest⟩ := Passage.append_iff.mp rest
  obtain ⟨t₃, fourth, rest⟩ := Passage.step_iff.mp rest
  obtain ⟨t₄, fifth, rest⟩ := Passage.append_iff.mp rest
  obtain ⟨t₅, sixth, last⟩ := Passage.append_iff.mp rest
  have stop : t₂.token.kind ≠ .punctuation .leftParen := by
    rw [fourth.token_eq, Mark.token, semicolon]
    exact fun same => by cases same
  rw [procedureOf, Work.bind_of_ok (expect_of_passage (by rw [reserved]; rfl) first),
    Work.bind_of_ok (ident_of_passage name second),
    Work.bind_of_ok (parameterSection_of_absent full third form allowed stop),
    Work.bind_of_ok (expect_of_passage (by rw [semicolon]; rfl) fourth),
    Work.bind_of_ok (blockWithin_of_passage full ordered n fifth sixth vars body),
    Work.bind_of_ok (expect_of_passage (by rw [semicolon']; rfl) last)]
  rfl

/-- Such a procedure begins with its word. -/
theorem derivesLeaf_opens {ms : List Mark} {procedure : Decl} (h : DerivesLeaf g ms procedure) :
    ∃ m ns, ms = m :: ns ∧ m.lexeme.kind = .reserved .procedure := by
  obtain ⟨reserved, _⟩ := h
  exact ⟨_, _, rfl, by rw [reserved]; rfl⟩

/-- A block whose procedures declare no procedures is read. -/
theorem block_of_passage (full : g.completed.Full) (ordered : g.interleaved = false)
    {r s : Reading} {us vs ws : List Mark} {vars procedures : List Decl} {body : List Stmt}
    (passage : Passage g.lexis r (us ++ (vs ++ ws)) s) (form : DerivesVariables us vars)
    (forms : Repeated (DerivesLeaf g) vs procedures) (form' : DerivesStmt g.completed ws (.compound body)) :
    g.block r = .ok ⟨vars ++ procedures, body⟩ s := by
  obtain ⟨t, first, rest⟩ := Passage.append_iff.mp passage
  obtain ⟨u, second, last⟩ := Passage.append_iff.mp rest
  have begins := begins_of_passage last form'
  have follows : t.token.kind = .reserved .procedure ∨ t.token.kind = .reserved .beginBlock := by
    cases forms with
    | nil =>
      obtain rfl := Passage.nil_iff.mp second
      exact .inr begins
    | cons form _ =>
      obtain ⟨m, ms, rfl, kind⟩ := derivesLeaf_opens form
      rw [second.token_eq]
      exact .inl kind
  have none : u.token.kind ≠ .reserved .procedure := by
    rw [begins]
    exact fun same => by cases same
  -- one level of nesting is for the block itself and one for those of its procedures
  rw [block, budget_bind, blockWithin, declarationsOf_eq ordered, bind_assoc,
    Work.bind_of_ok (vars_of_passage first form follows), bind_assoc,
    Work.bind_of_ok (many_complete derivesLeaf_opens (fun _ => trivial) (procedureOf_leaf full ordered _ _)
      second (Nat.lt_succ_self _) forms ⟨trivial, none⟩), pure_bind,
    Work.bind_of_ok (full.compound_of_passage last form')]
  rfl

/-- A text that holds a shallow program is read. -/
theorem attempt_of_shallow (full : g.completed.Full) (header : g.header = true) (ordered : g.interleaved = false)
    {text : String} {ms : List Mark} {p : Program} (reads : g.lexis.Reads text ms) (form : g.DerivesShallow ms p) :
    ∃ reading, g.lexis.attempt g.parse text = .done (.program p) reading := by
  obtain ⟨r, s, opened, passage, last⟩ := reads
  obtain @⟨m, n, k, l, us, vs, ws, name, vars, procedures, body, word, named, semicolon, form, forms, form', dot⟩ :=
    form
  rw [← List.append_assoc vs, ← List.append_assoc us] at passage
  have read := program_of_block passage word named semicolon
    (fun inner => block_of_passage full ordered inner form forms form') dot
  have holes : g.holes = false := full.holes
  have whole : g.whole r = .ok (.program ⟨name, ⟨vars ++ procedures, body⟩⟩) s := by
    rw [whole_headed holes header, Work.bind_of_ok read]
    rfl
  exact ⟨s, Lexis.attempt_of_ok opened ((parse_eq_ok_iff holes).mpr ⟨whole, last⟩)⟩

end Grammar

namespace Edition

/-- The editions with declarations differ from the last ones in decisions about declarations only. -/
theorem completed_full {e : Edition} (h : e.hasDeclarations = true) : e.grammar.completed.Full := by
  cases e with
  | calls => exact full_calls
  | declarations | symbols | procedures | checks | scopes | places =>
    exact Grammar.Uncalled.completed_full ⟨rfl, rfl, rfl⟩
  | _ => cases h

/-- Every edition with declarations accepts a shallow program. -/
theorem accepts_of_shallow {e : Edition} (h : e.hasDeclarations = true) {text : String} {ms : List Mark}
    {p : Program} (reads : e.lexis.Reads text ms) (form : e.grammar.ordered.DerivesShallow ms p) :
    ∃ reading, e.Accepts text (.program p) reading := by
  obtain ⟨reading, read⟩ := Grammar.attempt_of_shallow (g := e.grammar.ordered) (completed_full h) h rfl reads form
  cases any : e.interleaved with
  | false =>
    have same : e.grammar.ordered = e.grammar := by
      rw [Grammar.ordered, ← any]
      rfl
    rw [same] at read
    exact ⟨reading, read⟩
  | true =>
    have widens : e.grammar.ordered.Widens e.grammar := by
      cases e <;> first | (cases any; done) | (constructor <;> decide)
    exact ⟨reading, Grammar.attempt_of_widens widens (fun _ _ _ h => h) rfl read⟩

end Edition

/-! ## Other marks with the same lexemes -/

namespace Mark

/-- What is derived from marks is derived from others with the same lexemes as well, as far as `view` tells. -/
def Carried {α β : Type} (view : α → β) (Form Form' : List Mark → α → Prop) : Prop :=
  ∀ ⦃ms ms' : List Mark⦄ ⦃a : α⦄, Form ms a → Respelled .identity ms ms' → ∃ a', Form' ms' a' ∧ view a' = view a

variable {α β : Type} {view : α → β} {Item Item' : List Mark → α → Prop} {separator : Punctuation}

/-- A first mark stands for a first mark with the same lexeme. -/
theorem Respelled.first {m : Mark} {ms ms' : List Mark} (h : Respelled .identity (m :: ms) ms') :
    ∃ m' ns, ms' = m' :: ns ∧ m'.lexeme = m.lexeme ∧ Respelled .identity ms ns := by
  obtain ⟨m', ns, rfl, lexeme, rest⟩ := h.cons
  rw [Lexeme.respelled_identity] at lexeme
  exact ⟨m', ns, rfl, lexeme, rest⟩

/-- A single mark stands for a single one. -/
theorem Respelled.only {m : Mark} {ms' : List Mark} (h : Respelled .identity [m] ms') :
    ∃ m', ms' = [m'] ∧ m'.lexeme = m.lexeme := by
  obtain ⟨m', ns, rfl, lexeme, rest⟩ := h.first
  obtain rfl := rest.nil
  exact ⟨m', rfl, lexeme⟩

/-- Lists with separators are carried item by item. -/
theorem Carried.separated (item : Carried view Item Item') :
    Carried (List.map view) (Separated separator Item) (Separated separator Item') := by
  intro ms ms' as forms same
  induction forms generalizing ms' with
  | one form =>
    obtain ⟨a, form', alike⟩ := item form same
    exact ⟨[a], .one form', by rw [List.map_singleton, List.map_singleton, alike]⟩
  | more form mark _ ih =>
    obtain ⟨us, vs, rfl, before, behind⟩ := same.append
    obtain ⟨m, ns, rfl, lexeme, rest⟩ := behind.first
    obtain ⟨a, form', alike⟩ := item form before
    obtain ⟨as, forms', alike'⟩ := ih rest
    exact ⟨a :: as, .more form' (lexeme.trans mark) forms', by rw [List.map_cons, List.map_cons, alike, alike']⟩

/-- Lists without separators are carried item by item. -/
theorem Carried.repeated (item : Carried view Item Item') :
    Carried (List.map view) (Repeated Item) (Repeated Item') := by
  intro ms ms' as forms same
  induction forms generalizing ms' with
  | nil =>
    obtain rfl := same.nil
    exact ⟨[], .nil, rfl⟩
  | cons form _ ih =>
    obtain ⟨us, vs, rfl, before, behind⟩ := same.append
    obtain ⟨a, form', alike⟩ := item form before
    obtain ⟨as, forms', alike'⟩ := ih behind
    exact ⟨a :: as, .cons form' forms', by rw [List.map_cons, List.map_cons, alike, alike']⟩

end Mark

open Mark

/-- Names are carried. -/
theorem DerivesIdent.carried : Carried Ident.unplaced DerivesIdent DerivesIdent := by
  rintro _ ms' _ ⟨mark⟩ same
  obtain ⟨m', rfl, lexeme⟩ := same.only
  exact ⟨_, .name (lexeme.trans mark), rfl⟩

/-- Types are carried. -/
theorem DerivesType.carried : Carried TypeRef.unplaced DerivesType DerivesType := by
  rintro _ ms' _ ⟨mark⟩ same
  obtain ⟨m', rfl, lexeme⟩ := same.only
  exact ⟨_, .word (lexeme.trans mark), rfl⟩

/-- Names that share a type are carried. -/
theorem DerivesBindings.carried : Carried (List.map Binding.unplaced) DerivesBindings DerivesBindings := by
  rintro _ ms' _ ⟨ids, colon, type⟩ same
  obtain ⟨us, vs, rfl, before, behind⟩ := same.append
  obtain ⟨m, ns, rfl, lexeme, rest⟩ := behind.first
  obtain ⟨ids', forms, alike⟩ := DerivesIdent.carried.separated ids before
  obtain ⟨type', form, alike'⟩ := DerivesType.carried type rest
  refine ⟨_, .group forms (lexeme.trans colon) form, ?_⟩
  have split : ∀ (ids : List Ident) (type : TypeRef), (ids.map fun id => (⟨id, type⟩ : Binding)).map
      Binding.unplaced = (ids.map Ident.unplaced).map fun id => ⟨id, type.unplaced⟩ := by
    intro ids type
    rw [List.map_map, List.map_map]
    rfl
  rw [split, split, alike, alike']

/-- Parameters are carried, and so are those that are left out. -/
theorem DerivesParameters.carried : Carried (List.map Binding.unplaced) DerivesParameters DerivesParameters := by
  intro ms ms' parameters form same
  cases form with
  | absent =>
    obtain rfl := same.nil
    exact ⟨[], .absent, rfl⟩
  | none left right =>
    obtain ⟨m, ns, rfl, lexeme, rest⟩ := same.first
    obtain ⟨n, rfl, lexeme'⟩ := rest.only
    exact ⟨[], .none (lexeme.trans left) (lexeme'.trans right), rfl⟩
  | some left groups right =>
    obtain ⟨m, ns, rfl, lexeme, rest⟩ := same.first
    obtain ⟨us, vs, rfl, inner, last⟩ := rest.append
    obtain ⟨n, rfl, lexeme'⟩ := last.only
    obtain ⟨groups', forms, alike⟩ := DerivesBindings.carried.separated groups inner
    refine ⟨_, .some (lexeme.trans left) forms (lexeme'.trans right), ?_⟩
    rw [List.map_flatten, alike, List.map_flatten]

/-- Variables that share a type are carried. -/
theorem DerivesGroup.carried : Carried (List.map Decl.unplaced) DerivesGroup DerivesGroup := by
  rintro _ ms' _ ⟨bindings, semicolon⟩ same
  obtain ⟨us, vs, rfl, before, last⟩ := same.append
  obtain ⟨m, rfl, lexeme⟩ := last.only
  obtain ⟨bindings', form, alike⟩ := DerivesBindings.carried bindings before
  refine ⟨_, .group form (lexeme.trans semicolon), ?_⟩
  have split : ∀ bindings : List Binding, (bindings.map Decl.var).map Decl.unplaced =
      (bindings.map Binding.unplaced).map Decl.var := by
    intro bindings
    rw [List.map_map, List.map_map]
    rfl
  rw [split, split, alike]

/-- The variables of a block are carried. -/
theorem DerivesVariables.carried : Carried (List.map Decl.unplaced) DerivesVariables DerivesVariables := by
  intro ms ms' vars form same
  cases form with
  | absent =>
    obtain rfl := same.nil
    exact ⟨[], .absent, rfl⟩
  | some word groups =>
    obtain ⟨m, ns, rfl, lexeme, rest⟩ := same.first
    obtain ⟨groups', forms, alike⟩ := DerivesGroup.carried.repeated groups rest
    refine ⟨_, .some (lexeme.trans word) forms, ?_⟩
    rw [List.map_flatten, alike, List.map_flatten]

namespace Stmt

mutual

/-- Where all operators keep their names a statement stays as it is. -/
theorem respelled_identity : ∀ s : Stmt, s.respelled .identity = s
  | .compound children => by rw [respelled, respelledAll_identity children]
  | .assign target place value => by rw [respelled, Expr.respelled_identity]
  | .call procedure arguments => by
    have all : Expr.respelled .identity = id := funext Expr.respelled_identity
    rw [respelled, all, List.map_id]
  | .empty => rfl

/-- Where all operators keep their names statements stay as they are. -/
theorem respelledAll_identity : ∀ statements : List Stmt, respelledAll .identity statements = statements
  | [] => rfl
  | statement :: rest => by rw [respelledAll, respelled_identity statement, respelledAll_identity rest]

end

end Stmt

/-- Statements without calls are carried, from any grammar to any other. -/
theorem DerivesStmt.carried {g g' : Grammar} (noCalls : g.calls = false) :
    Carried Stmt.unplaced (DerivesStmt g) (DerivesStmt g') := by
  intro ms ms' s form same
  obtain ⟨s', form', alike⟩ := @DerivesStmt.respelled _ _ g' noCalls _ _ form _ same
  rw [Stmt.respelled_identity] at alike
  exact ⟨s', form', alike⟩

/-- The children of a compound statement are carried. -/
theorem DerivesStmt.carried_compound {g g' : Grammar} (noCalls : g.calls = false) :
    Carried Stmt.unplacedAll (fun ms body => DerivesStmt g ms (.compound body))
      (fun ms body => DerivesStmt g' ms (.compound body)) := by
  intro ms ms' body form same
  obtain ⟨s', form', alike⟩ := @DerivesStmt.carried g g' noCalls _ _ _ form same
  cases s' with
  | compound body' =>
    rw [Stmt.unplaced, Stmt.unplaced] at alike
    injection alike with alike
    exact ⟨body', form', alike⟩
  | _ => cases alike

section Grammars

variable {g g' : Grammar} (noCalls : g.calls = false) (widened : g.parameters = true → g'.parameters = true)
include noCalls widened

/-- Procedures without procedures of their own are carried. -/
theorem DerivesLeaf.carried : Carried Decl.unplaced (DerivesLeaf g) (DerivesLeaf g') := by
  rintro _ ms' _ ⟨reserved, name, parameters, allowed, semicolon, vars, body, semicolon'⟩ same
  obtain ⟨m, _, rfl, lexeme, rest⟩ := same.first
  obtain ⟨n, _, rfl, lexeme₁, rest⟩ := rest.first
  obtain ⟨ts, _, rfl, first, rest⟩ := rest.append
  obtain ⟨k, _, rfl, lexeme₂, rest⟩ := rest.first
  obtain ⟨us, _, rfl, second, rest⟩ := rest.append
  obtain ⟨vs, _, rfl, third, rest⟩ := rest.append
  obtain ⟨l, rfl, lexeme₃⟩ := rest.only
  obtain ⟨parameters', form, alike⟩ := DerivesParameters.carried parameters first
  obtain ⟨vars', form₁, alike₁⟩ := DerivesVariables.carried vars second
  obtain ⟨body', form₂, alike₂⟩ := @DerivesStmt.carried_compound g.completed g'.completed noCalls _ _ _ body third
  have allowed' : g'.parameters = true ∨ ts = [] := by
    refine allowed.imp widened ?_
    rintro rfl
    exact first.nil
  refine ⟨_, .procedure (lexeme.trans reserved) (lexeme₁.trans name) form allowed' (lexeme₂.trans semicolon) form₁
    form₂ (lexeme₃.trans semicolon'), ?_⟩
  rw [Decl.unplaced, Decl.unplaced, Decl.unplacedAll_eq_map, Decl.unplacedAll_eq_map, alike, alike₁, alike₂]

/-- Shallow programs are carried to grammars that have parameters where this one has them. -/
theorem Grammar.DerivesShallow.carried : Carried Program.unplaced g.DerivesShallow g'.DerivesShallow := by
  rintro _ ms' _ ⟨word, name, semicolon, vars, procedures, body, dot⟩ same
  obtain ⟨m, _, rfl, lexeme, rest⟩ := same.first
  obtain ⟨n, _, rfl, lexeme₁, rest⟩ := rest.first
  obtain ⟨k, _, rfl, lexeme₂, rest⟩ := rest.first
  obtain ⟨us, _, rfl, first, rest⟩ := rest.append
  obtain ⟨vs, _, rfl, second, rest⟩ := rest.append
  obtain ⟨ws, _, rfl, third, rest⟩ := rest.append
  obtain ⟨l, rfl, lexeme₃⟩ := rest.only
  obtain ⟨vars', form, alike⟩ := DerivesVariables.carried vars first
  obtain ⟨procedures', forms, alike₁⟩ := (DerivesLeaf.carried noCalls widened).repeated procedures second
  obtain ⟨body', form', alike₂⟩ := @DerivesStmt.carried_compound g.completed g'.completed noCalls _ _ _ body third
  refine ⟨_, .program (lexeme.trans word) (lexeme₁.trans name) (lexeme₂.trans semicolon) form forms form'
    (lexeme₃.trans dot), ?_⟩
  rw [Program.unplaced, Program.unplaced, Block.unplaced, Block.unplaced, Decl.unplacedAll_eq_map,
    Decl.unplacedAll_eq_map, List.map_append, List.map_append, alike, alike₁, alike₂]

end Grammars

end LittlePascal
