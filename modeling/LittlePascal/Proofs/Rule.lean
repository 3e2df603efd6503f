import LittlePascal.Proofs.Derivation

/-! # Rules and forms

A form says which marks stand for which result; a rule reads. A rule is sound for a form if whatever
it reads has that form, and complete if it reads whatever has that form and is followed by a token at
which it stops. Rules are bounded, so completeness is stated up to a number of marks; a rule that takes
its bound from `Parse.budget` is complete up to any number.

Main statements: the combinators `Parse.manyWhile`, `Parse.separated` and `Parse.foldLeft` carry
soundness and completeness from their items to their lists. -/

namespace LittlePascal

namespace Parse

variable {α β : Type}

/-- Whatever the rule reads has the form. -/
def Sound (lx : Lexis) (rule : Parse α) (Form : List Mark → α → Prop) : Prop :=
  ∀ ⦃r s : Reading⦄ ⦃a : α⦄, rule r = .ok a s → ∃ ms, Passage lx r ms s ∧ Form ms a

/-- Whatever has the form, is shorter than the bound and is followed by a token at which the rule may
stop is read by the rule. -/
def Complete (lx : Lexis) (bound : Nat) (rule : Parse α) (Form : List Mark → α → Prop)
    (Stop : Token → Prop) : Prop :=
  ∀ ⦃r s : Reading⦄ ⦃ms : List Mark⦄ ⦃a : α⦄,
    Passage lx r ms s → ms.length < bound → Form ms a → Stop s.token → rule r = .ok a s

/-! ## Single tokens -/

section Tokens

variable {lx : Lexis} {r s : Reading}

/-- A look at the current token. -/
theorem current_bind {further : Token → Parse β} : (current >>= further) r = further r.token r := rfl

/-- A look at the kind of the current token. -/
theorem kind_bind {further : Kind → Parse β} : (kind >>= further) r = further r.token.kind r := rfl

/-- A look at the budget. -/
theorem budget_bind {further : Nat → Parse β} :
    (budget >>= further) r = further (r.cursor.rest.length + 2) r := rfl

/-- A step past a lexeme. -/
theorem passage_of_next {l : Lexeme} {p : Place} {u : Unit} (token : r.token = .lexeme l p)
    (h : next lx r = .ok u s) : Passage lx r [⟨l, p, r.cursor.char?⟩] s :=
  Passage.single_iff.mpr ⟨token, rfl, h⟩

/-- A passage over one mark is a step. -/
theorem next_of_passage {m : Mark} (h : Passage lx r [m] s) : next lx r = .ok () s :=
  (Passage.single_iff.mp h).2.2

end Tokens

end Parse

/-- A kind with one lexeme is the kind of that lexeme only. -/
theorem Lexeme.kind_eq_iff {k : Kind} {l l' : Lexeme} (only : k.lexeme? = some l) :
    l'.kind = k ↔ l' = l := by
  cases k with
  | operator | reserved | punctuation =>
    cases only
    cases l' with
    | literal v => cases v <;> simp [Lexeme.kind]
    | _ => simp [Lexeme.kind]
  | whole | real | name | endOfText => cases only

/-- A kind with one lexeme is the kind of the tokens of that lexeme only. -/
theorem Token.kind_eq_iff {k : Kind} {l : Lexeme} (only : k.lexeme? = some l) {t : Token} :
    t.kind = k ↔ ∃ p, t = .lexeme l p := by
  cases t with
  | lexeme l' p =>
    rw [Token.kind, Lexeme.kind_eq_iff only]
    simp
  | endOfText =>
    cases k <;> simp_all [Token.kind, Kind.lexeme?]

/-- Only names are of the kind of names. -/
theorem Lexeme.kind_eq_name_iff {l : Lexeme} : l.kind = .name ↔ ∃ s, l = .name s := by
  cases l with
  | literal v => cases v <;> simp [Lexeme.kind]
  | _ => simp [Lexeme.kind]

/-- Only tokens of names are of the kind of names. -/
theorem Token.kind_eq_name_iff {t : Token} : t.kind = .name ↔ ∃ s p, t = .lexeme (.name s) p := by
  cases t with
  | lexeme l p =>
    rw [Token.kind, Lexeme.kind_eq_name_iff]
    simp
  | endOfText => simp [Token.kind]

/-- Only the end of the text is of the kind of the end of the text. -/
theorem Token.kind_eq_endOfText_iff {t : Token} :
    t.kind = .endOfText ↔ t = .endOfText := by
  cases t with
  | endOfText => simp [Token.kind]
  | lexeme l p => rcases l with ⟨⟨⟩⟩ | _ | _ | _ | _ <;> simp [Token.kind, Lexeme.kind]

namespace Parse

section Tokens

variable {lx : Lexis} {r s : Reading}

/-- A token of a kind with one lexeme is passed exactly if that lexeme stands here. -/
theorem expect_eq_ok {k : Kind} {l : Lexeme} (only : k.lexeme? = some l) {u : Unit} :
    expect lx k r = .ok u s ↔ ∃ m, m.lexeme = l ∧ Passage lx r [m] s := by
  rw [expect, current_bind]
  constructor
  · intro h
    split at h
    · rename_i same
      obtain ⟨p, token⟩ := (Token.kind_eq_iff only).mp same
      exact ⟨_, rfl, passage_of_next token h⟩
    · cases h
  · rintro ⟨m, rfl, passage⟩
    have token : r.token = m.token := passage.token_eq
    rw [if_pos ((Token.kind_eq_iff only).mpr ⟨m.place, token⟩)]
    exact next_of_passage passage

/-- A token of a kind with one lexeme is passed if that lexeme stands here. -/
theorem expect_of_passage {k : Kind} {m : Mark} (only : k.lexeme? = some m.lexeme)
    (h : Passage lx r [m] s) : expect lx k r = .ok () s :=
  (expect_eq_ok only).mpr ⟨m, rfl, h⟩

/-- What a rule for a kind with one lexeme reads is that lexeme. -/
theorem expect_sound {k : Kind} {l : Lexeme} (only : k.lexeme? = some l) :
    Sound lx (expect lx k) (fun ms _ => ∃ m, ms = [m] ∧ m.lexeme = l) := by
  intro r s u h
  obtain ⟨m, lexeme, passage⟩ := (expect_eq_ok only).mp h
  exact ⟨[m], passage, m, rfl, lexeme⟩

/-- A name is read exactly if it stands here. -/
theorem ident_sound : Sound lx (ident lx) DerivesIdent := by
  intro r s id h
  rw [ident, current_bind] at h
  cases token : r.token with
  | endOfText =>
    rw [token] at h
    cases h
  | lexeme l p =>
    cases l with
    | name n =>
      rw [token] at h
      obtain ⟨_, t, next, h⟩ := Work.bind_eq_ok.mp h
      cases h
      exact ⟨_, passage_of_next token next, .name rfl⟩
    | literal | operator | reserved | punctuation =>
      rw [token] at h
      cases h

/-- A name that stands here is read, whatever follows. -/
theorem ident_of_passage {m : Mark} {n : String} (name : m.lexeme = .name n)
    (h : Passage lx r [m] s) : ident lx r = .ok ⟨n, m.place⟩ s := by
  have token : r.token = .lexeme (.name n) m.place := by
    rw [h.token_eq, Mark.token, name]
  rw [ident, current_bind, token]
  exact Work.bind_of_ok (next_of_passage h)

/-- Names are read, whatever follows. -/
theorem ident_complete (bound : Nat) (Stop : Token → Prop) :
    Complete lx bound (ident lx) DerivesIdent Stop := by
  rintro r s ms id passage - ⟨name⟩ -
  exact ident_of_passage name passage

end Tokens

/-! ## Any number of items -/

section Many

variable {lx : Lexis} {Item : List Mark → α → Prop} {item : Parse α} {announced : Kind → Bool}

/-- What a list of items reads is a list of items, and no further item is announced behind it. -/
theorem manyWhile_sound (sound : Sound lx item Item) (n : Nat) :
    Sound lx (manyWhile announced item n) (Repeated Item) := by
  induction n with
  | zero =>
    intro r s as h
    cases h
  | succ n ih =>
    intro r s as h
    rw [manyWhile, kind_bind] at h
    split at h
    · obtain ⟨a, t, first, h⟩ := Work.bind_eq_ok.mp h
      obtain ⟨rest, u, more, h⟩ := Work.bind_eq_ok.mp h
      cases h
      obtain ⟨ms, passage, form⟩ := sound first
      obtain ⟨ns, passage', forms⟩ := ih more
      exact ⟨ms ++ ns, passage.append passage', .cons form forms⟩
    · cases h
      exact ⟨[], .nil r, .nil⟩

/-- A list of items is read if each of them is announced by its first token and the token behind the
last one announces none. Each item but the last is followed by a token that announces another. -/
theorem manyWhile_complete {bound : Nat} {Stop : Token → Prop}
    (opens : ∀ {ms a}, Item ms a → ∃ m ns, ms = m :: ns ∧ announced m.lexeme.kind = true)
    (stops : ∀ {t : Token}, announced t.kind = true → Stop t)
    (complete : Complete lx bound item Item Stop) (n : Nat) :
    ∀ {r s : Reading} {ms : List Mark} {as : List α}, Passage lx r ms s → ms.length < bound →
      ms.length < n → Repeated Item ms as → Stop s.token → announced s.token.kind = false →
      manyWhile announced item n r = .ok as s := by
  induction n with
  | zero =>
    intro r s ms as _ _ short
    exact absurd short (Nat.not_lt_zero _)
  | succ n ih =>
    intro r s ms as passage shorter short forms stop last
    rw [manyWhile, kind_bind]
    cases forms with
    | nil =>
      obtain rfl := Passage.nil_iff.mp passage
      rw [last]
      rfl
    | @cons ms ns a as form forms =>
      obtain ⟨t, first, rest⟩ := Passage.append_iff.mp passage
      obtain ⟨m, ms, rfl, announce⟩ := opens form
      rw [List.length_append] at shorter short
      rw [List.length_cons] at short
      -- what follows the first item: another item, or the token behind the list
      have stop' : Stop t.token := by
        cases forms with
        | nil =>
          obtain rfl := Passage.nil_iff.mp rest
          exact stop
        | cons form' _ =>
          obtain ⟨k, ks, rfl, announce'⟩ := opens form'
          apply stops
          rw [rest.token_eq]
          exact announce'
      have head : announced r.token.kind = true := by
        rw [first.token_eq]
        exact announce
      rw [if_pos head, Work.bind_of_ok (complete first (by omega) form stop'),
        Work.bind_of_ok (ih rest (by omega) (by omega) forms stop last)]
      rfl

/-- A list of items that begin with a token of the given kind. -/
theorem many_sound {opener : Kind} (sound : Sound lx item Item) :
    Sound lx (many opener item) (Repeated Item) := by
  intro r s as h
  rw [many, budget_bind] at h
  exact manyWhile_sound sound _ h

/-- A list of items that begin with a token of the given kind is read if none begins behind it. -/
theorem many_complete {bound : Nat} {opener : Kind} {Stop : Token → Prop}
    (opens : ∀ {ms a}, Item ms a → ∃ m ns, ms = m :: ns ∧ m.lexeme.kind = opener)
    (stops : ∀ {t : Token}, t.kind = opener → Stop t)
    (complete : Complete lx bound item Item Stop) :
    Complete lx bound (many opener item) (Repeated Item) (fun t => Stop t ∧ t.kind ≠ opener) := by
  rintro r s ms as passage short forms ⟨stop, last⟩
  rw [many, budget_bind]
  refine manyWhile_complete ?_ ?_ complete _ passage short passage.length_lt_budget forms stop ?_
  · intro ms a form
    obtain ⟨m, ns, same, kind⟩ := opens form
    exact ⟨m, ns, same, beq_iff_eq.mpr kind⟩
  · intro t announce
    exact stops (beq_iff_eq.mp announce)
  · exact beq_eq_false_iff_ne.mpr last

end Many

/-! ## Items with separators -/

section Lists

variable {lx : Lexis} {Item : List Mark → α → Prop} {item : Parse α} {separator : Punctuation}

/-- An item behind a separator. -/
inductive Preceded (separator : Punctuation) (Item : List Mark → α → Prop) :
    List Mark → α → Prop where
  | mk {m : Mark} {ms : List Mark} {a : α} :
      m.lexeme = .punctuation separator → Item ms a → Preceded separator Item (m :: ms) a

/-- A list with separators is an item and then any number of items behind separators. -/
theorem separated_iff {ms : List Mark} {as : List α} :
    Separated separator Item ms as ↔
      ∃ us vs a rest, ms = us ++ vs ∧ as = a :: rest ∧ Item us a ∧
        Repeated (Preceded separator Item) vs rest := by
  constructor
  · intro h
    induction h with
    | @one ms a form => exact ⟨ms, [], a, [], (List.append_nil ms).symm, rfl, form, .nil⟩
    | @more ms ns m a as form mark _ ih =>
      obtain ⟨us, vs, b, rest, rfl, rfl, form', forms⟩ := ih
      exact ⟨ms, m :: (us ++ vs), a, b :: rest, rfl, rfl, form,
        .cons (.mk mark form') forms⟩
  · rintro ⟨us, vs, a, rest, rfl, rfl, form, forms⟩
    induction forms generalizing us a with
    | nil =>
      rw [List.append_nil]
      exact .one form
    | cons form' _ ih =>
      obtain ⟨mark, form'⟩ := form'
      exact .more form mark (ih _ _ form')

/-- What an item behind a separator reads is one. -/
theorem preceded_sound (sound : Sound lx item Item) :
    Sound lx (do expect lx (.punctuation separator); item) (Preceded separator Item) := by
  intro r s a h
  obtain ⟨_, t, mark, h⟩ := Work.bind_eq_ok.mp h
  obtain ⟨m, lexeme, passage⟩ := (expect_eq_ok rfl).mp mark
  obtain ⟨ms, passage', form⟩ := sound h
  exact ⟨m :: ms, passage.step passage', .mk lexeme form⟩

/-- An item behind a separator is read if the item is. -/
theorem preceded_complete {bound : Nat} {Stop : Token → Prop}
    (complete : Complete lx bound item Item Stop) :
    Complete lx bound (do expect lx (.punctuation separator); item) (Preceded separator Item)
      Stop := by
  rintro r s ms a passage short ⟨mark, form⟩ stop
  obtain ⟨t, first, rest⟩ := Passage.step_iff.mp passage
  rw [List.length_cons] at short
  rw [Work.bind_of_ok (expect_of_passage (by rw [mark]; rfl) first)]
  exact complete rest (by omega) form stop

/-- What a list with separators reads is one. -/
theorem separated_sound (sound : Sound lx item Item) :
    Sound lx (separated lx (.punctuation separator) item) (Separated separator Item) := by
  intro r s as h
  obtain ⟨a, t, first, h⟩ := Work.bind_eq_ok.mp h
  obtain ⟨rest, u, more, h⟩ := Work.bind_eq_ok.mp h
  cases h
  obtain ⟨us, passage, form⟩ := sound first
  obtain ⟨vs, passage', forms⟩ := many_sound (preceded_sound sound) more
  exact ⟨us ++ vs, passage.append passage', separated_iff.mpr ⟨us, vs, a, rest, rfl, rfl, form, forms⟩⟩

/-- A list with separators is read if its items are, each of them before a separator or before the
token behind the list, which is no separator. -/
theorem separated_complete {bound : Nat} {Stop : Token → Prop}
    (stops : ∀ {t : Token}, t.kind = .punctuation separator → Stop t)
    (complete : Complete lx bound item Item Stop) :
    Complete lx bound (separated lx (.punctuation separator) item) (Separated separator Item)
      (fun t => Stop t ∧ t.kind ≠ .punctuation separator) := by
  rintro r s ms as passage short forms ⟨stop, last⟩
  obtain ⟨us, vs, a, rest, rfl, rfl, form, forms⟩ := separated_iff.mp forms
  obtain ⟨t, first, more⟩ := Passage.append_iff.mp passage
  rw [List.length_append] at short
  -- the first item stands before a separator, or before what follows the list
  have stop' : Stop t.token := by
    cases forms with
    | nil =>
      obtain rfl := Passage.nil_iff.mp more
      exact stop
    | cons form' _ =>
      obtain ⟨mark, _⟩ := form'
      apply stops
      rw [more.token_eq, Mark.token, mark]
      rfl
  have opens : ∀ {ms a}, Preceded separator Item ms a →
      ∃ m ns, ms = m :: ns ∧ m.lexeme.kind = .punctuation separator := by
    rintro _ a ⟨mark, _⟩
    exact ⟨_, _, rfl, by rw [mark]; rfl⟩
  rw [separated, Work.bind_of_ok (complete first (by omega) form stop'),
    Work.bind_of_ok (many_complete opens stops (preceded_complete complete) more (by omega) forms
      ⟨stop, last⟩)]
  rfl

end Lists

/-! ## Operands with operators between them -/

section Chains

variable {lx : Lexis} {operators : List Operator} {Operand : List Mark → Expr → Prop}
  {operand : Parse Expr}

/-- Operands with operators of a class between them; the operators lean to the left. -/
inductive LeftChain (operators : List Operator) (Operand : List Mark → Expr → Prop) :
    List Mark → Expr → Prop where
  | one {ms : List Mark} {e : Expr} : Operand ms e → LeftChain operators Operand ms e
  | more {m : Mark} {ms ns : List Mark} {o : Operator} {left right : Expr} :
      LeftChain operators Operand ms left → m.lexeme = .operator o → o ∈ operators →
      Operand ns right → LeftChain operators Operand (ms ++ m :: ns) (.binary o m.place left right)

/-- A chain of operands of one form is a chain of operands of a wider one. -/
theorem LeftChain.imp {Operand' : List Mark → Expr → Prop} {ms : List Mark} {e : Expr}
    (h : LeftChain operators Operand ms e) (wider : ∀ {ms e}, Operand ms e → Operand' ms e) :
    LeftChain operators Operand' ms e := by
  induction h with
  | one form => exact .one (wider form)
  | more _ mark member form ih => exact .more ih mark member (wider form)

/-- A chain of marks of a class is a chain of operands with marks of that class. -/
theorem LeftChain.among {Class : Mark → Prop} {ms : List Mark} {e : Expr}
    (h : LeftChain operators Operand ms e) (all : ∀ m ∈ ms, Class m) :
    LeftChain operators (fun ms e => Operand ms e ∧ ∀ m ∈ ms, Class m) ms e := by
  induction h with
  | one form => exact .one ⟨form, all⟩
  | more _ mark member form ih =>
    obtain ⟨before, behind⟩ := List.forall_mem_append.mp all
    exact .more (ih before) mark member ⟨form, (List.forall_mem_cons.mp behind).2⟩

/-- How a chain goes on behind what has been read of it. -/
inductive Continued (operators : List Operator) (Operand : List Mark → Expr → Prop) :
    Expr → List Mark → Expr → Prop where
  | done (e : Expr) : Continued operators Operand e [] e
  | more {m : Mark} {ns ks : List Mark} {o : Operator} {left right e : Expr} :
      m.lexeme = .operator o → o ∈ operators → Operand ns right →
      Continued operators Operand (.binary o m.place left right) ks e →
      Continued operators Operand left (m :: (ns ++ ks)) e

/-- A continued chain can be continued by one more operand. -/
theorem Continued.snoc {m : Mark} {ms ns : List Mark} {o : Operator} {first left right : Expr}
    (chain : Continued operators Operand first ms left) (mark : m.lexeme = .operator o)
    (member : o ∈ operators) (form : Operand ns right) :
    Continued operators Operand first (ms ++ m :: ns) (.binary o m.place left right) := by
  induction chain with
  | done e =>
    have last : Continued operators Operand e (m :: (ns ++ [])) (.binary o m.place e right) :=
      .more mark member form (.done _)
    rwa [List.append_nil] at last
  | more mark' member' form' _ ih =>
    rw [List.cons_append, List.append_assoc]
    exact .more mark' member' form' ih

/-- A chain is its first operand and what continues it. -/
theorem leftChain_iff {ms : List Mark} {e : Expr} :
    LeftChain operators Operand ms e ↔
      ∃ us vs first, ms = us ++ vs ∧ Operand us first ∧ Continued operators Operand first vs e := by
  constructor
  · intro h
    induction h with
    | @one ms e form => exact ⟨ms, [], e, (List.append_nil ms).symm, form, .done e⟩
    | more _ mark member form ih =>
      obtain ⟨us, vs, first, rfl, form', continued⟩ := ih
      exact ⟨us, _, first, List.append_assoc .., form', continued.snoc mark member form⟩
  · rintro ⟨us, vs, first, rfl, form, continued⟩
    have chain : LeftChain operators Operand us first := .one form
    clear form
    -- the chain read so far grows on the left while the continuation shrinks on the right
    induction continued generalizing us with
    | done e => rwa [List.append_nil]
    | @more m ns ks o left right e mark member form _ ih =>
      have longer := ih _ (.more chain mark member form)
      rwa [List.append_assoc, List.cons_append] at longer

/-- The operator of a token, if it is among the given ones. -/
theorem operatorAmong_eq_some {t : Token} {o : Operator} {p : Place} :
    operatorAmong operators t = some (o, p) ↔ t = .lexeme (.operator o) p ∧ o ∈ operators := by
  unfold operatorAmong
  split
  · rename_i o' p'
    constructor
    · intro h
      split at h
      · cases h
        exact ⟨rfl, by assumption⟩
      · cases h
    · rintro ⟨same, member⟩
      cases same
      rw [if_pos member]
  · rename_i other
    constructor
    · intro h
      cases h
    · rintro ⟨rfl, _⟩
      exact absurd rfl (other o p)

/-- A chain ends before a token that is none of its operators. -/
theorem foldLeft_stop {operator? : Token → Option (Operator × Place)}
    {combine : Operator → Place → α → α → Parse α} {rule : Parse α} {n : Nat} {left : α} {r : Reading}
    (h : operator? r.token = none) :
    foldLeft lx operator? combine rule (n + 1) left r = .ok left r := by
  rw [foldLeft, current_bind]
  simp only [h]
  rfl

/-- A chain goes on at one of its operators. -/
theorem foldLeft_step {operator? : Token → Option (Operator × Place)}
    {combine : Operator → Place → α → α → Parse α} {rule : Parse α} {n : Nat} {left : α} {r : Reading}
    {o : Operator} {p : Place} (h : operator? r.token = some (o, p)) :
    foldLeft lx operator? combine rule (n + 1) left r =
      (do
        next lx
        let right ← rule
        foldLeft lx operator? combine rule n (← combine o p left right)) r := by
  rw [foldLeft, current_bind]
  simp only [h]

/-- What is read behind a first operand continues the chain. -/
theorem foldLeft_sound (sound : Sound lx operand Operand) (n : Nat) :
    ∀ {r s : Reading} {left e : Expr},
      foldLeft lx (operatorAmong operators)
        (fun o p l r => return .binary o p l r) operand n left r = .ok e s →
      ∃ ms, Passage lx r ms s ∧ Continued operators Operand left ms e := by
  induction n with
  | zero =>
    intro r s left e h
    cases h
  | succ n ih =>
    intro r s left e h
    cases found : operatorAmong operators r.token with
    | none =>
      rw [foldLeft_stop found] at h
      cases h
      exact ⟨[], .nil r, .done _⟩
    | some op =>
      obtain ⟨o, p⟩ := op
      obtain ⟨token, member⟩ := operatorAmong_eq_some.mp found
      rw [foldLeft_step found] at h
      obtain ⟨_, t, step, h⟩ := Work.bind_eq_ok.mp h
      obtain ⟨right, u, read, h⟩ := Work.bind_eq_ok.mp h
      obtain ⟨ns, passage, form⟩ := sound read
      -- the chain goes on from the two operands combined, so the first operand is generalised
      obtain ⟨ks, passage', continued⟩ := ih h
      exact ⟨_, (passage_of_next token step).step (passage.append passage'),
        .more rfl member form continued⟩

/-- What continues a chain is read if its operands are, each of them before an operator of the chain
or before the token behind it, which is no such operator. -/
theorem foldLeft_complete {bound : Nat} {Stop : Token → Prop}
    (stops : ∀ {t : Token} {o p}, operatorAmong operators t = some (o, p) → Stop t)
    (complete : Complete lx bound operand Operand Stop) (n : Nat) :
    ∀ {r s : Reading} {ms : List Mark} {left e : Expr}, Passage lx r ms s → ms.length < bound →
      ms.length < n → Continued operators Operand left ms e → Stop s.token →
      operatorAmong operators s.token = none →
      foldLeft lx (operatorAmong operators)
        (fun o p l r => return .binary o p l r) operand n left r = .ok e s := by
  induction n with
  | zero =>
    intro r s ms left e _ _ short
    exact absurd short (Nat.not_lt_zero _)
  | succ n ih =>
    intro r s ms left e passage shorter short continued stop last
    cases continued with
    | done =>
      obtain rfl := Passage.nil_iff.mp passage
      exact foldLeft_stop last
    | @more m ns ks o _ right _ mark member form continued =>
      obtain ⟨t, first, rest⟩ := Passage.step_iff.mp passage
      obtain ⟨u, middle, rest⟩ := Passage.append_iff.mp rest
      rw [List.length_cons, List.length_append] at shorter short
      have here : operatorAmong operators r.token = some (o, m.place) := by
        rw [operatorAmong_eq_some, first.token_eq, Mark.token, mark]
        exact ⟨rfl, member⟩
      -- what follows the operand: another operator, or the token behind the chain
      have stop' : Stop u.token := by
        cases continued with
        | done =>
          obtain rfl := Passage.nil_iff.mp rest
          exact stop
        | more mark' member' =>
          apply stops
          rw [rest.token_eq, Mark.token, mark']
          exact operatorAmong_eq_some.mpr ⟨rfl, member'⟩
      rw [foldLeft_step here, Work.bind_of_ok (next_of_passage first),
        Work.bind_of_ok (complete middle (by omega) form stop')]
      exact ih rest (by omega) (by omega) continued stop last

end Chains

end Parse

end LittlePascal
