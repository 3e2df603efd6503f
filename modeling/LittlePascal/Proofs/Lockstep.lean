import LittlePascal.Proofs.Rule

/-! # Two readings side by side

Two texts with the same lexemes differ in their places and in their layout. `Ahead` says that two
readings have the same lexemes before them, and `Parallel` that two rules, run on such readings,
come to the same: both have a result, or both refuse the token at the same distance from the end.

A rule may look at the characters of the text and not only at its tokens, so `Parallel` leaves a way
out: a condition on the two readings under which nothing is said of what follows. Rules that see
nothing but tokens are parallel with the condition that never holds.

Main statements:
* `Parallel.bind`: rules in sequence;
* `manyWhile_parallel`, `many_parallel`, `separated_parallel`, `foldLeft_parallel`: loops, whose
  budgets may differ because they come from the lengths of the texts. -/

namespace LittlePascal

/-- The same lexemes are ahead of two readings, so many of them. -/
inductive Ahead (lx : Lexis) : Nat → Reading → Reading → Prop where
  | done {r s : Reading} : r.token = .endOfText → s.token = .endOfText → Ahead lx 0 r s
  | step {n : Nat} {l : Lexeme} {p q : Place} {r s r' s' : Reading} :
      r.token = .lexeme l p → s.token = .lexeme l q → Parse.next lx r = .ok () r' →
      Parse.next lx s = .ok () s' → Ahead lx n r' s' → Ahead lx (n + 1) r s

namespace Ahead

variable {lx : Lexis} {n k : Nat} {r s r' s' : Reading} {ms ns us : List Mark}

/-- Texts with the same lexemes up to their ends are ahead alike. -/
theorem of_passages (first : Passage lx r ms r') (last : r'.token = .endOfText)
    (second : Passage lx s ns s') (last' : s'.token = .endOfText)
    (same : ms.map Mark.lexeme = ns.map Mark.lexeme) : Ahead lx ms.length r s := by
  induction first generalizing s ns with
  | nil r =>
    obtain rfl := List.map_eq_nil_iff.mp same.symm
    obtain rfl := Passage.nil_iff.mp second
    exact .done last last'
  | @cons m ms r _ _ token _ next _ ih =>
    obtain ⟨n, ns, rfl, lexeme, same⟩ := List.map_eq_cons_iff.mp same.symm
    obtain ⟨token', _, t, next', rest'⟩ := Passage.cons_iff.mp second
    rw [Mark.token, lexeme] at token'
    exact .step token token' next next' (ih last rest' same.symm)

/-- Which of the two readings is the first does not matter. -/
theorem symm (h : Ahead lx n r s) : Ahead lx n s r := by
  induction h with
  | done last last' => exact .done last' last
  | step token token' next next' _ ih => exact .step token' token next' next ih

/-- The first reading can be read to its end. -/
theorem exists_passage (h : Ahead lx n r s) :
    ∃ ms e, Passage lx r ms e ∧ e.token = .endOfText ∧ ms.length = n := by
  induction h with
  | done last _ => exact ⟨[], _, .nil _, last, rfl⟩
  | step token _ next _ _ ih =>
    obtain ⟨ms, e, passage, last, length⟩ := ih
    exact ⟨_, e, (Parse.passage_of_next token next).step passage, last, by simp [length]⟩

/-- A text up to its end is ahead of itself. -/
theorem of_passage (h : Passage lx r ms r') (last : r'.token = .endOfText) :
    Ahead lx ms.length r r :=
  of_passages h last h last rfl

/-- What is ahead of the first reading is ahead of it beside itself. -/
theorem left (h : Ahead lx n r s) : Ahead lx n r r := by
  obtain ⟨ms, e, passage, last, rfl⟩ := h.exists_passage
  exact of_passage passage last

/-- The lexemes ahead are those that a passage goes over and those ahead of its end. -/
theorem length_add (h : Ahead lx n r s) (passage : Passage lx r us r') (later : Ahead lx k r' s') :
    us.length + k = n := by
  obtain ⟨ms, e, whole, last, rfl⟩ := h.exists_passage
  obtain ⟨ns, e', rest, last', rfl⟩ := later.exists_passage
  rw [whole.unique_of_end last (passage.append rest) last', List.length_append]

/-- One lexeme less is ahead behind a lexeme. -/
theorem next (h : Ahead lx n r r) {l : Lexeme} {p : Place} (token : r.token = .lexeme l p) :
    ∃ k t, n = k + 1 ∧ Parse.next lx r = .ok () t ∧ Ahead lx k t t := by
  cases h with
  | done last _ =>
    rw [last] at token
    cases token
  | @step k _ _ _ _ _ t _ _ _ step step' rest =>
    rw [step] at step'
    cases step'
    exact ⟨k, t, rfl, step, rest⟩

/-- Behind a passage the rest is ahead. -/
theorem rest (h : Ahead lx n r r) (passage : Passage lx r us r') :
    ∃ k, Ahead lx k r' r' ∧ us.length + k = n := by
  induction passage generalizing n with
  | nil r => exact ⟨n, h, Nat.zero_add n⟩
  | cons token _ step _ ih =>
    obtain ⟨k, t, rfl, step', rest⟩ := h.next token
    rw [step] at step'
    cases step'
    obtain ⟨j, ahead, length⟩ := ih rest
    exact ⟨j, ahead, by rw [List.length_cons]; omega⟩

/-- Two passages over as many marks lead to the same reading. -/
theorem eq_of_length {vs : List Mark} (h : Ahead lx k r' s') (first : Passage lx r us r')
    (second : Passage lx r vs s') (length : us.length = vs.length) : r' = s' := by
  obtain ⟨ms, e, rest, last, _⟩ := h.exists_passage
  obtain ⟨ns, e', rest', last', _⟩ := h.symm.exists_passage
  have same := (first.append rest).unique_of_end last (second.append rest') last'
  obtain ⟨rfl, _⟩ := List.append_inj same length
  exact first.unique second

/-- A budget exceeds the number of lexemes ahead. -/
theorem lt_budget (h : Ahead lx n r s) :
    n < r.cursor.rest.length + 2 ∧ n < s.cursor.rest.length + 2 := by
  obtain ⟨ms, e, passage, _, length⟩ := h.exists_passage
  obtain ⟨ns, e', passage', _, length'⟩ := h.symm.exists_passage
  exact ⟨length ▸ passage.length_lt_budget, length' ▸ passage'.length_lt_budget⟩

/-- The current tokens are of the same kind. -/
theorem kind_eq (h : Ahead lx n r s) : r.token.kind = s.token.kind := by
  cases h with
  | done last last' => rw [last, last']
  | step token token' _ _ _ =>
    rw [token, token']
    rfl

/-- Where a token of some other kind stands, a lexeme is ahead. -/
theorem pos (h : Ahead lx n r s) {kind : Kind} (same : r.token.kind = kind)
    (other : kind ≠ .endOfText) : 0 < n := by
  cases h with
  | done last _ =>
    rw [last] at same
    exact absurd same.symm other
  | step => exact Nat.succ_pos _

end Ahead

/-- Both readings have gone on to where so many lexemes are ahead of them. -/
structure Onward (lx : Lexis) (r s : Reading) (k : Nat) (r' s' : Reading) : Prop where
  ahead : Ahead lx k r' s'
  left : ∃ us, Passage lx r us r'
  right : ∃ vs, Passage lx s vs s'

namespace Onward

variable {lx : Lexis} {j k : Nat} {r s r' s' r'' s'' : Reading}

/-- Without a step both readings are where they were. -/
theorem refl (h : Ahead lx k r s) : Onward lx r s k r s := ⟨h, ⟨[], .nil r⟩, [], .nil s⟩

/-- Steps onward can be joined. -/
theorem trans (first : Onward lx r s j r' s') (second : Onward lx r' s' k r'' s'') :
    Onward lx r s k r'' s'' := by
  obtain ⟨_, ⟨us, passage⟩, vs, passage'⟩ := first
  obtain ⟨ahead, ⟨us', further⟩, vs', further'⟩ := second
  exact ⟨ahead, ⟨_, passage.append further⟩, _, passage'.append further'⟩

/-- A step over the same lexeme leads both readings onward. -/
theorem step {l : Lexeme} {p q : Place} (token : r.token = .lexeme l p)
    (token' : s.token = .lexeme l q) (next : Parse.next lx r = .ok () r')
    (next' : Parse.next lx s = .ok () s') (rest : Ahead lx k r' s') : Onward lx r s k r' s' :=
  ⟨rest, ⟨_, Parse.passage_of_next token next⟩, _, Parse.passage_of_next token' next'⟩

end Onward

/-! ## Outcomes side by side -/

section Outcomes

variable {α β γ δ : Type}

/-- What two runs, begun with `n` lexemes ahead, come to: results with the same view, at least `d`
lexemes further on, or the refusal of tokens with the same lexemes behind them, unless the condition
`Split` holds. -/
inductive Together (lx : Lexis) (view : α → γ) (Split : Prop) (n d : Nat) (r s : Reading) :
    EStateM.Result Fault Reading α → EStateM.Result Fault Reading α → Prop where
  | ok {a b : α} {k : Nat} {r' s' : Reading} : view a = view b → Onward lx r s k r' s' →
      k + d ≤ n → Together lx view Split n d r s (.ok a r') (.ok b s')
  | refused {k : Nat} {r' s' : Reading} : Onward lx r s k r' s' → k ≤ n →
      Together lx view Split n d r s (.error (.unexpected r'.token) r')
        (.error (.unexpected s'.token) s')
  | split {x y : EStateM.Result Fault Reading α} : Split → Together lx view Split n d r s x y

/-- Two rules come to the same wherever the same lexemes are ahead, fewer than the bound. -/
def Parallel (lx : Lexis) (bound d : Nat) (view : α → γ) (Split : Reading → Reading → Prop)
    (x y : Parse α) : Prop :=
  ∀ ⦃n : Nat⦄ ⦃r s : Reading⦄, Ahead lx n r s → n < bound →
    Together lx view (Split r s) n d r s (x r) (y s)

/-- The condition that never holds. -/
def Never (_ _ : Reading) : Prop := False

namespace Together

variable {lx : Lexis} {view : α → γ} {S T : Prop} {n k d d' : Nat} {r s r' s' : Reading}
  {x y : EStateM.Result Fault Reading α}

/-- Fewer steps and a wider condition. -/
theorem mono (h : Together lx view S n d r s x y) (le : d' ≤ d) (wider : S → T) :
    Together lx view T n d' r s x y := by
  cases h with
  | ok same onward few => exact .ok same onward (by omega)
  | refused onward few => exact .refused onward few
  | split condition => exact .split (wider condition)

/-- What follows is seen from before. -/
theorem after (onward : Onward lx r s k r' s') (few : k + d ≤ n)
    (h : Together lx view S k d' r' s' x y) : Together lx view S n (d + d') r s x y := by
  cases h with
  | ok same onward' few' => exact .ok same (onward.trans onward') (by omega)
  | refused onward' few' => exact .refused (onward.trans onward') (by omega)
  | split condition => exact .split condition

end Together

namespace Parallel

variable {lx : Lexis} {bound d d' : Nat} {view : α → γ} {view' : β → δ}
  {S T : Reading → Reading → Prop} {x y : Parse α}

/-- A smaller bound, fewer steps and a wider condition. -/
theorem mono {bound' : Nat} (h : Parallel lx bound d view S x y) (le : bound' ≤ bound)
    (le' : d' ≤ d) (wider : ∀ {r s}, S r s → T r s) : Parallel lx bound' d' view T x y :=
  fun _ _ _ ahead short => (h ahead (Nat.lt_of_lt_of_le short le)).mono le' wider

/-- Nothing is claimed within the bound zero, from which the inductions on bounds start. -/
theorem zero : Parallel lx 0 d view S x y := fun n _ _ _ short => absurd short (Nat.not_lt_zero n)

/-- The lexemes taken may be forgotten. -/
theorem loosen (h : Parallel lx bound d view S x y) : Parallel lx bound 0 view S x y :=
  h.mono (Nat.le_refl _) (Nat.zero_le _) id

/-- A result without a step is parallel to itself. -/
theorem pure {a b : α} (same : view a = view b) :
    Parallel lx bound 0 view S (Pure.pure a) (Pure.pure b) :=
  fun _ _ _ ahead _ => .ok same (.refl ahead) (Nat.le_refl _)

/-- A refusal on both sides is parallel. -/
theorem reject : Parallel lx bound d view S Parse.reject Parse.reject :=
  fun _ _ _ ahead _ => .refused (.refl ahead) (Nat.le_refl _)

/-- Rules in sequence. The condition of the second has to be one of the whole, seen from before the
first. -/
theorem bind {f g : α → Parse β} (first : Parallel lx bound d view S x y)
    (second : ∀ a b, view a = view b → Parallel lx (bound - d) d' view' T (f a) (g b))
    (lift : ∀ ⦃a b r r' s s'⦄, x r = .ok a r' → y s = .ok b s' → T r' s' → S r s) :
    Parallel lx bound (d + d') view' S (x >>= f) (y >>= g) := by
  intro n r s ahead short
  have outcome := first ahead short
  generalize read : x r = result at outcome
  generalize read' : y s = result' at outcome
  cases outcome with
  | @ok a b k r' s' same onward few =>
    -- the second rule begins where the first has ended on both sides
    rw [Work.bind_of_ok read, Work.bind_of_ok read']
    exact ((second a b same onward.ahead (by omega)).mono (Nat.le_refl d') (lift read read')).after
      onward few
  | refused onward few =>
    rw [Work.bind_of_error read, Work.bind_of_error read']
    exact .refused onward few
  | split condition => exact .split condition

/-- Rules in sequence that see nothing but tokens are parallel if each of them is. -/
theorem seq {f g : α → Parse β} (first : Parallel lx bound d view Never x y)
    (second : ∀ a b, view a = view b → Parallel lx (bound - d) d' view' Never (f a) (g b)) :
    Parallel lx bound (d + d') view' Never (x >>= f) (y >>= g) :=
  first.bind second fun _ _ _ _ _ _ _ _ never => never

/-- Rules may stand before rules that see nothing but tokens. -/
theorem before {f g : α → Parse β} (first : Parallel lx bound d view S x y)
    (second : ∀ a b, view a = view b → Parallel lx (bound - d) 0 view' Never (f a) (g b)) :
    Parallel lx bound d view' S (x >>= f) (y >>= g) :=
  first.bind second fun _ _ _ _ _ _ _ _ never => never.elim

/-- Rules may stand behind rules that see nothing but tokens. -/
theorem behind {f g : α → Parse β} (first : Parallel lx bound d view Never x y)
    (second : ∀ a b, view a = view b → Parallel lx (bound - d) 0 view' T (f a) (g b))
    (lift : ∀ ⦃a b r r' s s'⦄, x r = .ok a r' → y s = .ok b s' → T r' s' → S r s) :
    Parallel lx bound d view' S (x >>= f) (y >>= g) :=
  (first.mono (Nat.le_refl _) (Nat.le_refl _) False.elim).bind second lift

/-- What is made of results that are the same in view is the same in view. -/
theorem map {f g : α → β} (h : Parallel lx bound d view S x y)
    (same : ∀ a b, view a = view b → view' (f a) = view' (g b)) :
    Parallel lx bound d view' S (x >>= fun a => Pure.pure (f a)) (y >>= fun b => Pure.pure (g b)) :=
  h.bind (T := Never) (fun a b eq => pure (same a b eq)) fun _ _ _ _ _ _ _ _ never => never.elim

/-- Rules that look at the kind of the current token first see the same one. -/
theorem kind_bind {f g : Kind → Parse β}
    (h : ∀ kind, Parallel lx bound d view' S (f kind) (g kind)) :
    Parallel lx bound d view' S (Parse.kind >>= f) (Parse.kind >>= g) := by
  intro n r s ahead short
  rw [Parse.kind_bind, Parse.kind_bind, ahead.kind_eq]
  exact h _ ahead short

/-- On behind a lexeme, with rules that see nothing but tokens. -/
theorem next_bind {f g : Unit → Parse β} {n e : Nat} {l : Lexeme} {p q : Place}
    {r s r' s' : Reading} (h : Parallel lx bound d view' Never (f ()) (g ()))
    (token : r.token = .lexeme l p) (token' : s.token = .lexeme l q)
    (next : Parse.next lx r = .ok () r') (next' : Parse.next lx s = .ok () s')
    (rest : Ahead lx n r' s') (short : n < bound) (few : e ≤ d + 1) :
    Together lx view' (Never r s) (n + 1) e r s ((Parse.next lx >>= f) r)
      ((Parse.next lx >>= g) s) := by
  rw [Work.bind_of_ok next, Work.bind_of_ok next']
  exact ((h rest short).after (.step token token' next next' rest) (Nat.le_refl _)).mono (by omega) id

end Parallel

end Outcomes

/-! ## Tokens and loops -/

namespace Parse

section Tokens

variable {lx : Lexis} {bound : Nat}

/-- A token of a given kind is passed on both sides. -/
theorem expect_parallel {k : Kind} (lexeme : k ≠ .endOfText) :
    Parallel lx bound 1 (fun u : Unit => u) Never (expect lx k) (expect lx k) := by
  intro n r s ahead short
  rw [expect, current_bind, current_bind, ahead.kind_eq]
  split
  · rename_i same
    cases ahead with
    | done _ last =>
      rw [last] at same
      exact absurd same.symm lexeme
    | step token token' next next' rest =>
      rw [next, next']
      exact .ok rfl (.step token token' next next' rest) (Nat.le_refl _)
  · exact Parallel.reject ahead short

/-- The same name is passed on both sides. -/
theorem ident_parallel : Parallel lx bound 1 Ident.name Never (ident lx) (ident lx) := by
  intro n r s ahead short
  rw [ident, current_bind, current_bind]
  cases ahead with
  | done last last' =>
    rw [last, last']
    exact Parallel.reject (.done last last') short
  | @step n l p q r s r' s' token token' next next' rest =>
    have refused : Together lx Ident.name (Never r s) (n + 1) 1 r s (reject r) (reject s) :=
      Parallel.reject (.step token token' next next' rest) short
    rw [token, token']
    cases l with
    | name name =>
      have named : Parallel lx (n + 1) 0 Ident.name Never (return ⟨name, p⟩) (return ⟨name, q⟩) :=
        .pure rfl
      exact named.next_bind token token' next next' rest (Nat.lt_succ_self n) (Nat.le_refl 1)
    | literal | operator | reserved | punctuation => exact refused

end Tokens

section Loops

variable {α γ : Type} {lx : Lexis} {bound : Nat} {view : α → γ} {S T : Reading → Reading → Prop}
  {x y : Parse α}

/-- Items of a list. The number of rounds is bounded on both sides by more than what is ahead, and
each item takes a lexeme of it. -/
theorem manyWhile_parallel {announced : Kind → Bool} (item : Parallel lx bound 1 view S x y)
    (here : ∀ {r s}, S r s → T r s)
    (later : ∀ ⦃a b r r' s s'⦄, x r = .ok a r' → y s = .ok b s' → T r' s' → T r s) (k : Nat) :
    ∀ {m m' : Nat}, k ≤ bound → k ≤ m → k ≤ m' →
      Parallel lx k 0 (List.map view) T (manyWhile announced x m) (manyWhile announced y m') := by
  induction k with
  | zero =>
    intro m m' _ _ _
    exact .zero
  | succ k ih =>
    intro m m' le more more'
    obtain ⟨m, rfl⟩ : ∃ j, m = j + 1 := ⟨m - 1, by omega⟩
    obtain ⟨m', rfl⟩ : ∃ j, m' = j + 1 := ⟨m' - 1, by omega⟩
    rw [manyWhile, manyWhile]
    refine .kind_bind fun kind => ?_
    split
    · have rest : ∀ a b, view a = view b → Parallel lx k 0 (List.map view) T
          (do return a :: (← manyWhile announced x m)) (do return b :: (← manyWhile announced y m')) :=
        fun a b same => (ih (by omega) (by omega) (by omega)).map fun as bs sames => by
          rw [List.map_cons, List.map_cons, same, sames]
      exact ((item.mono le (Nat.le_refl 1) here).bind rest later).loosen
    · exact .pure rfl

/-- Items of a list are read in parallel if each of them is, within the budget. -/
theorem many_parallel {opener : Kind} (item : Parallel lx bound 1 view S x y)
    (here : ∀ {r s}, S r s → T r s)
    (later : ∀ ⦃a b r r' s s'⦄, x r = .ok a r' → y s = .ok b s' → T r' s' → T r s) :
    Parallel lx bound 0 (List.map view) T (many opener x) (many opener y) := by
  intro n r s ahead short
  rw [many, many, budget_bind, budget_bind]
  obtain ⟨enough, enough'⟩ := ahead.lt_budget
  exact manyWhile_parallel item here later (n + 1) short enough enough' ahead (Nat.lt_succ_self n)

/-- One item and then more behind separators. The condition on the list holds with that on its first
item, or with the condition `R` on what follows it; that one holds with the condition on the item
behind the separator, or again with `R` behind that item. -/
theorem separated_parallel {separator : Kind} {d : Nat} {R : Reading → Reading → Prop}
    (lexeme : separator ≠ .endOfText) (item : Parallel lx bound d view S x y)
    (here : ∀ {r s}, S r s → T r s)
    (later : ∀ ⦃a b r r' s s'⦄, x r = .ok a r' → y s = .ok b s' → R r' s' → T r s)
    (next : ∀ ⦃u v r r' s s'⦄, expect lx separator r = .ok u r' →
      expect lx separator s = .ok v s' → S r' s' → R r s)
    (further : ∀ ⦃a b r r' s s'⦄, (do expect lx separator; x : Parse α) r = .ok a r' →
      (do expect lx separator; y : Parse α) s = .ok b s' → R r' s' → R r s) :
    Parallel lx bound d (List.map view) T (separated lx separator x) (separated lx separator y) := by
  have marked : Parallel lx bound 1 view R (do expect lx separator; x) (do expect lx separator; y) :=
    (((expect_parallel lexeme).mono (Nat.le_refl bound) (Nat.le_refl 1) False.elim).bind
      (fun _ _ _ => item.mono (Nat.sub_le _ _) (Nat.le_refl d) id) next).mono (Nat.le_refl _)
      (Nat.le_add_right 1 d) id
  have rest : ∀ a b, view a = view b → Parallel lx (bound - d) 0 (List.map view) R
      (do return a :: (← many separator do expect lx separator; x))
      (do return b :: (← many separator do expect lx separator; y)) :=
    fun a b same => ((many_parallel marked id further).mono (Nat.sub_le _ _) (Nat.le_refl 0) id).map
      fun as bs sames => by rw [List.map_cons, List.map_cons, same, sames]
  exact (item.mono (Nat.le_refl _) (Nat.le_refl _) here).bind rest later

/-- Items that see nothing but tokens are read in parallel with their separators. -/
theorem separated_parallel_never {separator : Kind} {d : Nat} (lexeme : separator ≠ .endOfText)
    (item : Parallel lx bound d view Never x y) :
    Parallel lx bound d (List.map view) Never (separated lx separator x)
      (separated lx separator y) :=
  separated_parallel (R := Never) lexeme item id (fun _ _ _ _ _ _ _ _ never => never)
    (fun _ _ _ _ _ _ _ _ never => never) fun _ _ _ _ _ _ _ _ never => never

/-- Operands joined by operators are read in parallel if the operands are. -/
theorem foldLeft_parallel {operators : List Operator} {view : Expr → γ} {x y : Parse Expr}
    (combined : ∀ {o p q a b a' b'}, view a = view b → view a' = view b' →
      view (.binary o p a a') = view (.binary o q b b'))
    (operand : Parallel lx bound 0 view Never x y) (k : Nat) :
    ∀ {m m' : Nat} {a b : Expr}, k ≤ bound → k ≤ m → k ≤ m' → view a = view b →
      Parallel lx k 0 view Never
        (foldLeft lx (operatorAmong operators) (fun o p l r => return .binary o p l r) x m a)
        (foldLeft lx (operatorAmong operators) (fun o p l r => return .binary o p l r) y m' b) := by
  induction k with
  | zero =>
    intro m m' a b _ _ _ _
    exact .zero
  | succ k ih =>
    intro m m' a b le more more' same n r s ahead short
    obtain ⟨m, rfl⟩ : ∃ j, m = j + 1 := ⟨m - 1, by omega⟩
    obtain ⟨m', rfl⟩ : ∃ j, m' = j + 1 := ⟨m' - 1, by omega⟩
    cases found : operatorAmong operators r.token with
    | none =>
      -- the operator of a token is one of its lexeme
      have found' : operatorAmong operators s.token = none := by
        cases ahead with
        | done _ last => rw [last]; rfl
        | @step _ l _ _ _ _ _ _ token token' =>
          rw [token] at found
          rw [token']
          cases l with
          | operator o =>
            simp only [operatorAmong] at found ⊢
            split at found
            · cases found
            · rw [if_neg (by assumption)]
          | _ => rfl
      rw [foldLeft_stop found, foldLeft_stop found']
      exact .ok same (.refl ahead) (Nat.le_refl _)
    | some operator =>
      obtain ⟨o, p⟩ := operator
      obtain ⟨token, member⟩ := operatorAmong_eq_some.mp found
      cases ahead with
      | done last _ =>
        rw [last] at token
        cases token
      | @step n l p' q _ _ r' s' first second next next' rest =>
        rw [first] at token
        cases token
        have found' : operatorAmong operators s.token = some (o, q) :=
          operatorAmong_eq_some.mpr ⟨second, member⟩
        have smaller : Parallel lx k 0 view Never x y :=
          operand.mono (by omega) (Nat.le_refl 0) id
        have further : ∀ a' b', view a' = view b' → Parallel lx k 0 view Never
            (foldLeft lx (operatorAmong operators) (fun o p l r => return .binary o p l r) x m
              (.binary o p a a'))
            (foldLeft lx (operatorAmong operators) (fun o p l r => return .binary o p l r) y m'
              (.binary o q b b')) :=
          fun a' b' same' => ih (by omega) (by omega) (by omega) (combined same same')
        rw [foldLeft_step found, foldLeft_step found']
        simp only [pure_bind]
        exact (smaller.seq further).next_bind first second next next' rest (by omega)
          (Nat.zero_le _)

end Loops

end Parse

end LittlePascal
