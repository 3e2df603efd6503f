import LittlePascal.Proofs.Layout

/-! # Where the layout of a text matters

A reading that comes to the beginning of a statement runs the rule for statements there, and what it
does then depends on the character behind the current token. So two texts with the same lexemes come
to the same tree up to places, or are refused at the same token, exactly if at every statement that
begins with a name and a left parenthesis the two characters touch in both texts or in neither.

Main statements:
* `Grammar.Reaches`: the run of a rule goes on as the run of a statement, and then further;
* `Grammar.program_reaches`: it does so wherever an opening of a program leads;
* `Grammar.refusesAt_iff`: where a statement begins with a name and a left parenthesis, the
  parenthesis is refused exactly if it does not touch the name;
* `sameOutcome_iff_touchedAt`: when the layout of a text does not matter. -/

namespace LittlePascal

open Parse

/-! ## Where runs end -/

section Runs

variable {α β γ : Type} {lx : Lexis} {bound : Nat}

/-- The run of a rule ends here: it has its result here, or it refuses the token here. -/
def EndsAt (x : Parse α) (r s : Reading) : Prop :=
  (∃ a, x r = .ok a s) ∨ x r = .error (.unexpected s.token) s

/-- Where fewer lexemes than the bound are ahead, the run of a rule ends with no more of them ahead. -/
def Progressive (lx : Lexis) (bound : Nat) (x : Parse α) : Prop :=
  ∀ ⦃n : Nat⦄ ⦃r : Reading⦄, Ahead lx n r r → n < bound →
    ∃ k s, k ≤ n ∧ Ahead lx k s s ∧ EndsAt x r s

/-- A result needs no step. -/
theorem Progressive.pure (a : α) : Progressive lx bound (Pure.pure a) :=
  fun n r ahead _ => ⟨n, r, Nat.le_refl n, ahead, .inl ⟨a, rfl⟩⟩

/-- Rules in sequence are progressive if each of them is. -/
theorem Progressive.bind {x : Parse α} {f : α → Parse β} (first : Progressive lx bound x)
    (second : ∀ a, Progressive lx bound (f a)) : Progressive lx bound (x >>= f) := by
  intro n r ahead short
  obtain ⟨k, s, le, ahead', ⟨a, read⟩ | refused⟩ := first ahead short
  · obtain ⟨j, t, le', ahead'', ends⟩ := second a ahead' (by omega)
    refine ⟨j, t, by omega, ahead'', ?_⟩
    unfold EndsAt
    rw [Work.bind_of_ok read]
    exact ends
  · exact ⟨k, s, le, ahead', .inr (Work.bind_of_error refused)⟩

/-- A reading does not part from itself. -/
theorem not_partBehind_self {n : Nat} {r : Reading} {Opening : List Mark → Prop}
    (ahead : Ahead lx n r r) : ¬PartBehind lx Opening r r := by
  rintro ⟨us, vs, r', s', _, _, passage, passage', parts⟩
  obtain ⟨k, ahead'⟩ := parts.ahead
  have length := ahead.length_add passage ahead'
  have length' := ahead.length_add passage' ahead'.symm
  -- as many lexemes are ahead of both, so both have passed as many and are the same
  obtain rfl := ahead'.eq_of_length passage passage' (by omega)
  exact parts.apart Iff.rfl

/-- A rule that is parallel to itself makes progress, since a reading does not part from itself. -/
theorem Parallel.progressive {d : Nat} {view : α → γ} {Opening : List Mark → Prop} {x : Parse α}
    (h : Parallel lx bound d view (PartBehind lx Opening) x x) : Progressive lx bound x := by
  intro n r ahead short
  unfold EndsAt
  -- the two runs are one, so only the first of them is looked at
  obtain ⟨second, same, outcome⟩ : ∃ second, second = x r ∧
      Together lx view (PartBehind lx Opening r r) n d r r (x r) second := ⟨_, rfl, h ahead short⟩
  generalize x r = first at same outcome ⊢
  cases outcome with
  | ok _ onward few =>
    cases same
    exact ⟨_, _, by omega, onward.ahead, .inl ⟨_, rfl⟩⟩
  | refused onward few =>
    injection same with _ same
    exact ⟨_, _, few, same ▸ onward.ahead, .inr rfl⟩
  | split parts => exact absurd parts (not_partBehind_self ahead)

/-- Rules that see nothing but tokens make progress. -/
theorem Parallel.progressive_never {d : Nat} {view : α → γ} {x : Parse α}
    (h : Parallel lx bound d view Never x x) : Progressive lx bound x :=
  (h.mono (T := PartBehind lx fun _ => False) (Nat.le_refl _) (Nat.le_refl _)
    False.elim).progressive

/-- A progressive rule is so within a smaller bound. -/
theorem Progressive.mono {x : Parse α} {k : Nat} (h : Progressive lx bound x) (le : k ≤ bound) :
    Progressive lx k x :=
  fun _ _ ahead short => h ahead (Nat.lt_of_lt_of_le short le)

section Lists

variable {view : α → γ} {Opening : List Mark → Prop} {Form : List Mark → α → Prop} {x : Parse α}

/-- Lists whose items are parallel make progress. -/
theorem manyWhile_progressive {announced : Kind → Bool} {k m : Nat}
    (item : Parallel lx bound 1 view (PartBehind lx Opening) x x) (sound : Sound lx x Form)
    (le : k ≤ bound) (enough : k ≤ m) : Progressive lx k (manyWhile announced x m) :=
  -- where the items would part is of no interest here, so any opening will do
  (manyWhile_parallel (T := PartBehind lx fun _ => True) item (PartBehind.mono fun _ => trivial)
    (sound.partBehind sound fun _ _ => trivial) k le enough enough).progressive

/-- They do so within the budget. -/
theorem many_progressive {opener : Kind}
    (item : Parallel lx bound 1 view (PartBehind lx Opening) x x) (sound : Sound lx x Form) :
    Progressive lx bound (many opener x) :=
  (many_parallel (T := PartBehind lx fun _ => True) item (PartBehind.mono fun _ => trivial)
    (sound.partBehind sound fun _ _ => trivial)).progressive

end Lists

end Runs

/-! ## Runs that come to a statement -/

namespace Grammar

section Reaches

variable {α β : Type} {g : Grammar} {r r' t : Reading}

/-- The run of a rule goes on as that of a statement from a later reading, and then with rules that
make progress. -/
def Reaches (g : Grammar) (x : Parse α) (r r' : Reading) : Prop :=
  ∃ n k rest, Ahead g.lexis n r' r' ∧ n < k ∧ x r = (g.statementWithin k >>= rest) r' ∧
    ∀ a, Progressive g.lexis (n + 1) (rest a)

/-- A statement is reached before what follows the rule. -/
theorem Reaches.bind {x : Parse α} {f : α → Parse β} (h : g.Reaches x r r')
    (further : ∀ a {n}, Ahead g.lexis n r' r' → Progressive g.lexis (n + 1) (f a)) :
    g.Reaches (x >>= f) r r' := by
  obtain ⟨n, k, rest, ahead, enough, run, progressive⟩ := h
  -- what follows the rule is added to what follows the statement
  refine ⟨n, k, fun a => rest a >>= f, ahead, enough, ?_, fun a => ?_⟩
  · rw [Work.bind_congr run, bind_assoc]
  · exact (progressive a).bind fun b => further b ahead

/-- A statement is reached by any run that goes on as one that reaches it. -/
theorem Reaches.of_eq {x y : Parse α} (run : x r = y t) (h : g.Reaches y t r') :
    g.Reaches x r r' := by
  unfold Reaches
  rw [run]
  exact h

/-- A statement is reached behind what has been read. -/
theorem Reaches.behind {x : Parse α} {f : α → Parse β} {a : α} (read : x r = .ok a t)
    (h : g.Reaches (f a) t r') : g.Reaches (x >>= f) r r' :=
  h.of_eq (Work.bind_of_ok read)

/-- A statement is reached in the first item of a list. -/
theorem Reaches.first {announced : Kind → Bool} {x : Parse α} {m : Nat}
    (announces : announced r.token.kind = true) (h : g.Reaches x r r')
    (further : ∀ {n}, Ahead g.lexis n r' r' →
      Progressive g.lexis (n + 1) (manyWhile announced x m)) :
    g.Reaches (manyWhile announced x (m + 1)) r r' := by
  refine .of_eq ?_ (h.bind fun a _ ahead => (further ahead).bind fun as => .pure (a :: as))
  rw [manyWhile, kind_bind, announces]
  rfl

/-- A statement is reached in a later item of a list. -/
theorem Reaches.later {announced : Kind → Bool} {x : Parse α} {a : α} {m : Nat}
    (announces : announced r.token.kind = true) (read : x r = .ok a t)
    (h : g.Reaches (manyWhile announced x m) t r') :
    g.Reaches (manyWhile announced x (m + 1)) r r' := by
  have run : manyWhile announced x (m + 1) r =
      (do return (← x) :: (← manyWhile announced x m) : Parse (List α)) r := by
    rw [manyWhile, kind_bind, announces]
    rfl
  exact .of_eq run (.behind read (h.bind fun as _ _ => .pure (a :: as)))

end Reaches

section Statements

variable {g : Grammar}

/-- A compound statement begins with its word. -/
theorem opensCompound_kind {us : List Mark} {r r' : Reading} (opens : OpensCompound g us)
    (passage : Passage g.lexis r us r') : r.token.kind = .reserved .beginBlock := by
  obtain ⟨word, _⟩ := opens
  rw [passage.token_eq, Mark.token, word]
  rfl

/-- A statement behind a semicolon. -/
theorem preceded_parallel (full : g.Full) (k : Nat) :
    Parallel g.lexis k 1 Stmt.unplaced (PartBehind g.lexis fun _ => True)
      (do expect g.lexis (.punctuation .semicolon); g.statementWithin k)
      (do expect g.lexis (.punctuation .semicolon); g.statementWithin k) :=
  (expect_parallel Kind.noConfusion).behind
    (fun _ _ _ => (statementWithin_parallel full k (Nat.le_refl k) (Nat.le_refl k)).mono
      (Nat.sub_le k 1) (Nat.le_refl 0) (PartBehind.mono fun _ => trivial))
    ((expect_sound rfl).partBehind (expect_sound rfl) fun _ _ => trivial)

mutual

/-- A statement reaches the statements that begin in it. -/
theorem opensStmt_reaches (full : g.Full) {us : List Mark} :
    OpensStmt g us → ∀ {n k : Nat} {r r' : Reading}, Passage g.lexis r us r' →
      Ahead g.lexis n r r → n < k → g.Reaches (g.statementWithin k) r r'
  | .here, n, k, r, r', passage, ahead, enough => by
    obtain rfl := Passage.nil_iff.mp passage
    exact ⟨n, k, pure, ahead, enough, by rw [bind_pure], fun a => .pure a⟩
  | .inside opens, n, k, r, r', passage, ahead, enough => by
    obtain ⟨k, rfl⟩ : ∃ j, k = j + 1 := ⟨k - 1, by omega⟩
    have kind := opensCompound_kind opens passage
    have run : g.statementWithin (k + 1) r =
        (do return .compound (← g.compoundOf (g.statementWithin k)) : Parse Stmt) r := by
      simp only [statementWithin, kind_bind, kind]
    exact ((opensCompound_reaches full opens passage ahead (by omega)).bind
      fun a _ _ => .pure _).of_eq run

/-- A compound statement reaches the statements that begin in it. -/
theorem opensCompound_reaches (full : g.Full) {us : List Mark} :
    OpensCompound g us → ∀ {n k : Nat} {r r' : Reading}, Passage g.lexis r us r' →
      Ahead g.lexis n r r → n ≤ k → g.Reaches (g.compoundOf (g.statementWithin k)) r r'
  | .compound word opens, n, k, r, r', passage, ahead, enough => by
    obtain ⟨t, first, rest⟩ := Passage.step_iff.mp passage
    obtain ⟨j, ahead', length⟩ := ahead.rest first
    rw [List.length_singleton] at length
    refine .behind (expect_of_passage (by rw [word]; rfl) first) (.bind ?_ fun a _ _ =>
      ((expect_parallel Kind.noConfusion).progressive_never).bind fun _ => .pure a)
    rw [statementsOf_eq full]
    exact (opensStatements_reaches full opens ahead' (by omega)).1 rest

/-- A list of statements reaches the statements that begin in it, and so does what is left of a list
behind a semicolon. -/
theorem opensStatements_reaches (full : g.Full) {us : List Mark} :
    OpensStatements g us → ∀ {n k : Nat} {r r' : Reading}, Ahead g.lexis n r r → n < k →
      (Passage g.lexis r us r' →
        g.Reaches (separated g.lexis (.punctuation .semicolon) (g.statementWithin k)) r r') ∧
      ∀ {m : Mark} {j : Nat}, m.lexeme = .punctuation .semicolon → Passage g.lexis r (m :: us) r' →
        n < j → g.Reaches (manyWhile (· == .punctuation .semicolon)
          (do expect g.lexis (.punctuation .semicolon); g.statementWithin k) j) r r'
  | .first opens, n, k, r, r', ahead, enough => by
    have item := preceded_parallel full k
    have sound : Sound g.lexis
        (do expect g.lexis (.punctuation .semicolon); g.statementWithin k)
        (Preceded .semicolon (DerivesStmt g)) := preceded_sound (statementWithin_sound full k)
    refine ⟨fun passage => ?_, fun {m j} semicolon passage rounds => ?_⟩
    · refine (opensStmt_reaches full opens passage ahead enough).bind fun a n ahead' => ?_
      have length := ahead.length_add passage ahead'
      exact ((many_progressive item sound).mono (by omega)).bind fun as => .pure (a :: as)
    · -- the semicolon takes a lexeme, so there are rounds left behind the statement
      obtain ⟨j, rfl⟩ : ∃ i, j = i + 1 := ⟨j - 1, by omega⟩
      obtain ⟨t, first, rest⟩ := Passage.step_iff.mp passage
      obtain ⟨i, ahead', length⟩ := ahead.rest first
      rw [List.length_singleton] at length
      refine .first (by rw [first.token_eq, Mark.token, semicolon]; rfl)
        (.behind (expect_of_passage (by rw [semicolon]; rfl) first)
          (opensStmt_reaches full opens rest ahead' (by omega))) fun ahead'' => ?_
      have length' := ahead'.length_add rest ahead''
      exact manyWhile_progressive item sound (by omega) (by omega)
  | @OpensStatements.later _ m' ms ns a form semicolon opens, n, k, r, r', ahead, enough => by
    have complete := statementWithin_complete full k
    -- the statement before is read whole, because a semicolon follows it
    have ends : ∀ {t : Reading}, Passage g.lexis t (m' :: ns) r' → EndsStmt t.token := by
      intro t passage
      rw [passage.token_eq, Mark.token, semicolon]
      exact .inl rfl
    refine ⟨fun passage => ?_, fun {m j} semicolon' passage rounds => ?_⟩
    · obtain ⟨t, first, rest⟩ := Passage.append_iff.mp passage
      obtain ⟨i, ahead', length⟩ := ahead.rest first
      have read := complete first (by omega) form (ends rest)
      refine .behind read (.bind ?_ fun as _ _ => .pure (a :: as))
      exact .of_eq budget_bind ((opensStatements_reaches full opens ahead' (by omega)).2 semicolon
        rest ahead'.lt_budget.1)
    · obtain ⟨j, rfl⟩ : ∃ i, j = i + 1 := ⟨j - 1, by omega⟩
      rw [← List.cons_append] at passage
      obtain ⟨t, first, rest⟩ := Passage.append_iff.mp passage
      obtain ⟨i, ahead', length⟩ := ahead.rest first
      rw [List.length_cons] at length
      have read := preceded_complete complete first (by rw [List.length_cons]; omega)
        (.mk semicolon' form) (ends rest)
      exact .later (by rw [first.token_eq, Mark.token, semicolon']; rfl) read
        ((opensStatements_reaches full opens ahead' (by omega)).2 semicolon rest (by omega))

end

end Statements

section Blocks

variable {g : Grammar}

/-- A procedure begins with its word. -/
theorem opensProcedure_kind {us : List Mark} {r r' : Reading} (opens : OpensProcedure g us)
    (passage : Passage g.lexis r us r') : r.token.kind = .reserved .procedure := by
  obtain ⟨word, _⟩ := opens
  rw [passage.token_eq, Mark.token, word]
  rfl

/-- A list of procedures with a statement in it begins with that word. -/
theorem opensProcedures_kind {us : List Mark} {r r' : Reading} (opens : OpensProcedures g us)
    (passage : Passage g.lexis r us r') : r.token.kind = .reserved .procedure := by
  cases opens with
  | first opens => exact opensProcedure_kind opens passage
  | later form opens =>
    obtain ⟨m, ms, rfl, kind⟩ := derivesProcedure_opens form
    rw [passage.token_eq]
    exact kind

mutual

/-- A procedure reaches the statements that begin in it. -/
theorem opensProcedure_reaches (full : g.Full) {us : List Mark} :
    OpensProcedure g us → ∀ {n k : Nat} {r r' : Reading}, Passage g.lexis r us r' →
      Ahead g.lexis n r r → n ≤ k → g.Reaches (g.procedureOf (g.blockWithin k)) r r'
  | .procedure word name form semicolon opens, n, k, r, r', passage, ahead, enough => by
    obtain ⟨t₁, first, rest₁⟩ := Passage.step_iff.mp passage
    obtain ⟨t₂, second, rest₂⟩ := Passage.step_iff.mp rest₁
    obtain ⟨t₃, third, rest₃⟩ := Passage.append_iff.mp rest₂
    obtain ⟨t₄, fourth, rest₄⟩ := Passage.step_iff.mp rest₃
    obtain ⟨i, ahead', length⟩ := ahead.rest (first.step (second.step (third.append fourth)))
    rw [List.length_cons, List.length_cons] at length
    have stop : t₃.token.kind ≠ .punctuation .leftParen := by
      rw [fourth.token_eq, Mark.token, semicolon]
      exact fun same => by cases same
    exact .behind (expect_of_passage (by rw [word]; rfl) first) <|
      .behind (ident_of_passage name second) <|
      .behind (parameterSection_of_passage full third form stop) <|
      .behind (expect_of_passage (by rw [semicolon]; rfl) fourth) <|
      (opensBlock_reaches full opens rest₄ ahead' (by omega)).bind fun _ _ _ =>
        (expect_parallel Kind.noConfusion).progressive_never.bind fun _ => .pure _

/-- A list of procedures reaches the statements that begin in it. -/
theorem opensProcedures_reaches (full : g.Full) {us : List Mark} :
    OpensProcedures g us → ∀ {n k j : Nat} {r r' : Reading}, Passage g.lexis r us r' →
      Ahead g.lexis n r r → n ≤ k → n < j →
      g.Reaches (manyWhile (· == .reserved .procedure) (g.procedureOf (g.blockWithin k)) j) r r'
  | .first opens, n, k, j, r, r', passage, ahead, enough, rounds => by
    obtain ⟨j, rfl⟩ : ∃ i, j = i + 1 := ⟨j - 1, by omega⟩
    have item := procedureOf_parallel full
      (blockWithin_parallel full k (Nat.le_refl k) (Nat.le_refl k))
    have inside := opensProcedure_reaches full opens passage ahead enough
    refine inside.first (by rw [opensProcedure_kind opens passage]; rfl) fun ahead' => ?_
    have length := ahead.length_add passage ahead'
    have nonempty : 0 < us.length := by
      obtain ⟨word, _⟩ := opens
      exact Nat.succ_pos _
    exact manyWhile_progressive item (procedureOf_sound full (blockWithin_sound full k))
      (by omega) (by omega)
  | .later form opens, n, k, j, r, r', passage, ahead, enough, rounds => by
    obtain ⟨j, rfl⟩ : ∃ i, j = i + 1 := ⟨j - 1, by omega⟩
    obtain ⟨t, first, rest⟩ := Passage.append_iff.mp passage
    obtain ⟨i, ahead', length⟩ := ahead.rest first
    -- the procedure takes a lexeme, and its word announces the one behind it
    obtain ⟨m, ms, rfl, _⟩ := derivesProcedure_opens form
    rw [List.length_cons] at length
    have more := ahead'.pos (opensProcedures_kind opens rest) Kind.noConfusion
    have read := procedureOf_complete full (blockWithin_complete full k) first
      (by rw [List.length_cons]; omega) form trivial
    exact .later (by rw [opensProcedures_kind (.later form opens) passage]; rfl) read
      (opensProcedures_reaches full opens rest ahead' (by omega) (by omega))

/-- A block reaches the statements that begin in it. -/
theorem opensBlock_reaches (full : g.Full) {us : List Mark} :
    OpensBlock g us → ∀ {n k : Nat} {r r' : Reading}, Passage g.lexis r us r' →
      Ahead g.lexis n r r → n < k → g.Reaches (g.blockWithin k) r r'
  | .procedures form opens, n, k, r, r', passage, ahead, enough => by
    obtain ⟨k, rfl⟩ : ∃ j, k = j + 1 := ⟨k - 1, by omega⟩
    obtain ⟨t, first, rest⟩ := Passage.append_iff.mp passage
    obtain ⟨i, ahead', length⟩ := ahead.rest first
    have read := vars_of_passage first form (.inl (opensProcedures_kind opens rest))
    refine .bind ?_ fun declarations n _ => (compound_parallel full).progressive.bind
      fun body => .pure (Block.mk declarations body)
    rw [declarationsOf_eq full.interleaved]
    exact .behind read <| .bind (.of_eq budget_bind (opensProcedures_reaches full opens rest ahead'
      (by omega) ahead'.lt_budget.1)) fun _ _ _ => .pure _
  | .body form forms opens, n, k, r, r', passage, ahead, enough => by
    obtain ⟨k, rfl⟩ : ∃ j, k = j + 1 := ⟨k - 1, by omega⟩
    obtain ⟨t, first, rest⟩ := Passage.append_iff.mp passage
    obtain ⟨u, second, last⟩ := Passage.append_iff.mp rest
    obtain ⟨i, ahead', length⟩ := ahead.rest (first.append second)
    rw [List.length_append] at length
    -- the word that begins the statements leaves a level for the procedures before them
    have begins := opensCompound_kind opens last
    have more := ahead'.pos begins Kind.noConfusion
    have read := declarationsOf_of_passage full (blockWithin_complete full k) first second (by omega)
      form forms begins
    exact .behind read <| .bind (.of_eq budget_bind (opensCompound_reaches full opens last ahead'
      (Nat.le_of_lt ahead'.lt_budget.1))) fun _ _ _ => .pure _

end

end Blocks

/-! ## What happens there -/

section Sites

variable {α : Type} {g : Grammar} {n k : Nat} {r r' t : Reading} {us : List Mark}

/-- A program reaches the statements that begin in it. -/
theorem program_reaches (full : g.Full) (opens : g.Opens us) (passage : Passage g.lexis r us r')
    (ahead : Ahead g.lexis n r r) : g.Reaches g.program r r' := by
  obtain ⟨word, name, semicolon, opens⟩ := opens
  obtain ⟨t₁, first, rest₁⟩ := Passage.step_iff.mp passage
  obtain ⟨t₂, second, rest₂⟩ := Passage.step_iff.mp rest₁
  obtain ⟨t₃, third, rest₃⟩ := Passage.step_iff.mp rest₂
  obtain ⟨i, ahead', _⟩ := ahead.rest (first.step (second.step third))
  exact .behind (expect_of_passage (by rw [word]; rfl) first) <|
    .behind (ident_of_passage name second) <|
    .behind (expect_of_passage (by rw [semicolon]; rfl) third) <|
    .bind (.of_eq budget_bind (opensBlock_reaches full opens rest₃ ahead' ahead'.lt_budget.1))
      fun _ _ _ => (expect_parallel Kind.noConfusion).progressive_never.bind fun _ => .pure _

/-- A name with a parenthesis behind it that does not touch it is taken for the target of an
assignment, and the parenthesis is refused. -/
theorem statementWithin_refuses (site : AtCall g.lexis r t) (apart : r.cursor.char? ≠ some '(')
    (enough : 0 < k) : g.statementWithin k r = .error (.unexpected t.token) t := by
  obtain ⟨k, rfl⟩ : ∃ j, k = j + 1 := ⟨k - 1, by omega⟩
  obtain ⟨x, p, token⟩ := Token.kind_eq_name_iff.mp site.name
  obtain ⟨q, token'⟩ := (Token.kind_eq_iff rfl).mp site.paren
  have target : ident g.lexis r = .ok ⟨x, p⟩ t :=
    ident_of_passage rfl (passage_of_next token site.step)
  simp only [statementWithin, kind_bind, site.name]
  rw [startsCall_bind, if_neg fun starts => apart starts.2, assignment, Work.bind_of_ok target,
    current_bind]
  simp only [token']
  rw [reject, token']

/-- A name that a parenthesis touches is taken for a call, which goes on behind the parenthesis. -/
theorem statementWithin_passes (full : g.Full) (calls : g.calls = true)
    (site : AtCall g.lexis r t) (touches : r.cursor.char? = some '(')
    (ahead : Ahead g.lexis n r r) (enough : 0 < k) :
    ∃ j s, j + 2 ≤ n ∧ Ahead g.lexis j s s ∧ EndsAt (g.statementWithin k) r s := by
  obtain ⟨k, rfl⟩ : ∃ j, k = j + 1 := ⟨k - 1, by omega⟩
  obtain ⟨x, p, token⟩ := Token.kind_eq_name_iff.mp site.name
  obtain ⟨q, token'⟩ := (Token.kind_eq_iff rfl).mp site.paren
  have first := passage_of_next token site.step
  obtain ⟨i, ahead, length⟩ := ahead.rest first
  obtain ⟨i, u, rfl, step', ahead⟩ := ahead.next token'
  rw [List.length_singleton] at length
  have procedure : ident g.lexis r = .ok ⟨x, p⟩ t := ident_of_passage rfl first
  have opened : expect g.lexis (.punctuation .leftParen) t = .ok () u :=
    expect_of_passage rfl (passage_of_next token' step')
  -- both tokens are passed, and what is left of the call makes progress
  have rest : Progressive g.lexis (i + 1)
      (do
        let arguments ← g.arguments
        expect g.lexis (.punctuation .rightParen)
        return Stmt.call ⟨x, p⟩ arguments) :=
    (arguments_parallel full).progressive_never.bind fun _ =>
      (expect_parallel Kind.noConfusion).progressive_never.bind fun _ => .pure _
  obtain ⟨j, s, le, ahead', ends⟩ := rest ahead (Nat.lt_succ_self i)
  refine ⟨j, s, by omega, ahead', ?_⟩
  unfold EndsAt
  simp only [statementWithin, kind_bind, site.name]
  rw [startsCall_bind, if_pos ⟨calls, touches⟩, call, Work.bind_of_ok procedure,
    Work.bind_of_ok opened]
  exact ends

/-- A refusal at the statement that is reached is one of the whole run. -/
theorem Reaches.refuses {x : Parse α} {fault : Fault} (h : g.Reaches x r r')
    (refused : ∀ {k}, 0 < k → g.statementWithin k r' = .error fault t) : x r = .error fault t := by
  obtain ⟨n, k, rest, _, enough, run, _⟩ := h
  rw [run]
  exact Work.bind_of_error (refused (by omega))

/-- A run goes on behind where the statement that is reached ends. -/
theorem Reaches.passes {x : Parse α} {d : Nat} (h : g.Reaches x r r')
    (ahead : Ahead g.lexis n r' r')
    (passed : ∀ {k}, 0 < k → ∃ j s, j + d ≤ n ∧ Ahead g.lexis j s s ∧
      EndsAt (g.statementWithin k) r' s) :
    ∃ j s, j + d ≤ n ∧ Ahead g.lexis j s s ∧ EndsAt x r s := by
  obtain ⟨n', k, rest, ahead', enough, run, progressive⟩ := h
  have same := ahead.length_add (.nil r') ahead'
  obtain ⟨j, s, le, ahead'', ⟨a, read⟩ | refused⟩ := passed (Nat.lt_of_le_of_lt n'.zero_le enough)
  · obtain ⟨i, u, le', ahead₃, ends⟩ := progressive a ahead'' (by simp at same; omega)
    refine ⟨i, u, by omega, ahead₃, ?_⟩
    unfold EndsAt
    rw [run, Work.bind_of_ok read]
    exact ends
  · refine ⟨j, s, le, ahead'', .inr ?_⟩
    rw [run]
    exact Work.bind_of_error refused

end Sites

/-! ## Sites in the marks of a text -/

section Marks

variable {g : Grammar} {ms us : List Mark} {i n : Nat} {r r' s e : Reading}

/-- A statement of a program begins at this mark, with a name and a left parenthesis. -/
def CallAt (g : Grammar) (ms : List Mark) (i : Nat) : Prop :=
  g.Opens (ms.take i) ∧ (∃ x, ms[i]?.map Mark.lexeme = some (.name x)) ∧
    ms[i + 1]?.map Mark.lexeme = some (.punctuation .leftParen)

/-- A left parenthesis stands directly behind this mark. -/
def TouchedAt (ms : List Mark) (i : Nat) : Prop := ms[i]?.bind Mark.behind = some '('

instance (ms : List Mark) (i : Nat) : Decidable (TouchedAt ms i) :=
  inferInstanceAs (Decidable (ms[i]?.bind Mark.behind = some '('))

/-- A reading of the text comes to such a mark. -/
theorem CallAt.exists_reading (site : g.CallAt ms i) (whole : Passage g.lexis r ms e) :
    ∃ r' t, Passage g.lexis r (ms.take i) r' ∧ (ms.take i).length = i ∧ AtCall g.lexis r' t ∧
      (TouchedAt ms i ↔ r'.cursor.char? = some '(') := by
  obtain ⟨_, ⟨x, name⟩, paren⟩ := site
  obtain ⟨m, here, name⟩ := Option.map_eq_some_iff.mp name
  obtain ⟨k, behind, paren⟩ := Option.map_eq_some_iff.mp paren
  obtain ⟨lt, rfl⟩ := List.getElem?_eq_some_iff.mp here
  obtain ⟨lt', rfl⟩ := List.getElem?_eq_some_iff.mp behind
  have cut : ms = ms.take i ++ ms[i] :: ms[i + 1] :: ms.drop (i + 2) := by
    rw [← List.drop_eq_getElem_cons lt', ← List.drop_eq_getElem_cons lt, List.take_append_drop]
  rw [cut] at whole
  obtain ⟨r', before, rest⟩ := Passage.append_iff.mp whole
  obtain ⟨t, first, rest'⟩ := Passage.step_iff.mp rest
  refine ⟨r', t, before, by rw [List.length_take]; omega, ⟨?_, next_of_passage first, ?_⟩, ?_⟩
  · rw [first.token_eq, Mark.token, name]
    rfl
  · rw [rest'.token_eq, Mark.token, paren]
    rfl
  · rw [TouchedAt, here, Option.bind_some, first.behind_eq]

/-- A reading that comes to such a mark behind an opening is one of a statement. -/
theorem callAt_of_atCall {t : Reading} (opens : g.Opens us) (passage : Passage g.lexis r us r')
    (site : AtCall g.lexis r' t) (ahead : Ahead g.lexis n r' s) (whole : Passage g.lexis r ms e)
    (last : e.token = .endOfText) :
    g.CallAt ms us.length ∧ (TouchedAt ms us.length ↔ r'.cursor.char? = some '(') := by
  obtain ⟨x, p, token⟩ := Token.kind_eq_name_iff.mp site.name
  obtain ⟨q, token'⟩ := (Token.kind_eq_iff rfl).mp site.paren
  have first := passage_of_next token site.step
  obtain ⟨k, ahead', _⟩ := ahead.left.rest first
  obtain ⟨j, u, _, step, ahead''⟩ := ahead'.next token'
  obtain ⟨ns, e', rest, last', _⟩ := ahead''.exists_passage
  have same := whole.unique_of_end last
    (passage.append (first.step ((passage_of_next token' step).step rest))) last'
  subst same
  refine ⟨⟨?_, ⟨x, ?_⟩, ?_⟩, ?_⟩
  · rw [List.take_left]
    exact opens
  · simp
  · simp
  · simp [TouchedAt]

end Marks

end Grammar

/-! ## Outcomes of texts -/

/-- A text is refused at the token with this number: so many tokens are passed, and the next one is
unexpected. -/
def Lexis.RefusesAt {α : Type} (lx : Lexis) (rule : Parse α) (text : String) (i : Nat) : Prop :=
  ∃ r us s, lx.openReading text = .ok r ∧ Passage lx r us s ∧ us.length = i ∧
    lx.attempt rule text = .failed (.unexpected s.token) s

namespace Grammar

/-- Two texts have the same outcome: trees that differ in their places only, or the refusal of the
tokens with the same number. -/
def SameOutcome (g : Grammar) (text text' : String) : Prop :=
  (∃ p q s t, g.lexis.attempt g.parse text = .done (.program p) s ∧
    g.lexis.attempt g.parse text' = .done (.program q) t ∧ p.unplaced = q.unplaced) ∨
  ∃ i, g.lexis.RefusesAt g.parse text i ∧ g.lexis.RefusesAt g.parse text' i

section Outcomes

variable {g : Grammar} {text text' : String} {ms ns : List Mark} {i : Nat} {r s e : Reading}

/-- A whole text ends where its program ends. -/
theorem endsAt_parse (full : g.Full) (ends : EndsAt g.program r s) : EndsAt g.parse r s := by
  unfold EndsAt
  rw [parse_eq full]
  rcases ends with ⟨p, read⟩ | refused
  · rw [read]
    dsimp only
    split
    · exact .inl ⟨_, rfl⟩
    · exact .inr rfl
  · rw [refused]
    exact .inr rfl

/-- Where a statement begins with a name and a left parenthesis, the parenthesis is refused exactly if
it does not touch the name. -/
theorem refusesAt_iff (full : g.Full) (calls : g.calls = true)
    (opened : g.lexis.openReading text = .ok r) (whole : Passage g.lexis r ms e)
    (last : e.token = .endOfText) (site : g.CallAt ms i) :
    g.lexis.RefusesAt g.parse text (i + 1) ↔ ¬TouchedAt ms i := by
  obtain ⟨r', t, before, count, atCall, touched⟩ := site.exists_reading whole
  have ahead := Ahead.of_passage whole last
  obtain ⟨n, ahead', total⟩ := ahead.rest before
  have reaches := program_reaches full site.1 before ahead
  rw [touched]
  constructor
  · -- a call is read on behind its parenthesis, so nothing is refused there
    rintro ⟨r₀, us, s, opened', passage, count', refused⟩ touches
    rw [opened] at opened'
    cases opened'
    rw [Lexis.attempt_eq_failed opened] at refused
    obtain ⟨j, s', le, ahead'', ends⟩ := reaches.passes ahead' fun enough =>
      statementWithin_passes full calls atCall touches ahead' enough
    have same : s' = s := by
      rcases endsAt_parse full ends with ⟨a, read⟩ | refused'
      · rw [refused] at read
        cases read
      · rw [refused] at refused'
        injection refused' with _ same
        exact same.symm
    subst same
    have length := ahead.length_add passage ahead''
    omega
  · -- an assignment is expected, and the parenthesis stands where its mark should
    intro apart
    have run := reaches.refuses fun enough => statementWithin_refuses atCall apart enough
    have refused : g.parse r = .error (.unexpected t.token) t := by
      rw [parse_eq full, run]
    obtain ⟨x, p, token⟩ := Token.kind_eq_name_iff.mp atCall.name
    exact ⟨r, _, t, opened, before.append (passage_of_next token atCall.step),
      by rw [List.length_append, count]; rfl, Lexis.attempt_of_error opened refused⟩

/-- A text that can be read to its end is refused at one token only. -/
theorem refusesAt_unique {j : Nat} (reads : g.lexis.Reads text ms)
    (first : g.lexis.RefusesAt g.parse text i) (second : g.lexis.RefusesAt g.parse text j) :
    i = j := by
  obtain ⟨r, e, opened, whole, last⟩ := reads
  obtain ⟨r₁, us, s₁, opened₁, passage₁, rfl, failed₁⟩ := first
  obtain ⟨r₂, vs, s₂, opened₂, passage₂, rfl, failed₂⟩ := second
  rw [opened] at opened₁ opened₂
  cases opened₁
  cases opened₂
  rw [failed₁] at failed₂
  injection failed₂ with _ same
  subst same
  have ahead := Ahead.of_passage whole last
  obtain ⟨k, rest, length⟩ := ahead.rest passage₁
  have length' := ahead.length_add passage₂ rest
  omega

/-- Texts with the same outcome are refused at the same token. -/
theorem SameOutcome.refusesAt (reads' : g.lexis.Reads text' ns) (same : g.SameOutcome text text')
    (refused : g.lexis.RefusesAt g.parse text' i) : g.lexis.RefusesAt g.parse text i := by
  rcases same with ⟨p, q, s, t, _, done, _⟩ | ⟨j, first, second⟩
  · obtain ⟨_, _, _, _, _, _, failed⟩ := refused
    rw [done] at failed
    cases failed
  · rw [refusesAt_unique reads' refused second]
    exact first

/-- Which of the two texts is the first does not matter. -/
theorem SameOutcome.symm (same : g.SameOutcome text text') : g.SameOutcome text' text := by
  rcases same with ⟨p, q, s, t, first, second, trees⟩ | ⟨j, first, second⟩
  · exact .inl ⟨q, p, t, s, second, first, trees.symm⟩
  · exact .inr ⟨j, second, first⟩

/-- Texts with the same outcome agree on whether the parenthesis touches the name, wherever a statement
begins with the two. -/
theorem SameOutcome.touchedAt_iff (full : g.Full) (calls : g.calls = true)
    (reads : g.lexis.Reads text ms) (reads' : g.lexis.Reads text' ns)
    (same : g.SameOutcome text text') (site : g.CallAt ms i) (site' : g.CallAt ns i) :
    TouchedAt ms i ↔ TouchedAt ns i := by
  have first := reads
  have second := reads'
  obtain ⟨r, e, opened, whole, last⟩ := first
  obtain ⟨r', e', opened', whole', last'⟩ := second
  rw [← Decidable.not_iff_not, ← refusesAt_iff full calls opened whole last site,
    ← refusesAt_iff full calls opened' whole' last' site']
  exact ⟨same.symm.refusesAt reads, same.refusesAt reads'⟩

/-- Texts with the same lexemes have the same outcome if they agree on that everywhere. -/
theorem sameOutcome_of_touchedAt (full : g.Full) (reads : g.lexis.Reads text ms)
    (reads' : g.lexis.Reads text' ns) (same : ms.map Mark.lexeme = ns.map Mark.lexeme)
    (alike : ∀ i, g.CallAt ms i → g.CallAt ns i → (TouchedAt ms i ↔ TouchedAt ns i)) :
    g.SameOutcome text text' := by
  obtain ⟨r, e, opened, whole, last⟩ := reads
  obtain ⟨r', e', opened', whole', last'⟩ := reads'
  have ahead := Ahead.of_passages whole last whole' last' same
  -- a refusal of both programs is one of both texts, at the same number
  have refused : ∀ {k s s'}, Onward g.lexis r r' k s s' →
      g.parse r = .error (.unexpected s.token) s → g.parse r' = .error (.unexpected s'.token) s' →
      g.SameOutcome text text' := by
    rintro k s s' ⟨rest, ⟨us, passage⟩, vs, passage'⟩ failed failed'
    have length := ahead.length_add passage rest
    have length' := ahead.symm.length_add passage' rest.symm
    exact .inr ⟨us.length, ⟨r, us, s, opened, passage, rfl, Lexis.attempt_of_error opened failed⟩,
      r', vs, s', opened', passage', by omega, Lexis.attempt_of_error opened' failed'⟩
  have outcome := program_parallel full ahead (Nat.lt_succ_self _)
  generalize read : g.program r = result at outcome
  generalize read' : g.program r' = result' at outcome
  cases outcome with
  | @ok p q k s s' trees onward _ =>
    -- both programs have been read, and something may follow in both texts
    by_cases ends : s.token = .endOfText
    · have ends' : s'.token = .endOfText := by
        rw [← Token.kind_eq_endOfText_iff, ← onward.ahead.kind_eq, ends]
        rfl
      have done : g.parse r = .ok (.program p) s := by rw [parse_eq full, read]; exact if_pos ends
      have done' : g.parse r' = .ok (.program q) s' := by
        rw [parse_eq full, read']
        exact if_pos ends'
      exact .inl ⟨p, q, s, s', Lexis.attempt_of_ok opened done, Lexis.attempt_of_ok opened' done',
        trees⟩
    · have goes : s'.token ≠ .endOfText := by
        rw [ne_eq, ← Token.kind_eq_endOfText_iff, ← onward.ahead.kind_eq,
          Token.kind_eq_endOfText_iff]
        exact ends
      exact refused onward (by rw [parse_eq full, read]; exact if_neg ends)
        (by rw [parse_eq full, read']; exact if_neg goes)
  | refused onward _ =>
    exact refused onward (by rw [parse_eq full, read]) (by rw [parse_eq full, read'])
  | split parts =>
    -- the readings part at a statement, on which the two texts were to agree
    obtain ⟨us, vs, s, s', opens, opens', passage, passage', parts⟩ := parts
    obtain ⟨k, rest⟩ := parts.ahead
    obtain ⟨t, site⟩ := parts.site
    obtain ⟨t', site'⟩ := parts.symm.site
    obtain ⟨call, touched⟩ := callAt_of_atCall opens passage site rest whole last
    obtain ⟨call', touched'⟩ := callAt_of_atCall opens' passage' site' rest.symm whole' last'
    have length := ahead.length_add passage rest
    have length' := ahead.symm.length_add passage' rest.symm
    rw [show vs.length = us.length by omega] at call' touched'
    exact absurd (touched.symm.trans ((alike _ call call').trans touched')) parts.apart

end Outcomes

end Grammar

/-- In the last edition, two texts with the same lexemes have the same outcome exactly if, wherever a
statement begins with a name and a left parenthesis, the two touch in both texts or in neither; and
where they do not touch, the parenthesis is refused. -/
theorem sameOutcome_iff_touchedAt {text text' : String} {ms ns : List Mark}
    (reads : Edition.calls.lexis.Reads text ms) (reads' : Edition.calls.lexis.Reads text' ns)
    (same : ms.map Mark.lexeme = ns.map Mark.lexeme) :
    (Edition.calls.grammar.SameOutcome text text' ↔
      ∀ i, Edition.calls.grammar.CallAt ms i → Edition.calls.grammar.CallAt ns i →
        (Grammar.TouchedAt ms i ↔ Grammar.TouchedAt ns i)) ∧
    ∀ i, Edition.calls.grammar.CallAt ms i →
      (Edition.calls.lexis.RefusesAt Edition.calls.grammar.parse text (i + 1) ↔
        ¬Grammar.TouchedAt ms i) := by
  have full := @Edition.full_calls .off
  refine ⟨⟨fun outcome i site site' => ?_, fun alike => ?_⟩, fun i site => ?_⟩
  · exact outcome.touchedAt_iff full rfl reads reads' site site'
  · exact Grammar.sameOutcome_of_touchedAt full reads reads' same alike
  · obtain ⟨r, e, opened, whole, last⟩ := reads
    exact Grammar.refusesAt_iff full rfl opened whole last site

set_option maxRecDepth 10000 in
/-- Blanks and a comment elsewhere do not matter to a program with a call; a blank before the
parenthesis of the call does, and the parenthesis, the sixth token, is refused. -/
theorem sameOutcome_iff_touchedAt_gap_in_call :
    let tight := "PROGRAM p; BEGIN f(1) END."
    let spaced := "PROGRAM p ;\x7bx\x7d BEGIN f( 1 )END . "
    let gapped := "PROGRAM p; BEGIN f (1) END."
    let lexemes : List Lexeme :=
      [.reserved .program, .name "p", .punctuation .semicolon, .reserved .beginBlock, .name "f",
       .punctuation .leftParen, .literal (.whole 1), .punctuation .rightParen,
       .reserved .endBlock, .punctuation .dot]
    let marked (spots : List (Nat × Option Char)) : List Mark :=
      lexemes.zipWith (fun l spot => ⟨l, ⟨1, spot.1⟩, spot.2⟩) spots
    let marks := marked [(1, ' '), (9, ';'), (10, ' '), (12, ' '), (18, '('), (19, '1'), (20, ')'),
      (21, ' '), (23, '.'), (26, none)]
    let marks₁ := marked [(1, ' '), (9, ' '), (11, '\x7b'), (16, ' '), (22, '('), (23, ' '),
      (25, ' '), (27, 'E'), (28, ' '), (32, ' ')]
    let marks₂ := marked [(1, ' '), (9, ';'), (10, ' '), (12, ' '), (18, ' '), (20, '1'), (21, ')'),
      (22, ' '), (24, '.'), (27, none)]
    Edition.calls.lexis.Reads tight marks ∧ Edition.calls.lexis.Reads spaced marks₁ ∧
      Edition.calls.lexis.Reads gapped marks₂ ∧
      Edition.calls.grammar.SameOutcome tight spaced ∧
      ¬Edition.calls.grammar.SameOutcome tight gapped ∧
      Edition.calls.lexis.RefusesAt Edition.calls.grammar.parse gapped 5 := by
  intro tight spaced gapped lexemes marked marks marks₁ marks₂
  have reads : Edition.calls.lexis.Reads tight marks := by decide
  have reads₁ : Edition.calls.lexis.Reads spaced marks₁ := by decide
  have reads₂ : Edition.calls.lexis.Reads gapped marks₂ := by decide
  have site : Edition.calls.grammar.CallAt marks 4 :=
    ⟨.program rfl rfl rfl (.body .absent .nil (.compound rfl (.first .here))), ⟨"f", rfl⟩, rfl⟩
  have site₂ : Edition.calls.grammar.CallAt marks₂ 4 :=
    ⟨.program rfl rfl rfl (.body .absent .nil (.compound rfl (.first .here))), ⟨"f", rfl⟩, rfl⟩
  have alike : ∀ i, Grammar.TouchedAt marks i ↔ Grammar.TouchedAt marks₁ i := by
    intro i
    by_cases inside : i < 10
    · exact (by decide : ∀ i < 10, Grammar.TouchedAt marks i ↔ Grammar.TouchedAt marks₁ i) i inside
    · have behind : 10 ≤ i := Nat.le_of_not_lt inside
      have last : marks[i]? = none := List.getElem?_eq_none behind
      have last₁ : marks₁[i]? = none := List.getElem?_eq_none behind
      rw [Grammar.TouchedAt, Grammar.TouchedAt, last, last₁]
  refine ⟨reads, reads₁, reads₂, ?_, fun outcome => ?_, ?_⟩
  · exact (sameOutcome_iff_touchedAt reads reads₁ rfl).1.mpr fun i _ _ => alike i
  · have touched := (sameOutcome_iff_touchedAt reads reads₂ rfl).1.mp outcome 4 site site₂
    exact absurd (touched.mp (by decide)) (by decide)
  · exact ((sameOutcome_iff_touchedAt reads₂ reads rfl).2 4 site₂).mpr (by decide)

end LittlePascal
