import LittlePascal.Proofs.Routines
import LittlePascal.Proofs.Tracking

/-! # Descent of routines

What can be said of the routines of a grammar while they are carried out, whatever becomes of the text. Every
token that is eaten is one of the lexemes that are left. Of two openings of the same routine, or two rounds of
the same loop, of which one is nested in the other, the inner one stands behind more eaten tokens. So the nesting
is bounded by the number of lexemes, and where the bound is met the routines are not cut off.

Main definitions:
* `Lexis.count`, `Lexis.left`: how many lexemes are left;
* `Routine.Ordered`, `Routine.Clear`: openings in order, and what may be begun next;
* `Routine.Fares`: what becomes of an act.

Main statements:
* `Routine.Fares.bind`, `Routine.perform_fares`: acts in sequence, and steps;
* `Routine.execute_fares`: whole routines. -/

namespace LittlePascal

/-! ## Lexemes that are left -/

namespace Lexis

variable {lx : Lexis} {c d : Cursor}

/-- The number of lexemes from a cursor on, up to the end of the text or to the first that cannot be read. -/
def count (lx : Lexis) (c : Cursor) : Nat :=
  match read : lx.token c with
  | .ok (.lexeme _ _) d => lx.count d + 1
  | _ => 0
termination_by c.rest.length
decreasing_by exact token_shortens read

/-- A lexeme is one of those that are left. -/
theorem count_of_lexeme {l : Lexeme} {place : Place} (read : lx.token c = .ok (.lexeme l place) d) :
    lx.count c = lx.count d + 1 := by
  rw [count]
  split
  · rename_i read'
    cases read.symm.trans read'
    rfl
  · rename_i other
    exact absurd read (other _ _ _)

/-- At the end of the text none is left. -/
theorem count_of_end (read : lx.token c = .ok .endOfText d) : lx.count c = 0 := by
  rw [count]
  split
  · rename_i read'
    cases read.symm.trans read'
  · rfl

/-- The number of lexemes that are left, the current one included. -/
def left (lx : Lexis) (r : Reading) : Nat :=
  match r.token with
  | .lexeme _ _ => lx.count r.cursor + 1
  | .endOfText => 0

/-- A token that is read is the first of what was left. -/
theorem left_of_token {t : Token} (read : lx.token c = .ok t d) : lx.left ⟨t, d⟩ = lx.count c := by
  cases t with
  | lexeme l place => rw [count_of_lexeme read]; rfl
  | endOfText => rw [count_of_end read]; rfl

/-- Behind a lexeme there is one less. -/
theorem left_next {r s : Reading} {u : Unit} (read : Parse.next lx r = .ok u s)
    (lexeme : r.token.kind ≠ .endOfText) : lx.left r = lx.left s + 1 := by
  have same : lx.left s = lx.count r.cursor := left_of_token (Parse.next_ok read)
  rw [same, left]
  split
  · rfl
  · rename_i token
    rw [token] at lexeme
    exact absurd rfl lexeme

/-- The reader has no bound to run out of. -/
theorem Full.next_ne_exhausted (full : lx.Full) {r s : Reading} : Parse.next lx r ≠ .error .exhausted s := by
  intro failed
  obtain ⟨d, error⟩ := Parse.next_error failed
  obtain ⟨_, other⟩ | ⟨_, _, _, _, _, _, blames⟩ := full.token_error_cases error
  · cases other
  · cases blames

end Lexis

namespace Routine

variable {lx : Lexis} {frames : List Frame} {c d : Course} {n k k' : Nat}

/-! ## Openings in order -/

/-- An opening inside another one: more tokens have been eaten, or the rank is lower. -/
def Frame.Inside (inner outer : Frame) : Prop :=
  outer.since < inner.since ∨ outer.since = inner.since ∧ inner.part.rank < outer.part.rank

/-- Each opening is inside the ones behind it. -/
def Ordered (frames : List Frame) : Prop := frames.Pairwise Frame.Inside

/-- All openings so far have been in order. -/
def Course.Orderly (c : Course) : Prop := ∀ frames ∈ c.openings, Ordered frames

/-- Parts of a rank below the given one may be begun. -/
def Clear (frames : List Frame) (eaten k : Nat) : Prop :=
  ∀ f ∈ frames, f.since < eaten ∨ f.since = eaten ∧ k ≤ f.part.rank

/-- Of two openings of one part in order, the inner one stands behind more eaten tokens. -/
theorem Ordered.since_lt (h : Ordered frames) :
    frames.Pairwise fun inner outer => inner.part = outer.part → outer.since < inner.since := by
  refine h.imp fun {inner outer} inside same => ?_
  rcases inside with more | ⟨_, lower⟩
  · exact more
  · rw [same] at lower
    omega

/-- What may be begun later: everything if a token has been eaten, and what could be begun before. -/
theorem Clear.later (h : Clear frames c.eaten k) (eaten : c.eaten ≤ d.eaten)
    (less : c.eaten < d.eaten ∨ k' ≤ k) : Clear frames d.eaten k' := by
  intro f member
  rcases h f member with before | ⟨same, above⟩ <;> rcases less with more | smaller <;> omega

/-- A part that may be begun is in order, and so are those of lower ranks that it begins. -/
theorem Clear.opening {p : Part} {eaten : Nat} (clear : Clear frames eaten k) (below : p.rank < k)
    (h : Ordered frames) :
    Ordered (⟨p, eaten⟩ :: frames) ∧ Clear (⟨p, eaten⟩ :: frames) eaten p.steps.lead := by
  have lead := p.lead_steps_le
  constructor
  · refine List.pairwise_cons.mpr ⟨fun f member => ?_, h⟩
    rcases clear f member with before | ⟨same, above⟩
    · exact .inl before
    · exact .inr ⟨same, by show p.rank < _; omega⟩
  · refine List.forall_mem_cons.mpr ⟨.inr ⟨rfl, lead⟩, fun f member => ?_⟩
    rcases clear f member with before | ⟨same, above⟩
    · exact .inl before
    · exact .inr ⟨same, by omega⟩

/-! ## What becomes of acts -/

/-- What has been done undisturbed: openings were in order, and every token that was eaten had been left. -/
structure Course.Before (lx : Lexis) (c d : Course) : Prop where
  orderly : d.Orderly
  eaten : c.eaten ≤ d.eaten
  total : d.eaten + lx.left d.reading ≤ c.eaten + lx.left c.reading

/-- What becomes of an act. It may be known that a token is eaten, and that there are levels enough. -/
inductive Fares (lx : Lexis) (mustEat : Bool) (enough : Prop) (c : Course) :
    EStateM.Result Fault Course Unit → Prop where
  | ok {d : Course} : c.Before lx d → (mustEat = true → c.eaten < d.eaten) → Fares lx mustEat enough c (.ok () d)
  | error {fault : Fault} {d : Course} : d.Orderly → d.eaten ≤ c.eaten + lx.left c.reading →
      (enough → fault ≠ .exhausted) → Fares lx mustEat enough c (.error fault d)

variable {act act' : Act} {first second : Bool} {enough enough' : Prop}

/-- Nothing has been done yet. -/
theorem Course.Before.refl (orderly : c.Orderly) : c.Before lx c := ⟨orderly, Nat.le_refl _, Nat.le_refl _⟩

/-- Less is known of what becomes of an act. -/
theorem Fares.mono {outcome : EStateM.Result Fault Course Unit} (h : Fares lx first enough c outcome)
    (eats : second = true → first = true) (more : enough' → enough) : Fares lx second enough' c outcome := by
  cases h with
  | ok before eaten => exact .ok before fun such => eaten (eats such)
  | error orderly bound known => exact .error orderly bound fun such => known (more such)

/-- What openings have been noted before makes no difference. -/
theorem Fares.of_same {outcome : EStateM.Result Fault Course Unit} (h : Fares lx first enough d outcome)
    (reading : d.reading = c.reading) (eaten : d.eaten = c.eaten) : Fares lx first enough c outcome := by
  cases h with
  | ok before eats =>
    obtain ⟨orderly, more, total⟩ := before
    rw [reading, eaten] at total
    rw [eaten] at more eats
    exact .ok ⟨orderly, more, total⟩ eats
  | error orderly bound known =>
    rw [reading, eaten] at bound
    exact .error orderly bound known

/-- Acts in sequence fare well if each of them does. -/
theorem Fares.bind (h : Fares lx first enough c (act c))
    (further : ∀ d, c.Before lx d → (first = true → c.eaten < d.eaten) → Fares lx second enough d (act' d)) :
    Fares lx (first || second) enough c ((do act; act') c) := by
  cases outcome : act c with
  | error fault d =>
    rw [Work.bind_of_error outcome]
    rw [outcome] at h
    cases h with
    | error orderly bound known => exact .error orderly bound known
  | ok u d =>
    rw [Work.bind_of_ok outcome]
    rw [outcome] at h
    cases h with
    | ok before eats =>
      have later := further d before eats
      have within := before.eaten
      have total := before.total
      cases end' : act' d with
      | error fault e =>
        rw [end'] at later
        cases later with
        | error orderly bound known => exact .error orderly (by omega) known
      | ok u e =>
        rw [end'] at later
        cases later with
        | ok before' eats' =>
          have within' := before'.eaten
          have total' := before'.total
          refine .ok ⟨before'.orderly, by omega, by omega⟩ fun such => ?_
          rcases Bool.or_eq_true_iff.mp such with such | such
          · have := eats such
            omega
          · have := eats' such
            omega

/-- A token is eaten, unless it is the end of the text that is asked for. -/
theorem eat_fares (full : lx.Full) {kind : Kind} (lexeme : kind ≠ .endOfText) (orderly : c.Orderly) :
    Fares lx true enough c (eat lx kind c) := by
  unfold eat
  split
  · rename_i same
    cases read : Parse.next lx c.reading with
    | error fault r =>
      refine .error orderly (Nat.le_add_right _ _) fun _ => ?_
      rintro rfl
      exact full.next_ne_exhausted read
    | ok u r =>
      have less := Lexis.left_next read (by rw [same]; exact lexeme)
      refine .ok ⟨orderly, Nat.le_succ _, ?_⟩ fun _ => Nat.lt_succ_self _
      show c.eaten + 1 + lx.left r ≤ c.eaten + lx.left c.reading
      omega
  · exact .error orderly (Nat.le_add_right _ _) fun _ => Fault.noConfusion

/-- One act or the other. -/
theorem whether_fares {test : Test} (yes : Fares lx first enough c (act c)) (no : Fares lx second enough c (act' c)) :
    Fares lx (first && second) enough c (whether test act act' c) := by
  unfold whether
  split
  · exact yes.mono (fun both => (Bool.and_eq_true_iff.mp both).1) id
  · exact no.mono (fun both => (Bool.and_eq_true_iff.mp both).2) id

/-- What carries out the steps of parts, up to a depth. -/
def Carries (lx : Lexis) (depth : Nat) (carry : List Frame → Steps → Act) : Prop :=
  ∀ frames steps c, steps.plain = true → Ordered frames → Clear frames c.eaten steps.lead → c.Orderly →
    Fares lx steps.mustEat (4 * lx.left c.reading + steps.lead < depth) c (carry frames steps c)

variable {carry : List Frame → Steps → Act} {depth : Nat}

/-- A part that may be begun is carried out one level deeper. -/
theorem begun_fares (carries : Carries lx depth carry) {p : Part} (below : p.rank < k) (ordered : Ordered frames)
    (clear : Clear frames c.eaten k) (orderly : c.Orderly) :
    Fares lx p.steps.mustEat (4 * lx.left c.reading + k ≤ depth) c (begun carry frames p c) := by
  obtain ⟨ordered', clear'⟩ := clear.opening below ordered
  have lead := p.lead_steps_le
  have inner := carries _ p.steps { c with openings := (⟨p, c.eaten⟩ :: frames) :: c.openings } p.plain_steps
    ordered' clear' (List.forall_mem_cons.mpr ⟨ordered', orderly⟩)
  have same : Fares lx p.steps.mustEat (4 * lx.left c.reading + p.steps.lead < depth) c
      (begun carry frames p c) := inner.of_same rfl rfl
  exact same.mono id fun enough => by omega

/-- An act and then steps, which may begin what the act could not, if it eats a token. -/
theorem Fares.andThen {rest : Steps} (h : Fares lx first (4 * lx.left c.reading + k ≤ depth) c (act c))
    (clear : Clear frames c.eaten k) (less : first = true ∨ rest.lead ≤ k)
    (further : ∀ {d}, Clear frames d.eaten rest.lead → d.Orderly →
      Fares lx rest.mustEat (4 * lx.left d.reading + rest.lead ≤ depth) d (act' d)) :
    Fares lx (first || rest.mustEat) (4 * lx.left c.reading + k ≤ depth) c ((do act; act') c) := by
  refine h.bind fun d before eats => ?_
  have fewer : c.eaten < d.eaten ∨ rest.lead ≤ k := less.imp_left eats
  refine (further (clear.later before.eaten fewer) before.orderly).mono id fun enough => ?_
  -- a token that has been eaten pays for all ranks
  have bound := rest.lead_le
  have eaten := before.eaten
  have total := before.total
  omega

/-- Steps are carried out, if the parts they begin are. -/
theorem perform_fares (full : lx.Full) (carries : Carries lx depth carry) {steps : Steps}
    (plain : steps.plain = true) (ordered : Ordered frames) (clear : Clear frames c.eaten steps.lead)
    (orderly : c.Orderly) :
    Fares lx steps.mustEat (4 * lx.left c.reading + steps.lead ≤ depth) c
      (steps.perform lx carry frames c) := by
  -- by induction on the steps, from any course: `lead` falls from step to step as long as no token is eaten
  induction steps generalizing c with
  | done => exact .ok (.refl orderly) Bool.noConfusion
  | refuse => exact .error orderly (Nat.le_add_right _ _) fun _ => Fault.noConfusion
  | eat kind rest ih =>
    rw [Steps.plain, Bool.and_eq_true, bne_iff_ne] at plain
    exact (eat_fares full plain.1 orderly).andThen clear (.inl rfl) (ih plain.2)
  | call r rest ih =>
    have below : (Part.routine r).rank < (Steps.call r rest).lead := by
      rw [Steps.lead]
      omega
    have inner := (begun_fares carries below ordered clear orderly).mono
      Steps.mustEat_of_beginsByEating id
    refine inner.andThen clear ?_ (ih plain)
    by_cases eats : (ofRule r).beginsByEating = true
    · exact .inl eats
    · refine .inr ?_
      rw [Steps.lead, if_neg eats]
      omega
  | loop l rest ih =>
    have below : (Part.round l).rank < (Steps.loop l rest).lead := by
      rw [Steps.lead]
      omega
    have round := begun_fares carries below ordered clear orderly
    have stay : Fares lx false (4 * lx.left c.reading + (Steps.loop l rest).lead ≤ depth) c ((pure () : Act) c) :=
      .ok (.refl orderly) Bool.noConfusion
    have inner := (@whether_fares _ _ _ _ _ _ _ l.test round stay).mono (Bool.false_eq_true ▸ False.elim) id
    refine inner.andThen clear (.inr ?_) (ih plain)
    rw [Steps.lead]
    omega
  | choose test yes no rest ih_yes ih_no ih =>
    simp only [Steps.plain, Bool.and_eq_true] at plain
    obtain ⟨below, below', later⟩ : yes.lead ≤ (Steps.choose test yes no rest).lead ∧
        no.lead ≤ (Steps.choose test yes no rest).lead ∧
        ((yes.mustEat && no.mustEat) = true ∨ rest.lead ≤ (Steps.choose test yes no rest).lead) := by
      rw [Steps.lead]
      split
      · exact ⟨by omega, by omega, .inl ‹_›⟩
      · exact ⟨by omega, by omega, .inr (by omega)⟩
    have one := (ih_yes plain.1.1 (clear.later (Nat.le_refl _) (.inr below)) orderly).mono id
      fun enough => Nat.le_trans (Nat.add_le_add_left below _) enough
    have other := (ih_no plain.1.2 (clear.later (Nat.le_refl _) (.inr below')) orderly).mono id
      fun enough => Nat.le_trans (Nat.add_le_add_left below' _) enough
    exact (whether_fares one other).andThen clear later (ih plain.2)

/-- Steps are carried out at every depth. -/
theorem execute_fares (full : lx.Full) (depth : Nat) : Carries lx depth (execute lx depth) := by
  induction depth with
  | zero => exact fun _ _ c _ _ _ orderly => .error orderly (Nat.le_add_right _ _) fun none => absurd none (by omega)
  | succ depth ih =>
    intro frames steps c plain ordered clear orderly
    exact (perform_fares full ih plain ordered clear orderly).mono id Nat.le_of_lt_succ

end Routine

end LittlePascal
