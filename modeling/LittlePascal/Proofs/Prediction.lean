import Mathlib.Computability.Language
import LittlePascal.Proofs.Rule

/-! # Prediction

A rule decides by the current token alone. It predicts a language of marks if nothing is lost by that:
what it reads is a text of the language and, given the token behind it, the only one; and where it
refuses a token, what it has read so far is the beginning of a text of the language, and with that token
it is the beginning of none. Which tokens may stand behind a text of the language is part of the
prediction.

Main definitions: `Scan.FailsOnly`, `language`, `Leads`, `Foreseen`, `Parse.Predicts`.

Main statements: `Lexis.failsOnly_token`, the ways in which the reader of tokens fails;
`Foreseen.bind` for rules in sequence and `Foreseen.widen` for a choice between them;
`Parse.separated_predicts` and `Parse.foldLeft_predicts` carry predictions from items to lists and
chains. -/

namespace LittlePascal

open scoped Computability

/-! ## Faults of the lexemes -/

namespace Scan

variable {α β : Type}

/-- All faults of the work are of one class. -/
def FailsOnly (Class : Fault → Prop) (work : Scan α) : Prop :=
  ∀ ⦃c d : Cursor⦄ ⦃fault : Fault⦄, work c = .error fault d → Class fault

variable {Class : Fault → Prop}

/-- Work that always succeeds fails in no way. -/
theorem failsOnly_of_ok {work : Scan α} (h : ∀ c, ∃ a d, work c = .ok a d) : FailsOnly Class work := by
  intro c d fault failed
  obtain ⟨a, e, done⟩ := h c
  rw [done] at failed
  cases failed

/-- A result is no fault. -/
theorem failsOnly_pure (a : α) : FailsOnly Class (pure a : Scan α) :=
  failsOnly_of_ok fun c => ⟨a, c, rfl⟩

/-- A fault of the class. -/
theorem failsOnly_throw {fault : Fault} (known : Class fault) : FailsOnly Class (throw fault : Scan α) := by
  intro c d fault' h
  cases h
  exact known

/-- Work in sequence fails only as one of its parts does. -/
theorem FailsOnly.bind {work : Scan α} {further : α → Scan β} (first : FailsOnly Class work)
    (second : ∀ a, FailsOnly Class (further a)) : FailsOnly Class (work >>= further) := by
  intro c d fault h
  cases done : work c with
  | error fault' d' =>
    rw [Work.bind_of_error done] at h
    cases h
    exact first done
  | ok a d' =>
    rw [Work.bind_of_ok done] at h
    exact second a h

/-- Work that looks at the cursor first. -/
theorem failsOnly_get {further : Cursor → Scan α} (h : ∀ c, FailsOnly Class (further c)) :
    FailsOnly Class (get >>= further) :=
  (failsOnly_of_ok fun c => ⟨c, c, rfl⟩).bind h

/-- Work behind a run of characters, which is always found. -/
theorem failsOnly_run {p : Char → Bool} {further : List Char → Scan α}
    (h : ∀ chars, FailsOnly Class (further chars)) : FailsOnly Class (run p >>= further) :=
  (failsOnly_of_ok fun c => ⟨_, _, run_eq p c⟩).bind h

/-- Digits may have no value, and where there is a limit they may be too many. -/
theorem failsOnly_wholeOf {limit : DigitLimit} (whole : ∀ word, Class (.malformedWhole (.undecimal word)))
    (long : limit ≠ .off → ∀ most count, Class (.malformedWhole (.tooLong most count)))
    (digits : List Char) : FailsOnly Class (wholeOf limit digits) := by
  unfold wholeOf
  split
  · split
    · exact failsOnly_pure _
    · exact failsOnly_throw (whole _)
  · rename_i short
    rw [Bool.not_eq_true] at short
    exact failsOnly_throw (long (DigitLimit.allows_eq_false_iff.mp short).1 _ _)

/-- Digits around a point may have no value. -/
theorem failsOnly_realOf (real : ∀ word, Class (.malformedReal word)) (before after : List Char) :
    FailsOnly Class (realOf before after) := by
  unfold realOf
  split
  · exact failsOnly_pure _
  · exact failsOnly_throw (real _)

/-- A number with or without a point may have no value. -/
theorem failsOnly_decimal {limit : DigitLimit} (whole : ∀ word, Class (.malformedWhole (.undecimal word)))
    (long : limit ≠ .off → ∀ most count, Class (.malformedWhole (.tooLong most count)))
    (real : ∀ word, Class (.malformedReal word)) : FailsOnly Class (decimal limit) := by
  refine failsOnly_run fun before => failsOnly_get fun c => ?_
  split
  · refine (failsOnly_of_ok fun c => ⟨(), c.advance, rfl⟩).bind fun _ => ?_
    exact failsOnly_run fun after => (failsOnly_realOf real before after).bind fun x => failsOnly_pure _
  · exact (failsOnly_wholeOf whole long before).bind fun n => failsOnly_pure _

/-- A single digit may have no value. -/
theorem failsOnly_digit {limit : DigitLimit} (whole : ∀ word, Class (.malformedWhole (.undecimal word)))
    (long : limit ≠ .off → ∀ most count, Class (.malformedWhole (.tooLong most count))) :
    FailsOnly Class (digit limit) := by
  refine failsOnly_get fun c => (failsOnly_wholeOf whole long _).bind fun n => ?_
  exact failsOnly_of_ok fun c => ⟨n, c.advance, rfl⟩

end Scan

namespace Lexis

open Scan

variable {lx : Lexis} {Class : Fault → Prop}

/-- Without comments layout always ends. -/
theorem layoutLength_ne_none (text : List Char) : layoutLength false false text ≠ none := by
  induction text with
  | nil => simp [layoutLength]
  | cons x rest ih => by_cases blank : Text.isBlank x = true <;> simp [layoutLength, blank, ih]

/-- Comments may be unclosed. -/
theorem failsOnly_skipLayout (comment : lx.comments = true → Class .unclosedComment) :
    FailsOnly Class lx.skipLayout := by
  unfold skipLayout
  split
  · intro c d fault h
    rw [Work.get_bind] at h
    cases length : layoutLength lx.comments false c.rest with
    | some n =>
      simp only [length] at h
      cases h
    | none =>
      simp only [length] at h
      cases h
      refine comment (Bool.eq_true_of_not_eq_false fun without => ?_)
      rw [without] at length
      exact layoutLength_ne_none _ length
  · exact failsOnly_pure ()

/-- Numbers may have no value. -/
theorem failsOnly_literal (whole : ∀ word, Class (.malformedWhole (.undecimal word)))
    (long : lx.limit ≠ .off → ∀ most count, Class (.malformedWhole (.tooLong most count)))
    (real : lx.numbers = .decimal → ∀ word, Class (.malformedReal word)) : FailsOnly Class lx.literal := by
  unfold literal
  split
  · exact (failsOnly_digit whole long).bind fun n => failsOnly_pure _
  · exact (failsOnly_run (failsOnly_wholeOf whole long)).bind fun n => failsOnly_pure _
  · rename_i decimal
    exact failsOnly_decimal whole long (real decimal)

/-- The reader of tokens fails at a comment, at a number or at a character. -/
theorem failsOnly_token (comment : lx.comments = true → Class .unclosedComment)
    (whole : ∀ word, Class (.malformedWhole (.undecimal word)))
    (long : lx.limit ≠ .off → ∀ most count, Class (.malformedWhole (.tooLong most count)))
    (real : lx.numbers = .decimal → ∀ word, Class (.malformedReal word))
    (character : ∀ x place, Class (.character x place)) : FailsOnly Class lx.token := by
  refine (failsOnly_skipLayout comment).bind fun _ => failsOnly_get fun c => ?_
  split
  · exact failsOnly_pure _
  · split
    · exact failsOnly_get fun c => failsOnly_run fun _ => failsOnly_pure _
    · split
      · exact failsOnly_get fun c => (failsOnly_literal whole long real).bind fun _ => failsOnly_pure _
      · split
        · exact failsOnly_of_ok fun d => ⟨_, _, rfl⟩
        · split
          · exact failsOnly_of_ok fun d => ⟨_, _, rfl⟩
          · exact failsOnly_get fun c => failsOnly_throw (character _ _)

/-- To the reader of tokens no token is unexpected. -/
theorem token_not_unexpected : FailsOnly (fun fault => ∀ t, fault ≠ .unexpected t) lx.token :=
  failsOnly_token (fun _ _ => Fault.noConfusion) (fun _ _ => Fault.noConfusion)
    (fun _ _ _ _ => Fault.noConfusion) (fun _ _ _ => Fault.noConfusion) (fun _ _ _ => Fault.noConfusion)

end Lexis

/-! ## Languages of marks -/

/-- The kinds of marks. -/
def kinds (ms : List Mark) : List Kind := ms.map fun m => m.lexeme.kind

@[simp] theorem kinds_nil : kinds [] = [] := rfl

@[simp] theorem kinds_cons (m : Mark) (ms : List Mark) :
    kinds (m :: ms) = m.lexeme.kind :: kinds ms := rfl

@[simp] theorem kinds_append (ms ns : List Mark) : kinds (ms ++ ns) = kinds ms ++ kinds ns :=
  List.map_append

/-- The current token of a reading is the first of those on any passage from there. -/
theorem Passage.exists_kinds_eq {lx : Lexis} {r s : Reading} {ms : List Mark}
    (h : Passage lx r ms s) : ∃ us, kinds ms ++ [s.token.kind] = r.token.kind :: us := by
  cases h with
  | nil r => exact ⟨[], rfl⟩
  | cons token _ _ _ =>
    rw [token]
    exact ⟨_, rfl⟩

/-- The marks that have a form, whatever they stand for. -/
def language {α : Type} (Form : List Mark → α → Prop) : Language Mark := {ms | ∃ a, Form ms a}

/-- Single marks of a kind. -/
def ofKind (k : Kind) : Language Mark := {ms | ∃ m, ms = [m] ∧ m.lexeme.kind = k}

section First

variable {k : Kind} {L : Language Mark} {m : Mark} {ms : List Mark}

@[simp] theorem cons_mem_ofKind : m :: ms ∈ ofKind k ↔ m.lexeme.kind = k ∧ ms = [] := by
  constructor
  · rintro ⟨_, ⟨⟩, kind⟩
    exact ⟨kind, rfl⟩
  · rintro ⟨kind, rfl⟩
    exact ⟨m, rfl, kind⟩

@[simp] theorem cons_mem_ofKind_mul : m :: ms ∈ ofKind k * L ↔ m.lexeme.kind = k ∧ ms ∈ L := by
  constructor
  · rintro ⟨_, ⟨_, rfl, kind⟩, v, member, ⟨⟩⟩
    exact ⟨kind, member⟩
  · rintro ⟨kind, member⟩
    exact ⟨[m], ⟨m, rfl, kind⟩, ms, member, rfl⟩

/-- A mark with a lexeme is a mark of its kind. -/
theorem mem_ofKind_of_lexeme {l : Lexeme} (mark : m.lexeme = l) : [m] ∈ ofKind l.kind :=
  ⟨m, rfl, by rw [mark]⟩

/-- A mark with a lexeme before a text of a language. -/
theorem cons_mem_of_lexeme {l : Lexeme} (mark : m.lexeme = l) (member : ms ∈ L) :
    m :: ms ∈ ofKind l.kind * L :=
  Language.append_mem_mul (mem_ofKind_of_lexeme mark) member

@[simp] theorem nil_mem_ofKind_mul : [] ∈ ofKind k * L ↔ False := by
  constructor
  · rintro ⟨_, ⟨_, rfl, _⟩, _, _, ⟨⟩⟩
  · exact False.elim

end First

/-- A text of a language and then any number of them. -/
theorem mem_kstar_of_mul {L : Language Mark} {w : List Mark} (h : w ∈ L * L∗) : w ∈ L∗ :=
  Set.mem_of_mem_of_subset h (mul_kstar_le_kstar (a := L))

/-- Any number of texts of a language that is not nothing begins with one of them. -/
theorem mem_mul_of_kstar {L : Language Mark} {m : Mark} {ms : List Mark} (h : m :: ms ∈ L∗) :
    m :: ms ∈ L * L∗ := by
  rw [← Language.one_add_self_mul_kstar_eq_kstar L] at h
  rcases h with ⟨⟨⟩⟩ | h
  exact h

/-- What stands at the front of a text of the language with one of some kinds behind it is of a
class. -/
structure Leads (L : Language Mark) (Follow Class : Kind → Prop) : Prop where
  first : ∀ {m ms}, m :: ms ∈ L → Class m.lexeme.kind
  behind : [] ∈ L → ∀ {k}, Follow k → Class k

namespace Leads

variable {L M : Language Mark} {F G H : Kind → Prop} {k : Kind}

/-- Anything is of the class of all kinds. -/
theorem any : Leads L F fun _ => True := ⟨fun _ => trivial, fun _ _ _ => trivial⟩

/-- A mark of a kind leads with that kind. -/
theorem ofKind (h : G k) : Leads (ofKind k) F G where
  first := by
    rintro _ _ ⟨_, ⟨⟩, rfl⟩
    exact h
  behind := by rintro ⟨_, ⟨⟩, _⟩

/-- Nothing leads with what is behind. -/
theorem one (h : ∀ {k}, F k → G k) : Leads 1 F G where
  first member := nomatch member
  behind _ _ := h

/-- A language before another begins as it leads, and behind both stands what may stand behind the second. -/
theorem mul (first : Leads L H G) (second : Leads M F H) : Leads (L * M) F G where
  first := by
    rintro m ms ⟨us, inL, vs, inM, same⟩
    cases us with
    | nil =>
      cases same
      exact first.behind inL (second.first inM)
    | cons _ _ =>
      cases same
      exact first.first inL
  behind := by
    rintro ⟨us, inL, vs, inM, same⟩ k follow
    obtain ⟨rfl, rfl⟩ := List.append_eq_nil_iff.mp same
    exact first.behind inL (second.behind inM follow)

/-- Any number of texts of a language. -/
theorem kstar (first : ∀ {m ms}, m :: ms ∈ L → G m.lexeme.kind) (behind : ∀ {k}, F k → G k) :
    Leads (L∗) F G where
  first := by
    intro m ms member
    obtain ⟨parts, same, all⟩ := Language.mem_kstar_iff_exists_nonempty.mp member
    cases parts with
    | nil => cases same
    | cons part parts =>
      obtain ⟨inL, nonempty⟩ := all part List.mem_cons_self
      obtain ⟨_, _, rfl⟩ := List.exists_cons_of_ne_nil nonempty
      cases same
      exact first inL
  behind _ _ := behind

/-- With a kind behind it a text of the language has a first kind, and that is of the class. -/
theorem exists_cons (h : Leads L F G) {w : List Mark} (member : w ∈ L) (follow : F k)
    (us : List Kind) : ∃ k' us', kinds w ++ k :: us = k' :: us' ∧ G k' := by
  cases w with
  | nil => exact ⟨k, us, rfl, h.behind member follow⟩
  | cons m ms => exact ⟨_, _, rfl, h.first member⟩

end Leads

/-! ## Outcomes that are foreseen -/

/-- A text of the language that, with one of some kinds behind it, goes on from the kinds seen. -/
def Extends (L : Language Mark) (Follow : Kind → Prop) (seen : List Kind) (w : List Mark) : Prop :=
  w ∈ L ∧ ∃ k us, Follow k ∧ seen <+: kinds w ++ k :: us

/-- Outcomes of a rule for a language before tokens of some kinds. What is read is a text of the
language, and with the current token seen there is no other. What is refused was the beginning of a text
of the language, and with the current token it no longer is. Faults of lexemes tell nothing. -/
inductive Foreseen {α : Type} (lx : Lexis) (L : Language Mark) (Follow : Kind → Prop) (r : Reading) :
    EStateM.Result Fault Reading α → Prop where
  | read {a : α} {s : Reading} {ms : List Mark} : Passage lx r ms s → ms ∈ L →
      (∀ w, Extends L Follow (kinds ms ++ [s.token.kind]) w → kinds w = kinds ms) →
      Foreseen lx L Follow r (.ok a s)
  | refused {s : Reading} {ms : List Mark} : Passage lx r ms s → (∃ ns, ms ++ ns ∈ L) →
      (∀ w, ¬Extends L Follow (kinds ms ++ [s.token.kind]) w) →
      Foreseen lx L Follow r (.error (.unexpected s.token) s)
  | broken {fault : Fault} {s : Reading} : (∀ t, fault ≠ .unexpected t) →
      Foreseen lx L Follow r (.error fault s)

/-- All outcomes of the rule are foreseen. -/
def Parse.Predicts {α : Type} (lx : Lexis) (L : Language Mark) (Follow : Kind → Prop)
    (rule : Parse α) : Prop :=
  ∀ r, Foreseen lx L Follow r (rule r)

section Foreseen

variable {α β : Type} {lx : Lexis} {L M : Language Mark} {F G : Kind → Prop} {r s t : Reading}
  {ms ns w : List Mark} {seen : List Kind}

/-- Of a text of two languages in sequence, the part of the first language goes on from the kinds
seen. -/
theorem Extends.left (leads : Leads M F G) {u v : List Mark} (inL : u ∈ L) (inM : v ∈ M)
    {k : Kind} {us : List Kind} (follow : F k) (h : seen <+: kinds (u ++ v) ++ k :: us) :
    Extends L G seen u := by
  obtain ⟨k', us', same, allowed⟩ := leads.exists_cons inM follow us
  rw [kinds_append, List.append_assoc, same] at h
  exact ⟨inL, k', us', allowed, h⟩

/-- If what has been read of the first language can be nothing else, the rest of the text is of the
second language. -/
theorem Extends.split (leads : Leads M F G) (passage : Passage lx s ns t)
    (only : ∀ w, Extends L G (kinds ms ++ [s.token.kind]) w → kinds w = kinds ms)
    (h : Extends (L * M) F (kinds (ms ++ ns) ++ [t.token.kind]) w) :
    ∃ u v, w = u ++ v ∧ kinds u = kinds ms ∧ Extends M F (kinds ns ++ [t.token.kind]) v := by
  obtain ⟨⟨u, inL, v, inM, rfl⟩, k, us, follow, agrees⟩ := h
  rw [kinds_append, List.append_assoc] at agrees
  -- the token behind the first part is the first on the passage over the second
  have shorter : kinds ms ++ [s.token.kind] <+: kinds ms ++ (kinds ns ++ [t.token.kind]) := by
    obtain ⟨more, same⟩ := passage.exists_kinds_eq
    rw [same, List.prefix_append_right_inj]
    exact List.prefix_append [s.token.kind] more
  have same : kinds u = kinds ms :=
    only u (Extends.left leads inL inM follow (shorter.trans agrees))
  refine ⟨u, v, rfl, same, inM, k, us, follow, ?_⟩
  dsimp only at agrees
  rw [kinds_append, List.append_assoc, same, List.prefix_append_right_inj] at agrees
  exact agrees

namespace Foreseen

/-- Outcomes in sequence are foreseen. What stands behind the first part is what the second begins
with, or what stands behind both. -/
theorem bind {rule : Parse α} {further : α → Parse β} (first : Foreseen lx L G r (rule r))
    (second : ∀ a, Parse.Predicts lx M F (further a)) (leads : Leads M F G) (inhabited : ∃ v, v ∈ M) :
    Foreseen lx (L * M) F r ((rule >>= further) r) := by
  cases read : rule r with
  | error fault s =>
    rw [Work.bind_of_error read]
    rw [read] at first
    cases first with
    | @refused _ ms passage viable none =>
      obtain ⟨ns, inL⟩ := viable
      obtain ⟨v, inM⟩ := inhabited
      refine .refused passage ⟨ns ++ v, ?_⟩ ?_
      · rw [← List.append_assoc]
        exact Language.append_mem_mul inL inM
      · rintro w ⟨⟨u, inL, v, inM, rfl⟩, k, us, follow, agrees⟩
        exact none u (Extends.left leads inL inM follow agrees)
    | broken other => exact .broken other
  | ok a s =>
    rw [Work.bind_of_ok read]
    rw [read] at first
    cases first with
    | @read _ _ ms passage inL only =>
      have outcome := second a s
      cases read' : further a s with
      | error fault t =>
        rw [read'] at outcome
        cases outcome with
        | @refused _ ns passage' viable none =>
          obtain ⟨more, inM⟩ := viable
          refine .refused (passage.append passage') ⟨more, ?_⟩ ?_
          · rw [List.append_assoc]
            exact Language.append_mem_mul inL inM
          · intro w agrees
            obtain ⟨u, v, _, _, agrees⟩ := agrees.split leads passage' only
            exact none v agrees
        | broken other => exact .broken other
      | ok b t =>
        rw [read'] at outcome
        cases outcome with
        | read passage' inM only' =>
          refine .read (passage.append passage') (Language.append_mem_mul inL inM) ?_
          intro w agrees
          obtain ⟨u, v, rfl, same, agrees⟩ := agrees.split leads passage' only
          rw [kinds_append, kinds_append, same, only' v agrees]

/-- With fewer kinds behind, outcomes stay foreseen. -/
theorem mono {outcome : EStateM.Result Fault Reading α} (h : Foreseen lx L G r outcome)
    (fewer : ∀ {k}, F k → G k) : Foreseen lx L F r outcome := by
  have less : ∀ {seen w}, Extends L F seen w → Extends L G seen w :=
    fun ⟨member, k, us, follow, agrees⟩ => ⟨member, k, us, fewer follow, agrees⟩
  cases h with
  | read passage inL only => exact .read passage inL fun w agrees => only w (less agrees)
  | refused passage viable none => exact .refused passage viable fun w agrees => none w (less agrees)
  | broken other => exact .broken other

/-- More texts, if none of them begins with the current token. -/
theorem widen {outcome : EStateM.Result Fault Reading α} (h : Foreseen lx L F r outcome)
    (more : ∀ {w}, w ∈ L → w ∈ M)
    (first : ∀ {m ms}, m :: ms ∈ M → m.lexeme.kind = r.token.kind → m :: ms ∈ L)
    (behind : [] ∈ M → F r.token.kind → [] ∈ L) : Foreseen lx M F r outcome := by
  have less : ∀ {ms s w}, Passage lx r ms s → Extends M F (kinds ms ++ [s.token.kind]) w →
      Extends L F (kinds ms ++ [s.token.kind]) w := by
    rintro ms s w passage ⟨member, k, us, follow, agrees⟩
    refine ⟨?_, k, us, follow, agrees⟩
    obtain ⟨us, same⟩ := passage.exists_kinds_eq
    rw [same] at agrees
    cases w with
    | nil =>
      obtain ⟨rfl, _⟩ := List.cons_prefix_cons.mp agrees
      exact behind member follow
    | cons m ms => exact first member (List.cons_prefix_cons.mp agrees).1.symm
  cases h with
  | read passage inL only =>
    exact .read passage (more inL) fun w agrees => only w (less passage agrees)
  | refused passage viable none =>
    obtain ⟨ns, inL⟩ := viable
    exact .refused passage ⟨ns, more inL⟩ fun w agrees => none w (less passage agrees)
  | broken other => exact .broken other

/-- A rule that is chosen by cases, apart from the reading it starts from. -/
theorem of_chosen {rule : Parse α}
    (h : ∀ chosen, rule = chosen → Foreseen lx L F r (chosen r)) : Foreseen lx L F r (rule r) :=
  h rule rfl

/-- The current token decides for the texts that begin with its kind. -/
theorem branch {outcome : EStateM.Result Fault Reading α} {k : Kind}
    (h : Foreseen lx (ofKind k * L) F r outcome) (here : r.token.kind = k)
    (begins : ∀ {m ms}, m.lexeme.kind = k → (m :: ms ∈ M ↔ ms ∈ L)) (behind : [] ∈ M → ¬F k) :
    Foreseen lx M F r outcome := by
  refine h.widen (fun {w} member => ?_) (fun member kind => ?_) (fun member follow => ?_)
  · cases w with
    | nil => exact (nil_mem_ofKind_mul.mp member).elim
    | cons m ms =>
      obtain ⟨kind, member⟩ := cons_mem_ofKind_mul.mp member
      exact (begins kind).mpr member
  · rw [here] at kind
    exact cons_mem_ofKind_mul.mpr ⟨kind, (begins kind).mp member⟩
  · rw [here] at follow
    exact absurd follow (behind member)

/-- The current token decides for nothing where no text begins with its kind. -/
theorem skip (a : α) (none : [] ∈ M) (other : ∀ {m ms}, m :: ms ∈ M → m.lexeme.kind ≠ r.token.kind) :
    Foreseen lx M F r (.ok a r) := by
  refine .read (.nil r) none ?_
  rintro w ⟨member, k, us, _, agrees⟩
  cases w with
  | nil => rfl
  | cons m ms => exact absurd (List.cons_prefix_cons.mp agrees).1.symm (other member)

end Foreseen

end Foreseen

namespace Parse

variable {α : Type} {lx : Lexis} {L : Language Mark} {F G : Kind → Prop} {r : Reading}

/-- Nothing is read where nothing is to be read. -/
theorem pure_predicts (a : α) : Predicts lx 1 F (pure a : Parse α) := by
  intro r
  refine .read (.nil r) rfl ?_
  rintro w ⟨member, _⟩
  rw [(Language.mem_one w).mp member]

end Parse

/-- A result in another form. -/
theorem Foreseen.map {α β : Type} {lx : Lexis} {L : Language Mark} {F : Kind → Prop} {r : Reading}
    {rule : Parse α} (h : Foreseen lx L F r (rule r)) (f : α → β) :
    Foreseen lx L F r ((rule >>= fun a => pure (f a)) r) := by
  rw [← mul_one L]
  exact h.bind (fun a => Parse.pure_predicts (f a)) (.one id) ⟨[], rfl⟩

namespace Parse

variable {α : Type} {lx : Lexis} {L : Language Mark} {F G : Kind → Prop} {r : Reading}

/-! ## Single tokens -/

/-- A lexeme is passed. -/
theorem next_foreseen {l : Lexeme} {p : Place} (token : r.token = .lexeme l p) :
    Foreseen lx (ofKind l.kind) F r (next lx r) := by
  cases read : next lx r with
  | ok u s =>
    refine .read (passage_of_next token read) ⟨_, rfl, rfl⟩ ?_
    rintro w ⟨⟨m, rfl, kind⟩, _⟩
    rw [kinds_cons, kind]
    rfl
  | error fault s =>
    obtain ⟨d, failed⟩ := next_error read
    exact .broken (Lexis.token_not_unexpected failed)

/-- A lexeme is passed, which decides for the texts that begin with its kind, and then the rest of such a
text is read. -/
theorem next_bind_foreseen {β : Type} {M : Language Mark} {further : Unit → Parse β} {l : Lexeme}
    {p : Place} (token : r.token = .lexeme l p) (predicts : Predicts lx L F (further ()))
    (inhabited : ∃ v, v ∈ L)
    (begins : ∀ {m ms}, m.lexeme.kind = l.kind → (m :: ms ∈ M ↔ ms ∈ L))
    (behind : [] ∈ M → ¬F l.kind) : Foreseen lx M F r ((next lx >>= further) r) := by
  refine Foreseen.branch ?_ (by rw [token]; rfl) begins behind
  exact (next_foreseen token).bind (fun _ => predicts) .any inhabited

/-- A token is refused where no text of the language begins with it. -/
theorem reject_foreseen (inhabited : ∃ v, v ∈ L) (none : Leads L F (· ≠ r.token.kind)) :
    Foreseen lx L F r ((reject : Parse α) r) := by
  obtain ⟨v, inL⟩ := inhabited
  refine .refused (.nil r) ⟨v, inL⟩ ?_
  rintro w ⟨member, k, us, follow, agrees⟩
  obtain ⟨k', us', same, other⟩ := none.exists_cons member follow us
  rw [same] at agrees
  exact other (List.cons_prefix_cons.mp agrees).1.symm

/-- A kind that lexemes have. -/
theorem exists_mem_ofKind {k : Kind} {l : Lexeme} (h : l.kind = k) : ∃ v, v ∈ ofKind k :=
  ⟨[⟨l, ⟨1, 1⟩, none⟩], _, rfl, h⟩

/-- A token of a kind is passed, and any other token refused. -/
theorem expect_predicts {k : Kind} {l : Lexeme} (possible : l.kind = k) :
    Predicts lx (ofKind k) F (expect lx k) := by
  intro r
  rw [expect, current_bind]
  split
  · rename_i same
    cases token : r.token with
    | lexeme l' p =>
      rw [token] at same
      rw [← same]
      exact next_foreseen token
    | endOfText =>
      -- no lexeme is of the kind of the end
      rw [token] at same
      rw [← same] at possible
      rcases l with ⟨⟨⟩⟩ | _ | _ | _ | _ <;> cases possible
  · rename_i other
    exact reject_foreseen (exists_mem_ofKind possible) (.ofKind (Ne.symm other))

/-- A name is passed, and any other token refused. -/
theorem ident_predicts : Predicts lx (ofKind .name) F (ident lx) := by
  intro r
  rw [ident, current_bind]
  refine Foreseen.of_chosen fun chosen same => ?_
  split at same
  · rename_i name place token
    subst same
    exact (next_foreseen token).map _
  · rename_i other
    subst same
    refine reject_foreseen (exists_mem_ofKind (l := .name "") rfl) (.ofKind fun name => ?_)
    obtain ⟨s, p, token⟩ := Token.kind_eq_name_iff.mp name.symm
    exact other s p token

/-! ## Lists -/

/-- Any number of items, each announced by its first token. An item may be followed by another one or
by what is behind the list, which announces none. -/
theorem manyWhile_predicts {announced : Kind → Bool} {item : Parse α} (predicts : Predicts lx L G item)
    (opens : ∀ {w}, w ∈ L → ∃ m ms, w = m :: ms ∧ announced m.lexeme.kind = true)
    (again : ∀ {k}, announced k = true → G k) (ends : ∀ {k}, F k → G k ∧ announced k = false)
    (n : Nat) : Predicts lx (L∗) F (manyWhile announced item n) := by
  have first : ∀ {m ms}, m :: ms ∈ L → announced m.lexeme.kind = true := by
    intro m ms member
    obtain ⟨_, _, ⟨⟩, announce⟩ := opens member
    exact announce
  have leads : Leads (L∗) (fun _ => False) (fun k => announced k = true) :=
    .kstar first False.elim
  induction n with
  | zero => exact fun r => .broken fun t => Fault.noConfusion
  | succ n ih =>
    intro r
    rw [manyWhile, kind_bind]
    split
    · rename_i announce
      -- an item, and then the list goes on
      have outcome : Foreseen lx (L * L∗) F r
          ((item >>= fun first => manyWhile announced item n >>= fun rest => pure (first :: rest)) r) :=
        (predicts r).bind (fun first s => (ih s).map _)
          (.kstar (fun member => again (first member)) fun follow => (ends follow).1)
          ⟨[], Language.nil_mem_kstar L⟩
      refine outcome.widen mem_kstar_of_mul (fun member _ => mem_mul_of_kstar member) fun _ follow => ?_
      rw [(ends follow).2] at announce
      cases announce
    · rename_i silent
      refine Foreseen.skip [] (Language.nil_mem_kstar L) fun member same => ?_
      have announce := leads.first member
      rw [same] at announce
      exact absurd announce silent

/-- Any number of items that begin with a token of a kind. -/
theorem many_predicts {opener : Kind} {item : Parse α} (predicts : Predicts lx L G item)
    (opens : ∀ {w}, w ∈ L → ∃ m ms, w = m :: ms ∧ m.lexeme.kind = opener) (again : G opener)
    (ends : ∀ {k}, F k → G k ∧ k ≠ opener) : Predicts lx (L∗) F (many opener item) := by
  intro r
  rw [many, budget_bind]
  refine manyWhile_predicts predicts ?_ ?_ ?_ _ r
  · intro w member
    obtain ⟨m, ms, rfl, kind⟩ := opens member
    exact ⟨m, ms, rfl, beq_iff_eq.mpr kind⟩
  · intro k announce
    rwa [beq_iff_eq.mp announce]
  · intro k follow
    exact ⟨(ends follow).1, beq_eq_false_iff_ne.mpr (ends follow).2⟩

/-- Items with separators between them. -/
theorem separated_predicts {separator : Punctuation} {item : Parse α} (predicts : Predicts lx L G item)
    (inhabited : ∃ v, v ∈ L) (again : G (.punctuation separator))
    (ends : ∀ {k}, F k → G k ∧ k ≠ .punctuation separator) :
    Predicts lx (L * (ofKind (.punctuation separator) * L)∗) F
      (separated lx (.punctuation separator) item) := by
  intro r
  have preceded : Predicts lx (ofKind (.punctuation separator) * L) G
      (expect lx (.punctuation separator) >>= fun _ => item) := fun s =>
    Foreseen.bind (expect_predicts (l := .punctuation separator) rfl s) (fun _ => predicts) .any
      inhabited
  have opens : ∀ {w}, w ∈ ofKind (.punctuation separator) * L →
      ∃ m ms, w = m :: ms ∧ m.lexeme.kind = .punctuation separator := by
    rintro _ ⟨_, ⟨m, rfl, kind⟩, v, _, rfl⟩
    exact ⟨m, v, rfl, kind⟩
  have leads : Leads ((ofKind (.punctuation separator) * L)∗) F G := by
    refine .kstar (fun member => ?_) fun follow => (ends follow).1
    obtain ⟨_, _, ⟨⟩, kind⟩ := opens member
    rwa [kind]
  exact Foreseen.bind (predicts r)
    (fun first s => (many_predicts preceded opens again ends s).map _) leads
    ⟨[], Language.nil_mem_kstar _⟩

/-! ## Chains -/

/-- Operators of a class. -/
def ofOperators (operators : List Operator) : Language Mark :=
  {ms | ∃ m o, ms = [m] ∧ m.lexeme = .operator o ∧ o ∈ operators}

section Chains

variable {operators : List Operator}

/-- What continues a chain begins with one of its operators. -/
theorem exists_operator_of_mem {m : Mark} {ms : List Mark}
    (h : m :: ms ∈ (ofOperators operators * L)∗) :
    ∃ o, m.lexeme.kind = .operator o ∧ o ∈ operators := by
  obtain ⟨_, ⟨_, ⟨_, o, rfl, mark, among⟩, _, _, rfl⟩, _, _, whole⟩ := mem_mul_of_kstar h
  cases whole
  rw [mark]
  exact ⟨o, rfl, among⟩

/-- An operand is followed by an operator of the chain, or by what is behind the chain. -/
theorem leads_chain (again : ∀ {o}, o ∈ operators → G (.operator o))
    (ends : ∀ {k}, F k → G k ∧ ∀ o ∈ operators, k ≠ .operator o) :
    Leads ((ofOperators operators * L)∗) F G where
  first member := by
    obtain ⟨o, kind, among⟩ := exists_operator_of_mem member
    rw [kind]
    exact again among
  behind _ _ follow := (ends follow).1

/-- What continues a chain: any number of operators of a class, each with an operand. -/
theorem foldLeft_predicts {f : Operator → Place → α → α → α} {operand : Parse α}
    (predicts : Predicts lx L G operand) (inhabited : ∃ v, v ∈ L)
    (again : ∀ {o}, o ∈ operators → G (.operator o))
    (ends : ∀ {k}, F k → G k ∧ ∀ o ∈ operators, k ≠ .operator o) (n : Nat) :
    ∀ left, Predicts lx ((ofOperators operators * L)∗) F
      (foldLeft lx (operatorAmong operators) (fun o p l r => pure (f o p l r)) operand n left) := by
  induction n with
  | zero => exact fun left r => .broken fun t => Fault.noConfusion
  | succ n ih =>
    intro left r
    cases found : operatorAmong operators r.token with
    | none =>
      rw [foldLeft_stop found]
      refine Foreseen.skip left (Language.nil_mem_kstar _) fun member same => ?_
      -- the current token would be one of the operators
      obtain ⟨o, kind, among⟩ := exists_operator_of_mem member
      obtain ⟨p, token⟩ := (Token.kind_eq_iff (k := .operator o) rfl).mp (same.symm.trans kind)
      have here := operatorAmong_eq_some.mpr ⟨token, among⟩
      rw [found] at here
      cases here
    | some op =>
      obtain ⟨o, p⟩ := op
      obtain ⟨token, among⟩ := operatorAmong_eq_some.mp found
      rw [foldLeft_step found]
      obtain ⟨v, inL⟩ := inhabited
      -- the operator, its operand, and then the chain goes on
      refine next_bind_foreseen token (fun s => (predicts s).bind
        (fun right => ih (f o p left right)) (leads_chain again ends) ⟨[], Language.nil_mem_kstar _⟩)
        ⟨v ++ [], Language.append_mem_mul inL (Language.nil_mem_kstar _)⟩
        (fun {m ms} kind => ⟨fun member => ?_, fun member => ?_⟩)
        fun _ follow => (ends follow).2 o among rfl
      · obtain ⟨_, ⟨_, ⟨_, _, rfl, _, _⟩, v, inL, rfl⟩, x, inStar, whole⟩ := mem_mul_of_kstar member
        cases whole
        exact Language.append_mem_mul inL inStar
      · obtain ⟨v, inL, x, inStar, rfl⟩ := member
        have mark := (Lexeme.kind_eq_iff (k := .operator o) rfl).mp kind
        exact mem_kstar_of_mul ⟨m :: v, ⟨[m], ⟨m, o, rfl, mark, among⟩, v, inL, rfl⟩, x, inStar, rfl⟩

end Chains

end Parse

/-! ## Languages of lists and chains -/

section Forms

variable {α : Type} {Item : List Mark → α → Prop} {separator : Punctuation}
  {operators : List Operator} {Operand : List Mark → Expr → Prop}

/-- The language of any number of items. -/
theorem language_repeated : language (Repeated Item) = (language Item)∗ := by
  ext w
  constructor
  · rintro ⟨as, forms⟩
    induction forms with
    | nil => exact Language.nil_mem_kstar _
    | cons form _ ih => exact mem_kstar_of_mul (Language.append_mem_mul ⟨_, form⟩ ih)
  · intro member
    obtain ⟨parts, rfl, all⟩ := Language.mem_kstar.mp member
    clear member
    induction parts with
    | nil => exact ⟨[], .nil⟩
    | cons part parts ih =>
      rw [List.forall_mem_cons] at all
      obtain ⟨a, form⟩ := all.1
      obtain ⟨as, forms⟩ := ih all.2
      exact ⟨a :: as, .cons form forms⟩

/-- The language of items with separators between them. -/
theorem language_separated : language (Separated separator Item) =
    language Item * (ofKind (.punctuation separator) * language Item)∗ := by
  have preceded : language (Parse.Preceded separator Item) =
      ofKind (.punctuation separator) * language Item := by
    ext w
    constructor
    · rintro ⟨a, mark, form⟩
      exact ⟨[_], ⟨_, rfl, by rw [mark]; rfl⟩, _, ⟨a, form⟩, rfl⟩
    · rintro ⟨_, ⟨m, rfl, kind⟩, v, ⟨a, form⟩, rfl⟩
      exact ⟨a, .mk ((Lexeme.kind_eq_iff (k := .punctuation separator) rfl).mp kind) form⟩
  rw [← preceded, ← language_repeated]
  ext w
  constructor
  · rintro ⟨as, forms⟩
    obtain ⟨us, vs, a, rest, rfl, rfl, form, forms⟩ := Parse.separated_iff.mp forms
    exact Language.append_mem_mul ⟨a, form⟩ ⟨rest, forms⟩
  · rintro ⟨us, ⟨a, form⟩, vs, ⟨rest, forms⟩, rfl⟩
    exact ⟨a :: rest, Parse.separated_iff.mpr ⟨us, vs, a, rest, rfl, rfl, form, forms⟩⟩

/-- What continues a chain, whatever has been read of it. -/
theorem exists_continued_iff {left : Expr} {ms : List Mark} :
    (∃ e, Parse.Continued operators Operand left ms e) ↔
      ms ∈ (Parse.ofOperators operators * language Operand)∗ := by
  constructor
  · rintro ⟨e, continued⟩
    induction continued with
    | done e => exact Language.nil_mem_kstar _
    | @more m ns ks o _ right _ mark member form _ ih =>
      refine mem_kstar_of_mul ⟨m :: ns, ?_, ks, ih, rfl⟩
      exact ⟨[m], ⟨m, o, rfl, mark, member⟩, ns, ⟨right, form⟩, rfl⟩
  · intro member
    obtain ⟨parts, rfl, all⟩ := Language.mem_kstar.mp member
    clear member
    induction parts generalizing left with
    | nil => exact ⟨left, .done left⟩
    | cons part parts ih =>
      rw [List.forall_mem_cons] at all
      obtain ⟨_, ⟨m, o, rfl, mark, member⟩, ns, ⟨right, form⟩, rfl⟩ := all.1
      obtain ⟨e, continued⟩ := @ih (.binary o m.place left right) all.2
      exact ⟨e, .more mark member form continued⟩

/-- The language of chains is that of an operand and rounds behind it. -/
theorem language_leftChain : language (Parse.LeftChain operators Operand) =
    language Operand * (Parse.ofOperators operators * language Operand)∗ := by
  ext w
  constructor
  · rintro ⟨e, chain⟩
    obtain ⟨us, vs, first, rfl, form, continued⟩ := Parse.leftChain_iff.mp chain
    exact Language.append_mem_mul ⟨first, form⟩ (exists_continued_iff.mp ⟨e, continued⟩)
  · rintro ⟨us, ⟨first, form⟩, vs, member, rfl⟩
    obtain ⟨e, continued⟩ := exists_continued_iff.mpr member
    exact ⟨e, Parse.leftChain_iff.mpr ⟨us, vs, first, rfl, form, continued⟩⟩

end Forms

end LittlePascal
