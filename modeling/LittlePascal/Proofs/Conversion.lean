import LittlePascal.Proofs.Succession

/-! # Texts rewritten for another reader

A text is rewritten character by character: blanks stay, and each other character makes way for some
characters that begin with it or with a blank. What a reader of whole numbers and without comments cuts
off a text, one lexeme after the other, the reader of another edition finds again in the rewritten text, as
long as each single lexeme is carried over.

Main definitions:
* `Lexis.Plain`, `Lexis.Cut`: readers of whole numbers without comments, and what they cut off;
* `Rewriting`: a way to rewrite a text;
* `Lexis.Carries`: a lexeme is found again in the rewritten text.

Main statements:
* `Lexis.Plain.exists_cut`: a token is cut off behind blanks;
* `Lexis.Cut.spells`: what one reader cuts off another reads as the same lexeme;
* `Lexis.Reads.rendered`: the rewritten text spells the lexemes of the text. -/

namespace LittlePascal

/-! ## Digits -/

namespace Text

/-- No digit that has a value is a letter. -/
theorem isLetter_of_digitValue? {c : Char} {value : Nat} (h : digitValue? c = some value) :
    isLetter c = false := by
  -- beyond ASCII no range of letters meets the ten digits of a script
  have apart : decimalZeros.all (fun start => letterRanges.all fun letters =>
      (letters.2 + 1).ble start || (start + 10).ble letters.1) = true := by
    decide +kernel
  unfold digitValue? at h
  split at h
  · split at h
    · rename_i digit
      exact (isDigit_facts digit).2.1
    · cases h
  · rename_i beyond
    obtain ⟨start, found, _⟩ := Option.map_eq_some_iff.mp h
    have inside := List.find?_some found
    rw [Bool.and_eq_true, decide_eq_true_eq, decide_eq_true_eq] at inside
    rw [isLetter, if_neg beyond, ← Bool.not_eq_true, inRanges_iff]
    rintro ⟨letters, member, lower, upper⟩
    have outside := List.all_eq_true.mp (List.all_eq_true.mp apart start (List.mem_of_find?_eq_some found))
      letters member
    rw [Bool.or_eq_true, Nat.ble_eq, Nat.ble_eq] at outside
    omega

/-- A number that has a value does not begin with a letter. -/
theorem isLetter_of_decimalValue? {c : Char} {digits : List Char} {n : Nat}
    (h : decimalValue? (c :: digits) = some n) : isLetter c = false := by
  obtain ⟨value, first⟩ := Option.isSome_iff_exists.mp (isSome_of_decimalValue? h c List.mem_cons_self)
  exact isLetter_of_digitValue? first

end Text

/-! ## Readers of whole numbers -/

/-- Without comments layout is blank. -/
theorem isBlank_of_layoutLength {text : List Char} {n : Nat} (h : layoutLength false false text = some n) :
    ∀ y ∈ text.take n, Text.isBlank y = true := by
  induction text generalizing n with
  | nil => simp
  | cons x rest ih =>
    by_cases blank : Text.isBlank x = true
    · rw [layoutLength, if_pos blank] at h
      obtain ⟨m, more, rfl⟩ := Option.map_eq_some_iff.mp h
      rw [List.take_succ_cons]
      exact List.forall_mem_cons.mpr ⟨blank, ih more⟩
    · rw [layoutLength, if_neg blank] at h
      cases h
      simp

namespace Lexis

/-- The decisions about lexemes that the editions before declarations share: numbers are whole, there are
no comments, and a colon by itself is no mark. -/
structure Plain (lx : Lexis) : Prop where
  blanks : lx.blanks = true
  comments : lx.comments = false
  numbers : lx.numbers = .whole
  colon : lx.mark ':' = none
  /-- No other lexeme and no layout begins with a mark. -/
  marks : ∀ {x : Char} {l : Lexeme}, lx.mark x = some l →
    Text.isLetter x = false ∧ Text.isDigit x = false ∧ lx.opensLayout x = false

/-- A lexeme that such a reader cuts off the front of a text, as long as it can be. -/
inductive Cut (lx : Lexis) : List Char → Lexeme → List Char → Prop where
  | word {x : Char} {word rest : List Char} :
      lx.words = true → Text.isLetter x = true → (∀ y ∈ word, Text.isNameChar y = true) →
      (∀ y ∈ rest.head?, Text.isNameChar y = false) → Cut lx (x :: word) (lx.wordLexeme (x :: word)) rest
  | whole {x : Char} {digits rest : List Char} {n : Nat} :
      (∀ y ∈ x :: digits, Text.isDigit y = true) → Text.decimalValue? (x :: digits) = some n →
      lx.limit.allows (x :: digits).length = true →
      (∀ y ∈ rest.head?, Text.isDigit y = false) → Cut lx (x :: digits) (.literal (.whole n)) rest
  | assign {rest : List Char} : lx.assign = true → Cut lx [':', '='] (.punctuation .assign) rest
  | mark {x : Char} {l : Lexeme} {rest : List Char} : lx.mark x = some l → Cut lx [x] l rest

variable {lx lx' : Lexis} {c d : Cursor} {l : Lexeme} {p : Place} {word rest rest' : List Char}

/-- Where a lexeme is spelled it is read. -/
theorem Spells.eq_of_token {l' : Lexeme} (spells : lx.Spells word l' rest) (left : c.rest = word ++ rest)
    (h : lx.token c = .ok (.lexeme l p) d) : l = l' ∧ d.rest = rest := by
  rw [spells.2 c left] at h
  cases h
  rw [Cursor.advanceBy_rest, left, List.drop_left]
  exact ⟨rfl, rfl⟩

/-- A mark of one character is read wherever it stands. -/
theorem Plain.spells (plain : lx.Plain) {x : Char} (marked : lx.mark x = some l) :
    lx.Spells [x] l rest := by
  obtain ⟨letter, digit, layout⟩ := plain.marks marked
  refine spells_mark layout letter digit marked ?_
  rintro rfl
  rw [plain.colon] at marked
  cases marked

/-- A number is cut off where it is read. -/
theorem Plain.exists_cut_digit (plain : lx.Plain) {x : Char} (left : c.rest = x :: rest)
    (digit : Text.isDigit x = true) (h : lx.number c = .ok (.lexeme l p) d) :
    ∃ word, c.rest = word ++ d.rest ∧ lx.Cut word l d.rest := by
  obtain ⟨digits, behind, rfl, all, ends⟩ := exists_run Text.isDigit rest
  have all : ∀ y ∈ x :: digits, Text.isDigit y = true := List.forall_mem_cons.mpr ⟨digit, all⟩
  have run : c.rest.takeWhile Text.isDigit = x :: digits := by
    rw [left, ← List.cons_append, takeWhile_word all ends]
  rw [number, Work.get_bind] at h
  obtain ⟨_, c₁, read, h⟩ := Work.bind_eq_ok.mp h
  cases h
  simp only [literal, plain.numbers] at read
  obtain ⟨n, c₂, read, h⟩ := Work.bind_eq_ok.mp read
  cases h
  obtain ⟨_, c₃, ran, valued⟩ := Work.bind_eq_ok.mp read
  rw [Scan.run_eq, run] at ran
  cases ran
  obtain ⟨rfl, value, short⟩ := Scan.wholeOf_ok valued
  have behind_eq : (c.advanceBy (x :: digits).length).rest = behind := by
    rw [Cursor.advanceBy_rest, left, ← List.cons_append, List.drop_left]
  rw [behind_eq]
  exact ⟨x :: digits, left, .whole all value short ends⟩

/-- Where no layout begins a lexeme that is read is cut off. -/
theorem Plain.exists_cut_here (plain : lx.Plain) {x : Char} (left : c.rest = x :: rest)
    (layout : lx.opensLayout x = false) (h : lx.token c = .ok (.lexeme l p) d) :
    ∃ word, c.rest = word ++ d.rest ∧ lx.Cut word l d.rest := by
  by_cases letter : (lx.words && Text.isLetter x) = true
  · -- a word goes on as long as it can
    rw [Bool.and_eq_true] at letter
    obtain ⟨word, behind, rfl, all, ends⟩ := exists_run Text.isNameChar rest
    have spells := spells_word letter.1 layout letter.2 all ends
    obtain ⟨rfl, rfl⟩ := spells.eq_of_token left h
    exact ⟨x :: word, left, .word letter.1 letter.2 all ends⟩
  by_cases digit : Text.isDigit x = true
  · rw [token_cons left layout, if_neg letter, if_pos digit] at h
    exact plain.exists_cut_digit left digit h
  by_cases assign : (lx.assign && x == ':' && rest.head? == some '=') = true
  · rw [Bool.and_eq_true, Bool.and_eq_true, beq_iff_eq, beq_iff_eq] at assign
    obtain ⟨⟨assign, rfl⟩, equals⟩ := assign
    obtain ⟨behind, rfl⟩ := List.head?_eq_some_iff.mp equals
    have spells : lx.Spells [':', '='] (.punctuation .assign) behind := spells_assign assign
    obtain ⟨rfl, rfl⟩ := spells.eq_of_token left h
    exact ⟨[':', '='], left, .assign assign⟩
  cases marked : lx.mark x with
  | some l' =>
    obtain ⟨rfl, rfl⟩ := (plain.spells marked).eq_of_token left h
    exact ⟨[x], left, .mark marked⟩
  | none =>
    rw [token_cons left layout, if_neg letter, if_neg digit, if_neg assign, marked] at h
    cases h

/-- A lexeme that is read is cut off behind blanks. -/
theorem Plain.exists_cut (plain : lx.Plain) (h : lx.token c = .ok (.lexeme l p) d) :
    ∃ blanks word, c.rest = blanks ++ (word ++ d.rest) ∧ (∀ y ∈ blanks, Text.isBlank y = true) ∧
      lx.Cut word l d.rest := by
  obtain ⟨n, length⟩ := layoutLength_of_token plain.blanks h
  rw [token_layout plain.blanks length] at h
  have behind := layoutLength_drop length
  have blank : ∀ y ∈ c.rest.take n, Text.isBlank y = true :=
    isBlank_of_layoutLength (plain.comments ▸ length)
  cases left : (c.advanceBy n).rest with
  | nil =>
    rw [token_nil left] at h
    cases h
  | cons x rest =>
    rw [← Cursor.advanceBy_rest, left] at behind
    obtain ⟨word, cut, form⟩ := plain.exists_cut_here left (opensLayout_of_layoutLength behind) h
    refine ⟨c.rest.take n, word, ?_, blank, form⟩
    rw [← cut, Cursor.advanceBy_rest, List.take_append_drop]

/-- Before the end of the text there are but blanks. -/
theorem Plain.isBlank_of_end (plain : lx.Plain) (h : lx.token c = .ok .endOfText d) :
    ∀ y ∈ c.rest, Text.isBlank y = true := by
  obtain ⟨m, skipped, ⟨_, rfl, none⟩ | ⟨_, _, other, _⟩⟩ := token_ok h
  · obtain ⟨n, length⟩ := layoutLength_of_token plain.blanks h
    rw [skipLayout_some plain.blanks length] at skipped
    injection skipped with _ same
    rw [← same, Cursor.advanceBy_rest, List.drop_eq_nil_iff] at none
    rw [← List.take_of_length_le none]
    exact isBlank_of_layoutLength (plain.comments ▸ length)
  · cases other

/-- Every mark of a text is cut off it, before the character that the mark shows. -/
theorem Reads.exists_cut (plain : lx.Plain) {text : String} {ms : List Mark} (reads : lx.Reads text ms) :
    ∀ m ∈ ms, ∃ word rest, lx.Cut word m.lexeme rest ∧ rest.head? = m.behind := by
  have passages : ∀ {r s : Reading} {ms : List Mark}, Passage lx r ms s → ∀ {c : Cursor},
      lx.token c = .ok r.token r.cursor →
      ∀ m ∈ ms, ∃ word rest, lx.Cut word m.lexeme rest ∧ rest.head? = m.behind := by
    intro r s ms passage
    induction passage with
    | nil r => simp
    | @cons m ms r s t token behind next rest ih =>
      intro c read
      rw [token] at read
      obtain ⟨_, word, _, _, cut⟩ := plain.exists_cut read
      exact List.forall_mem_cons.mpr ⟨⟨word, r.cursor.rest, cut, behind⟩, ih (Parse.next_ok next)⟩
  obtain ⟨r, s, opened, passage, _⟩ := reads
  exact passages passage (openReading_eq_ok.mp opened).2

/-- A name among the marks of a text stands in the text. -/
theorem Reads.names_of_mem {text : String} {ms : List Mark} (reads : lx.Reads text ms) {m : Mark}
    (member : m ∈ ms) {name : String} (named : m.lexeme = .name name) : lx.Names text name := by
  -- the calls of the reader come to the marks one after the other
  have calls : ∀ {r s : Reading} {ms : List Mark}, Passage lx r ms s → ∀ {c : Cursor},
      lx.token c = .ok r.token r.cursor → ∀ m ∈ ms, ∃ n d, lx.nth n c = .ok m.token d := by
    intro r s ms passage
    induction passage with
    | nil r => simp
    | @cons m ms r s t token _ next _ ih =>
      intro c read
      refine List.forall_mem_cons.mpr ⟨⟨0, r.cursor, token ▸ read⟩, fun k member => ?_⟩
      obtain ⟨n, d, call⟩ := ih (Parse.next_ok next) k member
      exact ⟨n + 1, d, by rw [nth, Work.bind_of_ok read, call]⟩
  obtain ⟨r, s, opened, passage, _⟩ := reads
  obtain ⟨n, d, call⟩ := calls passage (openReading_eq_ok.mp opened).2 m member
  rw [Mark.token, named] at call
  exact ⟨n, m.place, d, call⟩

/-- Directly behind a lexeme a mark of one character is the next lexeme. -/
theorem Plain.lexeme_behind (plain : lx.Plain) {r s : Reading} {m n : Mark} {ms : List Mark}
    (passage : Passage lx r (m :: n :: ms) s) {x : Char} (marked : lx.mark x = some l)
    (behind : m.behind = some x) : n.lexeme = l := by
  obtain ⟨t, first, rest⟩ := Passage.step_iff.mp passage
  obtain ⟨more, left⟩ := List.head?_eq_some_iff.mp (first.behind_eq.trans behind)
  have read := Parse.next_ok (Parse.next_of_passage first)
  rw [rest.token_eq, Mark.token] at read
  exact ((plain.spells marked).eq_of_token left read).1

/-! ## One lexeme for two readers -/

/-- A reader that has the words and the marks of another one. -/
structure Extends (lx' lx : Lexis) : Prop where
  words : lx.words = true → lx'.words = true
  assign : lx.assign = true → lx'.assign = true
  limit : lx'.limit = lx.limit
  marks : ∀ {x : Char} {l : Lexeme}, lx.mark x = some l → lx'.mark x = some l
  /-- No other lexeme and no layout begins with a mark. -/
  apart : ∀ {x : Char} {l : Lexeme}, lx'.mark x = some l →
    Text.isLetter x = false ∧ Text.isDigit x = false ∧ lx'.opensLayout x = false

/-- What one reader cuts off another one reads as the same lexeme, if words mean the same to it, if no point
comes to belong to a number, and if the rest of the text begins as before or with a blank. -/
theorem Cut.spells (plain : lx.Plain) (wider : lx'.Extends lx) (h : lx.Cut word l rest)
    (meaning : lx.words = true → l = lx.wordLexeme word → lx'.wordLexeme word = l)
    (form : ∀ n, l = .literal n → lx'.numbers = .whole ∨ lx'.numbers = .decimal ∧ rest'.head? ≠ some '.')
    (ends : ∀ y ∈ rest'.head?, Text.isBlank y = true ∨ y ∈ rest.head?) : lx'.Spells word l rest' := by
  -- a blank ends words and numbers
  have stops : ∀ {p : Char → Bool}, (∀ y ∈ rest.head?, p y = false) →
      (∀ y, p y = true → Text.isNameChar y = true) → ∀ y ∈ rest'.head?, p y = false := by
    intro p stop names y member
    rcases ends y member with blank | same
    · rw [← Bool.not_eq_true]
      intro inside
      have name := names y inside
      rw [Text.isNameChar_of_isBlank blank] at name
      cases name
    · exact stop y same
  cases h with
  | word words letter all stop =>
    rw [← meaning words rfl]
    exact spells_word (wider.words words) (opensLayout_of_isNameChar (Text.isNameChar_of_isLetter letter))
      letter all (stops stop fun _ => id)
  | @whole x digits _ n all value short stop =>
    have layout := @opensLayout_of_isNameChar lx' x (Text.isNameChar_of_isDigit (all x List.mem_cons_self))
    exact spells_digits (form _ rfl) layout (Text.isLetter_of_decimalValue? value) all value
      (wider.limit ▸ short) (stops stop fun _ => Text.isNameChar_of_isDigit)
  | assign assign => exact spells_assign (wider.assign assign)
  | @mark x l _ marked =>
    obtain ⟨letter, digit, layout⟩ := wider.apart (wider.marks marked)
    refine spells_mark layout letter digit (wider.marks marked) ?_
    rintro rfl
    rw [plain.colon] at marked
    cases marked

end Lexis

/-! ## Rewritten texts -/

/-- A way to rewrite a text character by character: a blank stays, and any other character makes way for
some that begin with it or with a blank. -/
structure Rewriting where
  char : Char → List Char
  blank : ∀ {x : Char}, Text.isBlank x = true → char x = [x]
  opens : ∀ x : Char, ∃ y rest, char x = y :: rest ∧ (Text.isBlank y = true ∨ y = x)

/-- The rewritten text. -/
def Rewriting.text (ρ : Rewriting) (chars : List Char) : List Char := chars.flatMap ρ.char

namespace Rewriting

variable (ρ : Rewriting)

/-- Texts are rewritten part by part. -/
theorem text_append (first second : List Char) :
    ρ.text (first ++ second) = ρ.text first ++ ρ.text second := List.flatMap_append

/-- Characters that stay make up a text that stays. -/
theorem text_of_kept {chars : List Char} (kept : ∀ y ∈ chars, ρ.char y = [y]) : ρ.text chars = chars := by
  induction chars with
  | nil => rfl
  | cons x chars ih =>
    obtain ⟨first, more⟩ := List.forall_mem_cons.mp kept
    have rest := ih more
    rw [text] at rest ⊢
    rw [List.flatMap_cons, first, rest, List.singleton_append]

/-- Blanks stay. -/
theorem text_blanks {blanks : List Char} (h : ∀ y ∈ blanks, Text.isBlank y = true) :
    ρ.text blanks = blanks :=
  ρ.text_of_kept fun y member => ρ.blank (h y member)

/-- A rewritten text begins as the text does or with a blank, and so does what follows it if that begins
with a blank. -/
theorem head_text_append {behind : List Char} (blank : ∀ y ∈ behind.head?, Text.isBlank y = true)
    (chars : List Char) :
    ∀ y ∈ (ρ.text chars ++ behind).head?, Text.isBlank y = true ∨ y ∈ chars.head? := by
  intro y member
  cases chars with
  | nil => exact .inl (blank y member)
  | cons x chars =>
    obtain ⟨z, rest, begins, same⟩ := ρ.opens x
    rw [text, List.flatMap_cons, begins] at member
    cases member
    rcases same with blank | rfl
    · exact .inl blank
    · exact .inr rfl

end Rewriting

namespace Lexis

variable {lx lx' : Lexis}

/-- Blanks before a rendered text. -/
theorem Rendered.blanks {blanks text : List Char} {ls : List Lexeme}
    (blank : ∀ y ∈ blanks, Text.isBlank y = true) (h : lx.Rendered text ls) :
    lx.Rendered (blanks ++ text) ls := by
  induction blanks with
  | nil => exact h
  | cons x blanks ih =>
    obtain ⟨first, more⟩ := List.forall_mem_cons.mp blank
    exact .blank first (ih more)

/-- A word before a character that is in no name. -/
theorem Rendered.word (words : lx.words = true) {x y : Char} {word rest : List Char} {ls : List Lexeme}
    (letter : Text.isLetter x = true) (all : word.all Text.isNameChar = true)
    (ends : Text.isNameChar y = false) (h : lx.Rendered (y :: rest) ls) :
    lx.Rendered (x :: word ++ y :: rest) (lx.wordLexeme (x :: word) :: ls) := by
  have layout : lx.opensLayout x = false :=
    opensLayout_of_isNameChar (Text.isNameChar_of_isLetter letter)
  refine .lexeme (spells_word words layout letter (List.all_eq_true.mp all) ?_) h
  rintro z ⟨⟩
  exact ends

/-- A mark is carried over: wherever the one reader cuts its lexeme off, the other one finds the lexeme that
stands for it in the rewritten text, before anything that begins as the text did or with a blank. -/
def Carries (lx lx' : Lexis) (ρ : Rewriting) (image : Lexeme → Lexeme) (m : Mark) : Prop :=
  ∀ {word rest rest' : List Char} {ls : List Lexeme}, lx.Cut word m.lexeme rest → rest.head? = m.behind →
    (∀ y ∈ rest'.head?, Text.isBlank y = true ∨ y ∈ rest.head?) → lx'.Rendered rest' ls →
    lx'.Rendered (ρ.text word ++ rest') (image m.lexeme :: ls)

variable {ρ : Rewriting} {image : Lexeme → Lexeme} {behind : List Char} {ls : List Lexeme}

/-- Mark by mark, the lexemes on a passage to the end of a text are found again in the rewritten text. -/
theorem Plain.rendered (plain : lx.Plain) (blank : ∀ y ∈ behind.head?, Text.isBlank y = true)
    (ending : lx'.Rendered behind ls) {r s : Reading} {ms : List Mark} (passage : Passage lx r ms s)
    (last : s.token = .endOfText) (carried : ∀ m ∈ ms, lx.Carries lx' ρ image m) {c : Cursor}
    (read : lx.token c = .ok r.token r.cursor) :
    lx'.Rendered (ρ.text c.rest ++ behind) (ms.map (fun m => image m.lexeme) ++ ls) := by
  induction passage generalizing c with
  | nil r =>
    rw [last] at read
    have blanks := plain.isBlank_of_end read
    rw [ρ.text_blanks blanks]
    exact ending.blanks blanks
  | @cons m ms r s t token follows next rest ih =>
    rw [token] at read
    obtain ⟨blanks, word, cut, blank', form⟩ := plain.exists_cut read
    have later := ih last (fun n member => carried n (List.mem_cons_of_mem m member)) (Parse.next_ok next)
    rw [cut, ρ.text_append, ρ.text_append, ρ.text_blanks blank', List.append_assoc, List.append_assoc]
    refine Rendered.blanks blank' ?_
    exact carried m List.mem_cons_self form follows (ρ.head_text_append blank _) later

/-- The rewritten text spells the lexemes that stand for those of the text. -/
theorem Reads.rendered (plain : lx.Plain) (blank : ∀ y ∈ behind.head?, Text.isBlank y = true)
    (ending : lx'.Rendered behind ls) {text : String} {ms : List Mark} (reads : lx.Reads text ms)
    (carried : ∀ m ∈ ms, lx.Carries lx' ρ image m) :
    lx'.Rendered (ρ.text text.toList ++ behind) (ms.map (fun m => image m.lexeme) ++ ls) := by
  obtain ⟨r, s, opened, passage, last⟩ := reads
  exact plain.rendered blank ending passage last carried (openReading_eq_ok.mp opened).2

end Lexis

end LittlePascal
