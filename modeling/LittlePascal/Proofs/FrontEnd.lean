import LittlePascal.Proofs.ScopeAnalyses
import LittlePascal.Proofs.Containment
import LittlePascal.Proofs.Depiction
import LittlePascal.Proofs.Resumption

/-! # Faults of the front end

In the last edition a text whose comments are closed and whose digits all have a decimal value can fail in
few ways only. Reading it yields a program, or fails at a character, at a token or at a run of more digits than a
limit allows; the analysis of the program succeeds, or fails at a name; and the program can always be drawn.
Nothing else goes wrong: no digit is without a value, no budget is used up, no node is unknown, no scope is
missing.

Main definitions: `Cursor.Tidy`, `Fault.IsReading`.

Main statements: `Lexis.Full.kept`, `front_end_contained`. -/

namespace LittlePascal

/-! ## Digits with a value -/

/-- Digits that all have a value have one together. -/
theorem Text.exists_decimalValue {digits : List Char} (nonempty : digits ≠ [])
    (valued : ∀ c ∈ digits, (digitValue? c).isSome = true) : ∃ n, decimalValue? digits = some n := by
  have step : ∀ (rest : List Char) (value : Nat), (∀ c ∈ rest, (digitValue? c).isSome = true) →
      ∃ n, rest.foldl (fun value? c => value?.bind fun value => (digitValue? c).map (10 * value + ·))
        (some value) = some n := by
    intro rest
    induction rest with
    | nil => exact fun value _ => ⟨value, rfl⟩
    | cons c rest ih =>
      intro value valued
      rw [List.forall_mem_cons] at valued
      obtain ⟨digit, found⟩ := Option.isSome_iff_exists.mp valued.1
      rw [List.foldl_cons, found]
      exact ih _ valued.2
  cases digits with
  | nil => exact absurd rfl nonempty
  | cons c rest =>
    rw [List.forall_mem_cons] at valued
    obtain ⟨digit, found⟩ := Option.isSome_iff_exists.mp valued.1
    rw [decimalValue?, found]
    exact step rest digit valued.2

/-- Every digit of a text has a decimal value. -/
def Text.Decimal (text : List Char) : Prop :=
  ∀ c ∈ text, Text.isDigit c = true → (Text.digitValue? c).isSome = true

/-- A run of so many decimal digits stands in a text. -/
def Text.HasRun (text : List Char) (count : Nat) : Prop :=
  ∃ before run after, text = before ++ run ++ after ∧ run.length = count ∧
    ∀ c ∈ run, (Text.digitValue? c).isSome = true

/-- What stands in the rest of a text stands in the text. -/
theorem Text.HasRun.of_suffix {text rest : List Char} {count : Nat} (h : HasRun rest count)
    (suffix : rest <:+ text) : HasRun text count := by
  obtain ⟨before, run, after, rfl, length, all⟩ := h
  obtain ⟨first, rfl⟩ := suffix
  exact ⟨first ++ before, run, after, by simp only [List.append_assoc], length, all⟩

/-- The fault of a run of digits in a text that is longer than a limit allows. -/
def Fault.IsLimit (limit : DigitLimit) (text : List Char) (fault : Fault) : Prop :=
  ∃ count, fault = .malformedWhole (.tooLong limit.most count) ∧ limit.allows count = false ∧
    Text.HasRun text count

/-- A number that begins with a digit is read where all digits have a value, unless there are too many. -/
theorem Scan.decimal_of_valued {limit : DigitLimit} {c : Cursor} {x : Char} {rest : List Char}
    (left : c.rest = x :: rest) (digit : Text.isDigit x = true) (decimal : Text.Decimal c.rest) :
    (∃ l d, Scan.decimal limit c = .ok l d) ∨
      ∃ fault d, Scan.decimal limit c = .error fault d ∧ fault.IsLimit limit c.rest := by
  obtain ⟨digits, behind, rfl, all, ends⟩ := Lexis.exists_run Text.isDigit rest
  have all : ∀ y ∈ x :: digits, Text.isDigit y = true := List.forall_mem_cons.mpr ⟨digit, all⟩
  rw [left] at decimal
  have valued : ∀ y ∈ x :: digits, (Text.digitValue? y).isSome = true := fun y member =>
    decimal y (List.mem_append_left behind member) (all y member)
  by_cases point : behind.head? = some '.'
  · obtain ⟨behind, rfl⟩ := List.head?_eq_some_iff.mp point
    obtain ⟨after, behind, rfl, all', ends⟩ := Lexis.exists_run Text.isDigit behind
    have valued' : ∀ y ∈ x :: digits ++ after, (Text.digitValue? y).isSome = true := by
      intro y member
      rcases List.mem_append.mp member with inside | inside
      · exact valued y inside
      · exact decimal y (by simp [inside]) (all' y inside)
    obtain ⟨n, value⟩ := Text.exists_decimalValue (by simp) valued'
    rw [Scan.decimal_real left all all' ends]
    simp only [Scan.realOf, value]
    exact .inl ⟨_, _, rfl⟩
  · obtain ⟨n, value⟩ := Text.exists_decimalValue (List.cons_ne_nil x digits) valued
    have stops : ∀ y ∈ behind.head?, Text.isDigit y = false ∧ y ≠ '.' := by
      refine fun y member => ⟨ends y member, ?_⟩
      rintro rfl
      exact point member
    rw [Scan.decimal_whole left all stops]
    cases short : limit.allows (x :: digits).length with
    | true => exact .inl ⟨_, _, Work.bind_of_ok (Scan.wholeOf_of_value value short _)⟩
    | false =>
      have counted := Text.leadingDecimals_of_decimalValue? value
      refine .inr ⟨_, _, Work.bind_of_error (Scan.wholeOf_of_long (by rw [counted, short]) _), ?_⟩
      rw [counted]
      exact ⟨_, rfl, short, [], x :: digits, behind, left, rfl, valued⟩

/-! ## Readings of tidy texts -/

/-- What is left of a text has closed comments, and its digits have values. -/
structure Cursor.Tidy (text : List Char) (c : Cursor) : Prop where
  suffix : c.rest <:+ text
  closed : commentsClosed false c.rest = true
  decimal : Text.Decimal c.rest

/-- A fault at a character that begins no lexeme, or at a token that the grammar does not allow. -/
def Fault.IsReading (fault : Fault) : Prop :=
  (∃ x place, fault = .character x place) ∨ ∃ t, fault = .unexpected t

namespace Lexis

variable {lx : Lexis} {text : List Char} {c : Cursor}

/-- Behind a call the text is tidy as well. -/
theorem Full.tidy_behind (full : lx.Full) (tidy : c.Tidy text) :
    (Scan.behind (lx.token c)).Tidy text := by
  obtain ⟨layout, passed, _, _, split⟩ := full.token_passes tidy.closed
  have later : (Scan.behind (lx.token c)).rest <:+ c.rest :=
    ⟨layout ++ passed, by rw [List.append_assoc, ← split]⟩
  exact ⟨later.trans tidy.suffix, full.commentsClosed_behind tidy.closed,
    fun y member => tidy.decimal y (later.subset member)⟩

/-- In a tidy text a call fails at a character, or at too many digits. -/
theorem Full.token_error_of_tidy (full : lx.Full) (tidy : c.Tidy text) {fault : Fault} {d : Cursor}
    (failed : lx.token c = .error fault d) : fault.IsReading ∨ fault.IsLimit lx.limit text := by
  obtain ⟨n, x, rest, left, failed, blames⟩ := full.token_error tidy.closed failed
  have number (letter : Text.isLetter x = false) (digit : Text.isDigit x = true) :
      fault.IsLimit lx.limit text := by
    have later : (c.advanceBy n).rest <:+ c.rest := by
      rw [Cursor.advanceBy_rest]
      exact List.drop_suffix n c.rest
    have decimal : Text.Decimal (c.advanceBy n).rest :=
      fun y member => tidy.decimal y (later.subset member)
    rcases Scan.decimal_of_valued left digit decimal with ⟨l, e, read⟩ | ⟨_, e, refused, count, same, long, run⟩
    · rw [full.token_digit left letter digit, Work.bind_of_ok read] at failed
      cases failed
    · rw [full.token_digit left letter digit, Work.bind_of_error refused] at failed
      cases failed
      exact ⟨count, same, long, run.of_suffix (later.trans tidy.suffix)⟩
  cases blames with
  | whole _ letter digit => exact .inr (number letter digit)
  | long _ letter digit _ => exact .inr (number letter digit)
  | real _ letter digit => exact .inr (number letter digit)
  | character => exact .inl (.inl ⟨_, _, rfl⟩)

end Lexis

/-- The remaining text is tidy, and faults come from reading or from a limit. -/
def Watch.tidy (limit : DigitLimit) (text : List Char) : Watch where
  fine r := r.cursor.Tidy text
  known fault := fault.IsReading ∨ fault.IsLimit limit text
  names _ := True

/-- The reader keeps it so. -/
theorem Lexis.Full.kept_tidy {lx : Lexis} (full : lx.Full) (text : List Char) :
    (Watch.tidy lx.limit text).Kept lx where
  next {r s u} tidy read := by
    have behind := full.tidy_behind tidy
    rwa [Parse.next_ok read] at behind
  fails {r s fault} tidy failed := by
    obtain ⟨d, error⟩ := Parse.next_error failed
    exact full.token_error_of_tidy tidy error
  refuses t := .inl (.inr ⟨t, rfl⟩)
  names _ _ := trivial

/-! ## Texts of the last edition -/

/-- A text that is not empty is read from its first token on. -/
theorem Lexis.openReading_of_ne {lx : Lexis} {text : String} (nonempty : text ≠ "") :
    lx.openReading text =
      match lx.token (.start text.toList) with
      | .ok token cursor => .ok ⟨token, cursor⟩
      | .error fault _ => .error fault := by
  rw [openReading, openText_of_ne nonempty]
  rfl

/-- A tidy text yields a program, or fails at a character, a token or too many digits. -/
theorem parsed_or_refused (limit : DigitLimit) {text : String} (nonempty : text ≠ "")
    (closed : commentsClosed false text.toList = true) (decimal : Text.Decimal text.toList) :
    (∃ p reading, Edition.calls.Accepts text (.program p) reading limit) ∨
      ∃ fault, ((Edition.calls.lexis limit).attempt (Edition.calls.grammar limit).parse text).result =
          .error fault ∧ (fault.IsReading ∨ fault.IsLimit limit text.toList) := by
  have full : (Edition.calls.lexis limit).Full := Edition.full_lexis rfl
  have tidy : (Cursor.start text.toList).Tidy text.toList := ⟨List.suffix_rfl, closed, decimal⟩
  have opened := @Lexis.openReading_of_ne (Edition.calls.lexis limit) text nonempty
  cases read : (Edition.calls.lexis limit).token (.start text.toList) with
  | error fault d =>
    rw [read] at opened
    refine .inr ⟨fault, ?_, full.token_error_of_tidy tidy read⟩
    rw [Lexis.attempt, opened]
    rfl
  | ok token cursor =>
    rw [read] at opened
    have fine : cursor.Tidy text.toList := by
      have behind := full.tidy_behind tidy
      rwa [read] at behind
    rcases Grammar.attempt_contained (g := Edition.calls.grammar limit) (full.kept_tidy _) rfl rfl opened
      fine with ⟨fault, s, failed, known⟩ | ⟨p, s, done, _⟩
    · exact .inr ⟨fault, by rw [show (Edition.calls.lexis limit).attempt _ _ = _ from failed]; rfl, known⟩
    · exact .inl ⟨p, s, done⟩

/-- The analysis of a program that was read succeeds, or fails at a name. -/
theorem analysed_or_refused {limit : DigitLimit} {text : String} {tree : Node} {reading : Reading}
    {logs : Bool} {analysis : Analysis} (accepted : Edition.calls.Accepts text tree reading limit)
    (found : Edition.calls.analysis? logs = some analysis) :
    (∃ survey, analysis.node tree analysis.initial = .ok () survey) ∨
      ∃ fault survey, analysis.node tree analysis.initial = .error fault survey ∧ fault.IsNaming := by
  obtain ⟨p, rfl, orderly⟩ := orderly_of_attempt accepted
  cases found
  have settles := @Scoped.program_settles ⟨true, logs⟩ ⟨[], #[]⟩ rfl p
    orderly.declarations.regular orderly.body rfl
  cases outcome : Scoped.program ⟨true, logs⟩ p ⟨[], #[]⟩ with
  | ok u st => exact .inl ⟨_, Survey.onScopes_of_ok outcome⟩
  | error fault st =>
    refine .inr ⟨fault, _, Survey.onScopes_of_error outcome, ?_⟩
    exact Program.isNaming_of_mem_violations (List.mem_of_mem_head? (settles.error_iff.mp ⟨st, outcome⟩))

/-- A tree that was read can be drawn, since no operand is left out of it. -/
theorem Edition.draw_of_accepts {e : Edition} (statements : e.hasStatements = true) {limit : DigitLimit}
    {text : String} {tree : Node} {reading : Reading} (accepted : e.Accepts text tree reading limit) :
    ∃ number drawing, e.draw (.node tree) .blank = .ok number drawing := by
  have fits : tree.Fits (e.grammar limit) := Grammar.fits_of_attempt accepted
  have drawable := fits.drawable (show (!e.hasStatements) = false by rw [statements]; rfl)
  have later : e ≠ .trees := by
    rintro rfl
    cases statements
  rw [draw, if_neg later, Fragment.figure, Drawing.figure_eq drawable tree.numbered]
  exact ⟨_, _, rfl⟩

/-- In the last edition, a text that is not empty, whose comments are closed and whose digits all have a
decimal value yields a program, or is refused at a character or at a token, or at a run of digits in it that is
longer than a limit allows. Whatever tree a text yields, its analysis succeeds, or is refused at a name, whether
it writes lines or not; and the tree can be drawn. -/
theorem front_end_contained (limit : DigitLimit) {text : String} (nonempty : text ≠ "")
    (closed : commentsClosed false text.toList = true) (decimal : Text.Decimal text.toList) :
    ((∃ p reading, Edition.calls.Accepts text (.program p) reading limit) ∨
      ∃ fault, ((Edition.calls.lexis limit).attempt (Edition.calls.grammar limit).parse text).result =
          .error fault ∧ (fault.IsReading ∨ fault.IsLimit limit text.toList)) ∧
    ∀ tree reading, Edition.calls.Accepts text tree reading limit →
      (∀ logs, ∃ analysis, Edition.calls.analysis? logs = some analysis ∧
        ((∃ survey, analysis.node tree analysis.initial = .ok () survey) ∨
          ∃ fault survey, analysis.node tree analysis.initial = .error fault survey ∧ fault.IsNaming)) ∧
      ∃ number drawing, Edition.calls.draw (.node tree) .blank = .ok number drawing := by
  refine ⟨parsed_or_refused limit nonempty closed decimal, fun tree reading accepted => ⟨fun logs => ?_, ?_⟩⟩
  · exact ⟨_, rfl, analysed_or_refused accepted rfl⟩
  · exact Edition.draw_of_accepts rfl accepted

/-- A decimal digit of another script, in a program with a name that is declared nowhere. -/
theorem front_end_contained_other_script :
    let text := "PROGRAM p; \x7b9\x7d BEGIN a := ٣ + 1.5 END."
    text ≠ "" ∧ commentsClosed false text.toList = true ∧ Text.Decimal text.toList ∧
    ((∃ p reading, Edition.calls.Accepts text (.program p) reading) ∨
      ∃ fault, (Edition.calls.lexis.attempt Edition.calls.grammar.parse text).result = .error fault ∧
        (fault.IsReading ∨ fault.IsLimit .off text.toList)) ∧
    ∃ tree reading, Edition.calls.Accepts text tree reading ∧
      (∃ analysis, Edition.calls.analysis? true = some analysis ∧
        ((∃ survey, analysis.node tree analysis.initial = .ok () survey) ∨
          ∃ fault survey, analysis.node tree analysis.initial = .error fault survey ∧ fault.IsNaming)) ∧
      ∃ number drawing, Edition.calls.draw (.node tree) .blank = .ok number drawing := by
  intro text
  have nonempty : text ≠ "" := by decide
  have closed : commentsClosed false text.toList = true := by decide
  have decimal : Text.Decimal text.toList := by
    have all : text.toList.all (fun c => !Text.isDigit c || (Text.digitValue? c).isSome) = true := by
      decide +kernel
    intro c member digit
    have known := List.all_eq_true.mp all c member
    rwa [digit] at known
  obtain ⟨parsed, later⟩ := front_end_contained .off nonempty closed decimal
  have yields : Edition.calls.yields text (fun _ => true) = true := by decide +kernel
  obtain ⟨tree, reading, accepted, _⟩ := Edition.exists_accepts yields
  obtain ⟨analysed, drawn⟩ := later tree reading accepted
  exact ⟨nonempty, closed, decimal, parsed, tree, reading, accepted, analysed true, drawn⟩

end LittlePascal
