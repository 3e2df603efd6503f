import LittlePascal.Generate.Program
import LittlePascal.Proofs.Joining

/-! # The text of generated programs

A generated program is written line by line. Here every line is cut into segments: layout and a lexeme in the
letters of the plan. All the lexemes are known to the editions that the plan is meant for, so in each of them the
text is read back as these lexemes.

Main definitions: `ProgramPlan.editions`, `ProgramPlan.segments`.

Main statements: `ProgramPlan.toList_text`, `ProgramPlan.written_segments`, `ProgramPlan.exists_reads`. -/

namespace LittlePascal.Generate.ProgramPlan

variable (p : ProgramPlan)

/-! ## Segments -/

/-- The editions that a plan is meant for: those with parameters if the procedure has some, those that read
reserved words in small letters if they are written so, and those with procedures if there is one. -/
def editions : List Edition :=
  if p.procedure && p.parameters then [.scopes, .places, .calls]
  else if !p.capitals then [.checks, .scopes, .places, .calls]
  else if p.procedure then [.procedures, .checks, .scopes, .places, .calls]
  else [.declarations, .symbols, .procedures, .checks, .scopes, .places, .calls]

/-- How a lexeme is written in the letters of the plan. -/
def written : Lexeme → String
  | .reserved r => p.word r
  | .operator .div => p.letters Operator.div.spelling
  | l => l.spelling

/-- A lexeme in the letters of the plan, with layout before it. -/
def segment (layout : String) (l : Lexeme) : Segment := ⟨layout.toList, (p.written l).toList, l⟩

/-- A real number, which is written as a word and stands for a fraction, with a space before it. -/
def real (word : String) (num den : Nat) : Segment :=
  ⟨[' '], word.toList, .literal (.real (Number.nearest num den))⟩

/-- Names with commas between them. -/
def nameSegments : List String → List Segment
  | name :: next :: rest =>
    p.segment " " (.name name) :: p.segment "" (.punctuation .comma) :: nameSegments (next :: rest)
  | [name] => [p.segment " " (.name name)]
  | [] => []

/-- The header, with the comment before it. -/
def headerLine : List Segment :=
  [p.segment "\x7b generated \x7d\n" (.reserved .program), p.segment " " (.name "Bench"),
   p.segment "" (.punctuation .semicolon)]

/-- The whole variables. -/
def wholesLine : List Segment :=
  p.segment "\n   " (.reserved .var) :: (p.nameSegments p.declaredNames ++
    [p.segment " " (.punctuation .colon), p.segment " " (.reserved .integerType),
     p.segment "" (.punctuation .semicolon)])

/-- The real variables. -/
def realsLine : List Segment :=
  [p.segment "\n   " (.name "r1"), p.segment "" (.punctuation .comma), p.segment " " (.name "r2"),
   p.segment " " (.punctuation .colon), p.segment " " (.reserved .realType),
   p.segment "" (.punctuation .semicolon)]

/-- The parameters of the procedure. -/
def parameterSegments : List Segment :=
  if p.parameters then
    [p.segment "" (.punctuation .leftParen), p.segment "" (.name "a"), p.segment "" (.punctuation .comma),
     p.segment " " (.name "b"), p.segment " " (.punctuation .colon), p.segment " " (.reserved .integerType),
     p.segment "" (.punctuation .semicolon), p.segment " " (.name "c"), p.segment " " (.punctuation .colon),
     p.segment " " (.reserved .realType), p.segment "" (.punctuation .rightParen)]
  else []

/-- The value that is assigned in the procedure. -/
def innerValue : List Segment :=
  if p.parameters then
    [p.segment " " (.name "a"), p.segment " " (.operator .plus), p.segment " " (.name "b"),
     p.segment " " (.operator .minus), p.segment " " (.name "c")]
  else [p.segment " " (.literal (.whole 1))]

/-- The procedure, if there is one. -/
def procedureSegments : List (List Segment) :=
  if p.procedure then
    [p.segment "\n" (.reserved .procedure) :: p.segment " " (.name "P1") ::
       (p.parameterSegments ++ [p.segment "" (.punctuation .semicolon)]),
     [p.segment "\n" (.reserved .var), p.segment " " (.name "q"), p.segment " " (.punctuation .colon),
      p.segment " " (.reserved .integerType), p.segment "" (.punctuation .semicolon)],
     [p.segment "\n" (.reserved .beginBlock)],
     p.segment "\n   " (.name "q") :: p.segment " " (.punctuation .assign) :: p.innerValue,
     [p.segment "\n" (.reserved .endBlock), p.segment "" (.punctuation .semicolon)]]
  else []

/-- The statement that gives the variable with a number its value. -/
def assignmentSegments (i : Nat) : List Segment :=
  [p.segment "\n   " (.name (variableName i)), p.segment " " (.punctuation .assign),
   p.segment " " (.operator .plus), p.segment "" (.name (variableName (i - 1))), p.segment " " (.operator .minus),
   p.segment " " (.punctuation .leftParen), p.segment "" (.operator .minus), p.segment "" (.literal (.whole 2)),
   p.segment "" (.punctuation .rightParen), p.segment " " (.operator .plus), p.segment " " (.literal (.whole i)),
   p.segment " " (.operator .times), p.segment " " (.literal (.whole 2)), p.segment " " (.operator .div),
   p.segment " " (.literal (.whole 3)), p.segment " " (.operator .minus), real "1.5" 15 10,
   p.segment " " (.operator .slash), real "0.5" 5 10, p.segment "" (.punctuation .semicolon)]

/-- The statements of the body, from the first to the last. -/
def statementSegments : List (List Segment) :=
  [[p.segment "\n   " (.name (variableName 0)), p.segment " " (.punctuation .assign),
    p.segment " " (.literal (.whole 10)), p.segment "" (.punctuation .semicolon)],
   [p.segment "\n   " (.name "r1"), p.segment " " (.punctuation .assign), real "3.14" 314 100,
    p.segment "" (.punctuation .semicolon)]] ++
  (List.range (p.statements.toNat - 1)).map (fun k => p.assignmentSegments (k + 1)) ++
  [[p.segment "\n   " (.reserved .beginBlock)],
   [p.segment "\n      " (.name "r2"), p.segment " " (.punctuation .assign), p.segment " " (.name "r1"),
    p.segment " " (.operator .times), real "2.0" 20 10],
   [p.segment "\n   " (.reserved .endBlock), p.segment "" (.punctuation .semicolon)]]

/-- The lines behind the header. -/
def segmentLines : List (List Segment) :=
  [p.wholesLine, p.realsLine] ++ p.procedureSegments ++ [[p.segment "\n" (.reserved .beginBlock)]] ++
  p.statementSegments ++ [[p.segment "\n" (.reserved .endBlock), p.segment "" (.punctuation .dot)]]

/-- The segments of the text. -/
def segments : List Segment := p.headerLine ++ p.segmentLines.flatten

/-! ## The text of the segments -/

/-- Behind the end of a line, a text of lines is what they are with their ends before them, and a last end. -/
theorem newline_cons_join (lines : List String) :
    '\n' :: (String.join (lines.map (· ++ "\n"))).toList =
      (lines.map fun line => '\n' :: line.toList).flatten ++ ['\n'] := by
  rw [String.toList_join]
  induction lines with
  | nil => rfl
  | cons line rest ih => simp [← ih]

@[simp] theorem chars_segment (layout : String) (l : Lexeme) :
    (p.segment layout l).chars = layout.toList ++ (p.written l).toList := rfl

@[simp] theorem layout_segment (layout : String) (l : Lexeme) : (p.segment layout l).layout = layout.toList := rfl

@[simp] theorem lexeme_segment (layout : String) (l : Lexeme) : (p.segment layout l).lexeme = l := rfl

@[simp] theorem lexeme_real (word : String) (num den : Nat) :
    (real word num den).lexeme = .literal (.real (Number.nearest num den)) := rfl

@[simp] theorem chars_real (word : String) (num den : Nat) : (real word num den).chars = ' ' :: word.toList := rfl

@[simp] theorem written_reserved (r : Reserved) : p.written (.reserved r) = p.word r := rfl

@[simp] theorem written_div : p.written (.operator .div) = p.letters "DIV" := rfl

@[simp] theorem written_times : p.written (.operator .times) = "*" := rfl

@[simp] theorem written_slash : p.written (.operator .slash) = "/" := rfl

@[simp] theorem written_plus : p.written (.operator .plus) = "+" := rfl

@[simp] theorem written_minus : p.written (.operator .minus) = "-" := rfl

@[simp] theorem written_name (s : String) : p.written (.name s) = s := rfl

@[simp] theorem written_punctuation (q : Punctuation) : p.written (.punctuation q) = q.spelling := rfl

@[simp] theorem toList_written_whole (n : Nat) :
    (p.written (.literal (.whole n))).toList = Nat.toDigits 10 n :=
  Lexeme.toList_spelling_whole n

/-- The text of names. -/
theorem text_nameSegments (name : String) (rest : List String) :
    Segment.text (p.nameSegments (name :: rest)) = ' ' :: (", ".intercalate (name :: rest)).toList := by
  rw [String.toList_intercalate]
  induction rest generalizing name with
  | nil => simp [nameSegments]
  | cons next rest ih =>
    simp only [List.map_cons, List.intercalate_cons_cons] at ih ⊢
    rw [nameSegments, Segment.text_cons, Segment.text_cons, ih]
    simp [Punctuation.spelling]

/-- There are always variables. -/
theorem exists_declaredNames : ∃ name rest, p.declaredNames = name :: rest := by
  refine List.exists_cons_of_ne_nil ?_
  rw [declaredNames, ne_eq, List.map_eq_nil_iff, List.range_eq_nil]
  split <;> omega

/-- The lines of the declarations. -/
theorem text_declarations : p.declarationLines.map (fun line => '\n' :: line.toList) =
    [p.wholesLine, p.realsLine].map Segment.text := by
  obtain ⟨name, rest, names⟩ := p.exists_declaredNames
  simp [declarationLines, wholesLine, realsLine, names, text_nameSegments, Punctuation.spelling]

/-- The lines of the procedure. -/
theorem text_procedure : p.procedureLines.map (fun line => '\n' :: line.toList) =
    p.procedureSegments.map Segment.text := by
  cases declared : p.procedure with
  | false => simp [procedureLines, procedureSegments, declared]
  | true =>
    cases given : p.parameters <;>
      simp [procedureLines, procedureSegments, procedureHeading, parameterSegments, innerValue, declared, given,
        Punctuation.spelling, Nat.toDigits_of_lt_base]

/-- The line of an assignment. -/
theorem text_assignment (i : Nat) :
    '\n' :: (p.assignmentLine i).toList = Segment.text (p.assignmentSegments i) := by
  simp [assignmentLine, assignmentSegments, Punctuation.spelling, Operator.spelling, Nat.toDigits_of_lt_base]

/-- The lines behind the header. -/
def laterLines : List String :=
  p.declarationLines ++ p.procedureLines ++ [p.word .beginBlock, "   v0 := 10;", "   r1 := 3.14;"] ++
  p.assignmentLines ++ ["   " ++ p.word .beginBlock, "      r2 := r1 * 2.0", "   " ++ p.word .endBlock ++ ";"] ++
  [p.word .endBlock ++ "."]

/-- The lines behind the header are those of their segments. -/
theorem text_laterLines :
    p.laterLines.map (fun line => '\n' :: line.toList) = p.segmentLines.map Segment.text := by
  have assignments : p.assignmentLines.map (fun line => '\n' :: line.toList) =
      (List.range (p.statements.toNat - 1)).map fun k => Segment.text (p.assignmentSegments (k + 1)) := by
    rw [assignmentLines, List.map_map]
    exact List.map_congr_left fun k _ => p.text_assignment (k + 1)
  have ten : Nat.toDigits 10 10 = ['1', '0'] := rfl
  simp only [laterLines, List.map_append, p.text_declarations, p.text_procedure, assignments, segmentLines,
    statementSegments]
  simp [ten, variableName, Punctuation.spelling, Nat.toDigits_of_lt_base]

/-- The text is that of its segments, with the end of the last line behind it. -/
theorem toList_text : p.text.toList = Segment.text p.segments ++ ['\n'] := by
  have lines : p.lines ++ [] ++ [p.word .endBlock ++ "."] =
      "\x7b generated \x7d" :: (p.word .program ++ " Bench;") :: p.laterLines := by
    simp [ProgramPlan.lines, laterLines]
  -- only the header, with the comment before it, does not begin behind the end of a line
  have header : ("\x7b generated \x7d\n" ++ (p.word .program ++ " Bench;")).toList = Segment.text p.headerLine := by
    simp [headerLine, Punctuation.spelling]
  have later := newline_cons_join p.laterLines
  rw [text_laterLines, ← Segment.text_flatten] at later
  rw [text, textWith, lines, segments, Segment.text_append, List.append_assoc, ← later, ← header]
  simp

/-! ## The lexemes in the editions of the plan -/

/-- An edition has what a program of the plan is written with. -/
structure Suits (e : Edition) : Prop where
  declares : e.hasDeclarations = true
  letters : p.capitals = true ∨ e.foldsCase = true
  procedures : p.procedure = true → e ≠ .declarations ∧ e ≠ .symbols
  parameters : p.procedure = true → p.parameters = true → e.hasParameters = true

variable {p} {e : Edition}

/-- The editions of a plan have what it needs. -/
theorem suits_of_mem_editions (member : e ∈ p.editions) : p.Suits e := by
  obtain ⟨statements, procedure, parameters, capitals⟩ := p
  have all : ∀ procedure parameters capitals : Bool, ∀ e ∈ editions ⟨0, procedure, parameters, capitals⟩,
      e.hasDeclarations = true ∧ (capitals = true ∨ e.foldsCase = true) ∧
        (procedure = true → e ≠ .declarations ∧ e ≠ .symbols) ∧
        (procedure = true → parameters = true → e.hasParameters = true) := by
    decide
  obtain ⟨declares, letters, procedures, parameters⟩ := all procedure parameters capitals e member
  exact ⟨declares, letters, procedures, parameters⟩

/-- Words with digits in them are names. -/
theorem wordLexeme_of_digit {word : List Char} {x : Char} (member : x ∈ word) (digit : x.isDigit = true) :
    e.lexis.wordLexeme word = .name (String.ofList word) := by
  have digits : ∀ n < 58, 48 ≤ n → Text.capitalOf (Char.ofNat n) = [Char.ofNat n] := by decide
  have letters : ∀ entry ∈ e.reserved, ∀ y ∈ entry.1.toList, y.isDigit = false := by
    have all : (e.reserved.all fun entry => entry.1.toList.all fun y => !y.isDigit) = true := by
      cases e <;> decide
    intro entry among y inside
    simpa using List.all_eq_true.mp (List.all_eq_true.mp all entry among) y inside
  -- the digit is still there in capitals, and no reserved word has one
  have capital : Text.capitalOf x = [x] := by
    simp only [Char.isDigit, Bool.and_eq_true, decide_eq_true_eq] at digit
    have lower : 48 ≤ x.toNat := digit.1
    have upper : x.toNat ≤ 57 := digit.2
    have same := digits x.toNat (by omega) lower
    rwa [Char.ofNat_toNat] at same
  have kept : x ∈ if e.foldsCase then Text.capitals word else word := by
    split
    · exact List.mem_flatMap.mpr ⟨x, member, by rw [capital]; exact List.mem_singleton_self x⟩
    · exact member
  have none : e.reserved.lookup (String.ofList (if e.foldsCase then Text.capitals word else word)) = none := by
    rw [List.lookup_eq_none_iff]
    intro entry among
    rw [bne_iff_ne]
    rintro same
    have other := letters entry among x (by rw [← same, String.toList_ofList]; exact kept)
    rw [digit] at other
    cases other
  have found : (e.reserved.lookup (String.ofList (if e.foldsCase then Text.capitals word else word))).getD
      (.name (String.ofList word)) = .name (String.ofList word) := by
    rw [none, Option.getD_none]
  exact found

/-- A word in the letters of the plan. -/
theorem toList_letters (s : String) :
    (p.letters s).toList = if p.capitals then s.toList else s.toList.map Char.toLower := by
  rw [letters]
  split
  · rfl
  · exact String.toList_map

/-- What stands before the lexemes: the comment, or blanks. -/
def layouts : List String := ["\x7b generated \x7d\n", "", " ", "\n", "\n   ", "\n      "]

theorem mem_layouts : "\x7b generated \x7d\n" ∈ layouts ∧ "" ∈ layouts ∧ " " ∈ layouts ∧ "\n" ∈ layouts ∧
    "\n   " ∈ layouts ∧ "\n      " ∈ layouts := by
  decide

/-- All this is layout. -/
theorem isLayout_of_mem {layout : String} (listed : layout ∈ layouts) : IsLayout layout.toList := by
  have comment : IsLayout "\x7b generated \x7d\n".toList :=
    @IsLayout.comment " generated ".toList ['\n'] (by decide) (.blank rfl .nil)
  have blanks : ∀ {chars : List Char}, chars.all Text.isBlank = true → IsLayout chars := by
    intro chars all
    induction chars with
    | nil => exact .nil
    | cons x rest ih =>
      rw [List.all_cons, Bool.and_eq_true] at all
      exact .blank all.1 (ih all.2)
  -- behind the comment the list has blanks only
  have others : ∀ layout ∈ layouts.tail, layout.toList.all Text.isBlank = true := by decide
  rcases List.mem_cons.mp listed with rfl | listed
  · exact comment
  · exact blanks (others layout listed)

section Written

variable (suits : p.Suits e) {layout : String} (listed : layout ∈ layouts)
include listed

/-- A whole number is written with its digits. -/
theorem written_whole (n : Nat) : (p.segment layout (.literal (.whole n))).Written e.lexis := by
  rw [segment, toList_written_whole]
  exact .whole (isLayout_of_mem listed) rfl n

/-- A name with a number is written as it is: the number tells it from the reserved words. -/
theorem written_variable (i : Nat) : (p.segment layout (.name (variableName i))).Written e.lexis := by
  have chars : (variableName i).toList = 'v' :: Nat.toDigits 10 i := by simp [variableName]
  have digits : ∀ y ∈ Nat.toDigits 10 i, y.isDigit = true :=
    fun y => Nat.isDigit_of_mem_toDigits (by decide) (by decide)
  obtain ⟨x, rest, some⟩ := List.exists_cons_of_ne_nil (Nat.toDigits_ne_nil (b := 10) (n := i))
  have first : x ∈ (variableName i).toList := by simp [chars, some]
  refine .word (isLayout_of_mem listed) ?_ ?_ ?_ fun _ => rfl
  · rw [written_name, chars]
    rfl
  · rw [written_name, chars, List.all_cons, Bool.and_eq_true, List.all_eq_true]
    refine ⟨by decide, fun y member => Text.isNameChar_of_isDigit ?_⟩
    rw [Text.isDigit, (Text.isDigit_facts (digits y member)).1]
    rfl
  · rw [written_name, wordLexeme_of_digit first (digits x (by simp [some])), String.ofList_toList]

/-- The other names are no reserved words either. -/
theorem written_ident {s : String} (known : s ∈ ["Bench", "P1", "q", "a", "b", "c", "r1", "r2"]) :
    (p.segment layout (.name s)).Written e.lexis := by
  have all : ∀ e ∈ Edition.all, ∀ s ∈ ["Bench", "P1", "q", "a", "b", "c", "r1", "r2"],
      s.toList.head?.any Text.isLetter = true ∧ s.toList.all Text.isNameChar = true ∧
        e.lexis.wordLexeme s.toList = .name s := by
    decide +kernel
  obtain ⟨begins, chars, same⟩ := all e (by cases e <;> decide) s known
  exact .word (isLayout_of_mem listed) begins chars same fun _ => rfl

include suits

/-- A reserved word is written in the letters of the plan. -/
theorem written_word {r : Reserved} (known : r = .procedure → p.procedure = true) :
    (p.segment layout (.reserved r)).Written e.lexis := by
  have all : ∀ e ∈ Edition.all, e.hasDeclarations = true → ∀ c : Bool, (c = true ∨ e.foldsCase = true) →
      ∀ r ∈ [Reserved.program, .integerType, .realType, .var, .procedure, .beginBlock, .endBlock],
      (r = .procedure → e ≠ .declarations ∧ e ≠ .symbols) →
      ∀ word, word = (if c then r.spelling.toList else r.spelling.toList.map Char.toLower) →
      word.head?.any Text.isLetter = true ∧ word.all Text.isNameChar = true ∧
        e.lexis.wordLexeme word = .reserved r := by
    simp only [forall_eq]
    decide +kernel
  obtain ⟨begins, chars, same⟩ := all e (by cases e <;> decide) suits.declares p.capitals suits.letters r
    (by cases r <;> decide) (fun same => suits.procedures (known same)) _ (p.toList_letters r.spelling)
  exact .word (isLayout_of_mem listed) begins chars same fun _ => rfl

/-- A mark is written with its character. -/
theorem written_mark {l : Lexeme} (fixed : l ∈ Kind.all.filterMap Kind.lexeme?)
    (single : l.spelling.toList.length = 1) (same : p.written l = l.spelling) :
    (p.segment layout l).Written e.lexis := by
  have all : ∀ e ∈ Edition.all, e.hasDeclarations = true → ∀ l ∈ Kind.all.filterMap Kind.lexeme?,
      l.spelling.toList.length = 1 → l.spelling.toList.all (fun x =>
        e.lexis.mark x == some l && (x != ':' || !l.endsBefore '=')) = true := by
    decide +kernel
  have marks := all e (by cases e <;> decide) suits.declares l fixed single
  obtain ⟨x, word⟩ := List.length_eq_one_iff.mp single
  rw [word, List.all_cons, List.all_nil, Bool.and_true, Bool.and_eq_true, beq_iff_eq] at marks
  rw [segment, same, word]
  refine .mark (isLayout_of_mem listed) marks.1 fun colon => ?_
  simpa [colon] using marks.2

/-- An operator is a mark or the word in the letters of the plan. -/
theorem written_operator (o : Operator) : (p.segment layout (.operator o)).Written e.lexis := by
  have word : ∀ e ∈ Edition.all, e.hasDeclarations = true → ∀ c : Bool, (c = true ∨ e.foldsCase = true) →
      ∀ word, word = (if c then "DIV".toList else "DIV".toList.map Char.toLower) →
      word.head?.any Text.isLetter = true ∧ word.all Text.isNameChar = true ∧
        e.lexis.wordLexeme word = .operator .div := by
    simp only [forall_eq]
    decide +kernel
  cases o with
  | div =>
    obtain ⟨begins, chars, same⟩ := word e (by cases e <;> decide) suits.declares p.capitals suits.letters _
      (p.toList_letters "DIV")
    exact .word (isLayout_of_mem listed) begins chars same fun _ => rfl
  | _ => exact written_mark suits listed (by decide) (by decide) rfl

/-- Punctuation is a mark or the two characters of the assignment. -/
theorem written_punctuation_mark (q : Punctuation) : (p.segment layout (.punctuation q)).Written e.lexis := by
  cases q with
  | assign =>
    have word : (p.written (.punctuation .assign)).toList = [':', '='] := by simp [Punctuation.spelling]
    rw [segment, word]
    exact .assign (isLayout_of_mem listed)
  | _ => exact written_mark suits listed (by decide) (by decide) rfl

end Written

/-- The real numbers are written with their digits. -/
theorem written_real (lx : Lexis) : (real "3.14" 314 100).Written lx ∧
    (real "1.5" 15 10).Written lx ∧ (real "0.5" 5 10).Written lx ∧
    (real "2.0" 20 10).Written lx := by
  have space : IsLayout [' '] := .blank rfl .nil
  exact ⟨@Segment.Written.real lx _ space '3' [] ['1', '4'] 314 rfl rfl rfl,
    @Segment.Written.real lx _ space '1' [] ['5'] 15 rfl rfl rfl,
    @Segment.Written.real lx _ space '0' [] ['5'] 5 rfl rfl rfl,
    @Segment.Written.real lx _ space '2' [] ['0'] 20 rfl rfl rfl⟩

section Segments

variable (suits : p.Suits e)
include suits

/-- The names of variables are written, and the commas between them. -/
theorem written_nameSegments {names : List String} (numbered : ∀ name ∈ names, ∃ i, name = variableName i) :
    ∀ s ∈ p.nameSegments names, s.Written e.lexis := by
  induction names using nameSegments.induct with
  | case1 name next rest ih =>
    obtain ⟨⟨i, rfl⟩, later⟩ := List.forall_mem_cons.mp numbered
    rw [nameSegments, List.forall_mem_cons, List.forall_mem_cons]
    exact ⟨written_variable (by decide) i, written_punctuation_mark suits (by decide) .comma, ih later⟩
  | case2 name =>
    obtain ⟨⟨i, rfl⟩, _⟩ := List.forall_mem_cons.mp numbered
    rw [nameSegments, List.forall_mem_singleton]
    exact written_variable (by decide) i
  | case3 => exact List.forall_mem_nil _

/-- The declarations are written. -/
theorem written_declarations : ∀ line ∈ [p.wholesLine, p.realsLine], ∀ s ∈ line, s.Written e.lexis := by
  have names : ∀ s ∈ p.nameSegments p.declaredNames, s.Written e.lexis := by
    refine written_nameSegments suits fun name member => ?_
    obtain ⟨i, _, rfl⟩ := List.mem_map.mp member
    exact ⟨i, rfl⟩
  simp only [wholesLine, List.forall_mem_cons, List.forall_mem_append]
  refine ⟨⟨?_, names, ?_⟩, ?_⟩ <;>
    simp [realsLine, written_ident, written_word suits, written_punctuation_mark suits, mem_layouts]

/-- The procedure is written. -/
theorem written_procedureSegments : ∀ line ∈ p.procedureSegments, ∀ s ∈ line, s.Written e.lexis := by
  cases declared : p.procedure with
  | false => simp [procedureSegments, declared]
  | true =>
    cases given : p.parameters <;>
      simp [procedureSegments, parameterSegments, innerValue, declared, given, written_whole, written_ident,
        written_word suits, written_operator suits, written_punctuation_mark suits, mem_layouts]

/-- The statements are written. -/
theorem written_statementSegments : ∀ line ∈ p.statementSegments, ∀ s ∈ line, s.Written e.lexis := by
  simp only [statementSegments, assignmentSegments, List.forall_mem_append, List.forall_mem_map]
  refine ⟨⟨?_, fun k _ => ?_⟩, ?_⟩
  · rw [List.forall_mem_cons]
    constructor
    · simp [written_whole, written_variable, written_punctuation_mark suits, mem_layouts]
    · simp [written_ident, written_real, written_punctuation_mark suits, mem_layouts]
  · simp [written_whole, written_variable, written_real, written_operator suits, written_punctuation_mark suits,
      mem_layouts]
  · simp [written_ident, written_real, written_word suits, written_operator suits, written_punctuation_mark suits,
      mem_layouts]

/-- All the segments of the text are written in the editions of the plan. -/
theorem written_segments : ∀ s ∈ p.segments, s.Written e.lexis := by
  have header : ∀ s ∈ p.headerLine, s.Written e.lexis := by
    simp [headerLine, written_ident, written_word suits, written_punctuation_mark suits, mem_layouts]
  have lines : ∀ line ∈ p.segmentLines, ∀ s ∈ line, s.Written e.lexis := by
    simp only [segmentLines, List.forall_mem_append]
    refine ⟨⟨⟨⟨written_declarations suits, written_procedureSegments suits⟩, ?_⟩, written_statementSegments suits⟩, ?_⟩
      <;> simp [written_word suits, written_punctuation_mark suits, mem_layouts]
  intro s member
  rw [segments, List.mem_append, List.mem_flatten] at member
  rcases member with member | ⟨line, listed, member⟩
  · exact header s member
  · exact lines line listed s member

end Segments

section Lines

variable (p)

/-- A line that is joined in itself and begins with the end of the line before it. -/
def Neat (line : List Segment) : Prop := Segment.joined line = true ∧ Segment.beginsLine line = true

/-- Everything has ended before a space. -/
theorem endsAt_space (s : Segment) (l : Lexeme) : s.endsAt (p.segment " " l) = true := by
  simp [Segment.endsAt, Edition.endsBefore_space]

/-- Everything has ended before a real number, which stands behind a space. -/
theorem endsAt_real (s : Segment) (word : String) (num den : Nat) : s.endsAt (real word num den) = true := by
  simp [Segment.endsAt, Edition.endsBefore_space]

/-- Everything has ended before a comma, a semicolon or a parenthesis. -/
theorem endsAt_punctuation (s : Segment) {q : Punctuation}
    (among : q ∈ [.comma, .semicolon, .leftParen, .rightParen]) :
    s.endsAt (p.segment "" (.punctuation q)) = true := by
  have all : ∀ l : Lexeme, l.endsBefore ',' = true ∧ l.endsBefore ';' = true ∧ l.endsBefore '(' = true ∧
      l.endsBefore ')' = true := by
    intro l
    cases l with
    | operator o => cases o <;> decide
    | punctuation q => cases q <;> decide
    | _ => exact ⟨rfl, rfl, rfl, rfl⟩
  simp only [List.mem_cons, List.not_mem_nil, or_false] at among
  rcases among with rfl | rfl | rfl | rfl <;> simp [Segment.endsAt, Punctuation.spelling, all]

/-- What nothing can prolong has ended. -/
theorem endsAt_of_isClosed {layout : String} {l : Lexeme} (closed : l.isClosed = true) (next : Segment) :
    (p.segment layout l).endsAt next = true := by
  rw [Segment.endsAt, lexeme_segment, closed, Bool.true_or]

/-- Names begin with the first of them. -/
theorem exists_nameSegments (name : String) (rest : List String) :
    ∃ more, p.nameSegments (name :: rest) = p.segment " " (.name name) :: more := by
  cases rest with
  | nil => exact ⟨[], rfl⟩
  | cons next rest => exact ⟨_, rfl⟩

/-- Names are joined with the commas between them and with their type. -/
theorem joined_nameSegments (name : String) (rest : List String) :
    Segment.joined (p.nameSegments (name :: rest) ++ [p.segment " " (.punctuation .colon),
      p.segment " " (.reserved .integerType), p.segment "" (.punctuation .semicolon)]) = true := by
  induction rest generalizing name with
  | nil => simp [nameSegments, Segment.joined, endsAt_space, endsAt_punctuation]
  | cons next rest ih =>
    obtain ⟨more, first⟩ := p.exists_nameSegments next rest
    have later := ih next
    rw [first] at later
    -- a comma stands right behind a name, and the next name behind a space
    rw [nameSegments, first]
    refine Segment.joined_cons_cons.mpr ⟨p.endsAt_punctuation _ (by decide), Segment.joined_cons_cons.mpr ⟨?_, later⟩⟩
    exact p.endsAt_space _ _

/-- The whole variables make a line. -/
theorem neat_wholesLine : Neat p.wholesLine := by
  obtain ⟨name, rest, names⟩ := p.exists_declaredNames
  obtain ⟨more, first⟩ := p.exists_nameSegments name rest
  have later := p.joined_nameSegments name rest
  rw [Neat, wholesLine, names]
  rw [first] at later ⊢
  exact ⟨Segment.joined_cons_cons.mpr ⟨p.endsAt_space _ _, later⟩, rfl⟩

/-- The procedure is made of lines. -/
theorem neat_procedureSegments : ∀ line ∈ p.procedureSegments, Neat line := by
  cases declared : p.procedure with
  | false => simp [procedureSegments, declared]
  | true =>
    cases given : p.parameters <;>
      simp [procedureSegments, parameterSegments, innerValue, declared, given, Neat, Segment.joined,
        Segment.beginsLine, endsAt_space, endsAt_punctuation, endsAt_of_isClosed, Lexeme.isClosed]

/-- An assignment is a line. -/
theorem neat_assignmentSegments (i : Nat) : Neat (p.assignmentSegments i) := by
  simp [assignmentSegments, Neat, Segment.joined, Segment.beginsLine, endsAt_space, endsAt_real, endsAt_punctuation,
    endsAt_of_isClosed, Lexeme.isClosed]

/-- The statements are lines. -/
theorem neat_statementSegments : ∀ line ∈ p.statementSegments, Neat line := by
  simp only [statementSegments, List.forall_mem_append, List.forall_mem_map]
  refine ⟨⟨?_, fun k _ => p.neat_assignmentSegments (k + 1)⟩, ?_⟩ <;>
    simp [Neat, Segment.joined, Segment.beginsLine, endsAt_space, endsAt_real, endsAt_punctuation]

/-- A word has ended before the point behind it. -/
theorem endsAt_dot (layout : String) (r : Reserved) :
    (p.segment layout (.reserved r)).endsAt (p.segment "" (.punctuation .dot)) = true := by
  have point : Text.isNameChar '.' = false := by decide
  simp [Segment.endsAt, Punctuation.spelling, Lexeme.endsBefore, point]

/-- All lines behind the header are lines. -/
theorem neat_segmentLines : ∀ line ∈ p.segmentLines, Neat line := by
  have reals : Neat p.realsLine := by
    simp [realsLine, Neat, Segment.joined, Segment.beginsLine, endsAt_space, endsAt_punctuation]
  have opening : Neat [p.segment "\n" (.reserved .beginBlock)] := by simp [Neat, Segment.joined, Segment.beginsLine]
  have ending : Neat [p.segment "\n" (.reserved .endBlock), p.segment "" (.punctuation .dot)] := by
    simp [Neat, Segment.joined, Segment.beginsLine, endsAt_dot]
  simp only [segmentLines, List.forall_mem_append, List.forall_mem_cons, List.not_mem_nil, false_implies,
    implies_true, and_true, and_assoc]
  exact ⟨p.neat_wholesLine, reals, p.neat_procedureSegments, opening, p.neat_statementSegments, ending⟩

/-- Every segment of the text has ended where the next one begins. -/
theorem joined_segments : Segment.joined p.segments = true := by
  have header : Segment.joined p.headerLine = true := by
    simp [headerLine, Segment.joined, endsAt_space, endsAt_punctuation]
  exact Segment.joined_flatten header p.neat_segmentLines

end Lines

/-- The text can be read to its end in the editions of the plan, and its marks have the lexemes of the segments. -/
theorem exists_reads (member : e ∈ p.editions) :
    ∃ ms, e.lexis.Reads p.text ms ∧ ms.map Mark.lexeme = p.segments.map Segment.lexeme := by
  have suits := suits_of_mem_editions member
  have full : e.lexis.Full := Edition.full_lexis suits.declares
  -- the end of the last line stands behind all the segments
  have segmented : e.lexis.Segmented ['\n'] p.segments := by
    refine Lexis.segmented_of_joined full (written_segments suits) p.joined_segments ?_
    rintro y ⟨⟩
    rfl
  exact segmented.reads full (.blank rfl .nil) (List.cons_ne_nil _ _) p.toList_text

end LittlePascal.Generate.ProgramPlan
