import LittlePascal.Proofs.Conversion
import LittlePascal.Proofs.Respelling
import LittlePascal.Proofs.Strictness

/-! # From expressions to statements to programs

An expression becomes a program with statements when it is assigned to a variable, and a program with
statements becomes one with declarations when a header is put before it and the slash is written as a word.
Neither step changes what is computed: no lexeme is cut in another way, the trees correspond, and division
rounds down as before.

Main definitions:
* `Grammar.completed`: a grammar of statements within the rules of the last editions;
* `assigningText`, `wordedText`: the texts that an expression and a program become.

Main statements:
* `Grammar.compound_completed`: statements are read alike in both;
* `Grammar.parse_bare_iff`, `Grammar.parse_headed`: programs without and with a header;
* `migrations_keep_meaning`: trees, results and memories. -/

namespace LittlePascal

/-! ## Statements within the rules of the last editions -/

namespace Grammar

open Parse

variable {g : Grammar}

/-- The grammar with the declarations of the last editions, which need no guard behind statements. -/
def completed (g : Grammar) : Grammar :=
  { g with header := true, interleaved := false, parameters := true, guardsNames := false }

/-- The decisions about statements that the editions without calls share. -/
structure Uncalled (g : Grammar) : Prop where
  signs : g.signs = true
  holes : g.holes = false
  calls : g.calls = false

/-- With these decisions it is one of the last editions' grammars. -/
theorem Uncalled.completed_full (uncalled : g.Uncalled) : g.completed.Full where
  signs := uncalled.signs
  holes := uncalled.holes
  header := rfl
  interleaved := rfl
  parameters := rfl
  guardsNames := rfl
  paren calls := by
    rw [completed, uncalled.calls] at calls
    cases calls

/-- Operands are read alike. -/
theorem factorWithin_completed (n : Nat) : g.completed.factorWithin n = g.factorWithin n := by
  induction n with
  | zero => rfl
  | succ n ih =>
    rw [factorWithin, factorWithin, ih]
    rfl

/-- Expressions are read alike. -/
theorem expr_completed : g.completed.expr = g.expr := by
  simp only [expr, factorWithin_completed]
  rfl

/-- The guard behind statements makes no difference: a name there is refused by the guard, and without it by
the word that is expected there. -/
theorem compoundOf_eq (rule : Parse Stmt) :
    g.compoundOf rule = (do
      expect g.lexis (.reserved .beginBlock)
      let statements ← separated g.lexis (.punctuation .semicolon) rule
      expect g.lexis (.reserved .endBlock)
      return statements) := by
  have guarded : (do
      let statements ← g.statementsOf rule
      expect g.lexis (.reserved .endBlock)
      return statements : Parse (List Stmt)) = (do
      let statements ← separated g.lexis (.punctuation .semicolon) rule
      expect g.lexis (.reserved .endBlock)
      return statements) := by
    funext r
    rw [statementsOf, bind_assoc]
    cases read : separated g.lexis (.punctuation .semicolon) rule r with
    | error fault t => rw [Work.bind_of_error read, Work.bind_of_error read]
    | ok statements t =>
      rw [Work.bind_of_ok read, Work.bind_of_ok read, bind_assoc, kind_bind]
      by_cases guard : (g.guardsNames && t.token.kind = .name) = true
      · rw [Bool.and_eq_true, decide_eq_true_eq] at guard
        have other : t.token.kind ≠ .reserved .endBlock := by
          rw [guard.2]
          exact fun same => by cases same
        have refused : expect g.lexis (.reserved .endBlock) t = .error (.unexpected t.token) t := by
          rw [expect, current_bind, if_neg other]
          rfl
        rw [Work.bind_of_error refused, guard.1, guard.2]
        rfl
      · rw [if_neg guard]
        rfl
  rw [compoundOf, guarded]

/-- Statements are read alike. -/
theorem statementWithin_completed (n : Nat) : g.completed.statementWithin n = g.statementWithin n := by
  induction n with
  | zero => rfl
  | succ n ih =>
    have assignment : g.completed.assignment = g.assignment := by
      simp only [Grammar.assignment, expr_completed]
      rfl
    have call : g.completed.call = g.call := by
      simp only [Grammar.call, arguments, expr_completed]
      rfl
    rw [statementWithin, statementWithin, ih, compoundOf_eq, compoundOf_eq, assignment, call]
    rfl

/-- Compound statements are read alike. -/
theorem compound_completed : g.completed.compound = g.compound := by
  simp only [compound, statementWithin_completed, compoundOf_eq]
  rfl

/-- A compound statement is read, whatever follows it. -/
theorem Uncalled.compound_of_passage (uncalled : g.Uncalled) {r s : Reading} {ms : List Mark}
    {children : List Stmt} (passage : Passage g.lexis r ms s)
    (form : DerivesStmt g.completed ms (.compound children)) : g.compound r = .ok children s := by
  rw [← compound_completed]
  exact compound_complete uncalled.completed_full passage form

/-! ## Programs -/

/-- A text without holes is read if the largest rule leads to its end. -/
theorem parse_eq_ok_iff (holes : g.holes = false) {r s : Reading} {node : Node} :
    g.parse r = .ok node s ↔ g.whole r = .ok node s ∧ s.token = .endOfText := by
  rw [parse, holes]
  constructor
  · intro h
    obtain ⟨_, t, read, h⟩ := Work.bind_eq_ok.mp h
    rw [kind_bind] at h
    split at h
    · obtain ⟨_, _, refused, _⟩ := Work.bind_eq_ok.mp h
      cases refused
    · rename_i last
      cases h
      refine ⟨read, Token.kind_eq_endOfText_iff.mp ?_⟩
      simpa using last
  · rintro ⟨read, last⟩
    rw [Work.bind_of_ok read, kind_bind, last]
    rfl

/-- A program without header is a compound statement and a point. -/
theorem parse_bare_iff (uncalled : g.Uncalled) (header : g.header = false) {r s : Reading} {node : Node} :
    g.parse r = .ok node s ↔ s.token = .endOfText ∧
      ∃ ms m children, Passage g.lexis r (ms ++ [m]) s ∧ node = .stmt (.compound children) ∧
        DerivesStmt g.completed ms (.compound children) ∧ m.lexeme = .punctuation .dot := by
  rw [parse_eq_ok_iff uncalled.holes, and_comm, whole_bare uncalled.holes header]
  refine and_congr_right fun _ => ⟨fun h => ?_, ?_⟩
  · obtain ⟨_, _, bare, h⟩ := Work.bind_eq_ok.mp h
    cases h
    obtain ⟨children, t, read, bare⟩ := Work.bind_eq_ok.mp bare
    obtain ⟨_, u, point, h⟩ := Work.bind_eq_ok.mp bare
    cases h
    rw [← compound_completed] at read
    obtain ⟨ms, passage, form⟩ := compound_sound uncalled.completed_full read
    obtain ⟨m, dot, passage'⟩ := (expect_eq_ok rfl).mp point
    exact ⟨ms, m, children, passage.append passage', rfl, form, dot⟩
  · rintro ⟨ms, m, children, passage, rfl, form, dot⟩
    obtain ⟨t, body, last⟩ := Passage.append_iff.mp passage
    rw [bareProgram, bind_assoc, Work.bind_of_ok (uncalled.compound_of_passage body form), bind_assoc,
      Work.bind_of_ok (expect_of_passage (by rw [dot]; rfl) last)]
    rfl

/-- Where statements begin there are no declarations before them. -/
theorem block_bare (uncalled : g.Uncalled) (ordered : g.interleaved = false) {r s : Reading}
    {ms : List Mark} {children : List Stmt} (passage : Passage g.lexis r ms s)
    (form : DerivesStmt g.completed ms (.compound children)) : g.block r = .ok ⟨[], children⟩ s := by
  have begins : r.token.kind = .reserved .beginBlock := by
    cases form with
    | compound word _ _ =>
      rw [passage.token_eq, Mark.token, word]
      rfl
  have none : ∀ item : Parse Decl, many (.reserved .procedure) item r = .ok [] r := by
    intro item
    have other : (r.token.kind == .reserved .procedure) = false := by
      rw [begins]
      rfl
    rw [many, budget_bind, manyWhile, kind_bind, other]
    rfl
  rw [block, budget_bind, blockWithin, declarationsOf_eq ordered, bind_assoc,
    Work.bind_of_ok (vars_of_passage (.nil r) .absent (.inr begins)), bind_assoc,
    Work.bind_of_ok (none _), pure_bind, Work.bind_of_ok (uncalled.compound_of_passage passage form)]
  rfl

/-- A program with a header and no declarations is read. -/
theorem parse_headed (uncalled : g.Uncalled) (header : g.header = true) (ordered : g.interleaved = false)
    {r s : Reading} {m n k l : Mark} {ms : List Mark} {name : String} {children : List Stmt}
    (passage : Passage g.lexis r (m :: n :: k :: (ms ++ [l])) s) (last : s.token = .endOfText)
    (word : m.lexeme = .reserved .program) (named : n.lexeme = .name name)
    (semicolon : k.lexeme = .punctuation .semicolon) (form : DerivesStmt g.completed ms (.compound children))
    (dot : l.lexeme = .punctuation .dot) :
    g.parse r = .ok (.program ⟨name, ⟨[], children⟩⟩) s := by
  have read := program_of_block passage word named semicolon
    (fun inner => block_bare uncalled ordered inner form) dot
  refine (parse_eq_ok_iff uncalled.holes).mpr ⟨?_, last⟩
  rw [whole_headed uncalled.holes header, Work.bind_of_ok read]
  rfl

end Grammar

/-! ## The readers of the three editions -/

/-- A text as it is. -/
def Rewriting.identity : Rewriting where
  char x := [x]
  blank _ := rfl
  opens x := ⟨x, [], rfl, .inr rfl⟩

/-- A text with the slash written as a word, with blanks around it. -/
def Rewriting.worded : Rewriting where
  char x := if x = '/' then " DIV ".toList else [x]
  blank {x} blank := by
    refine if_neg ?_
    rintro rfl
    cases blank
  opens x := by
    by_cases slash : x = '/'
    · rw [if_pos slash]
      exact ⟨' ', "DIV ".toList, rfl, .inl rfl⟩
    · rw [if_neg slash]
      exact ⟨x, [], rfl, .inr rfl⟩

namespace Edition

/-- The editions before declarations, the one of single digits apart. -/
theorem plain_lexis {e : Edition} {limit : DigitLimit} (whole : e.numbers = .whole) :
    (e.lexis limit).Plain where
  blanks := by cases e <;> first | rfl | cases whole
  comments := by cases e <;> first | rfl | cases whole
  numbers := whole
  colon := by cases e <;> first | rfl | cases whole
  marks := mark_apart

/-- One edition has the marks of another if it has them among the characters that are marks at all. -/
theorem mark_of_all {e e' : Edition}
    (all : markChars.all (fun x => e.mark x = none || e'.mark x = e.mark x) = true) {x : Char} {l : Lexeme}
    (h : e.mark x = some l) : e'.mark x = some l := by
  simpa using @test_of_mark e (fun x l? => l? = none || e'.mark x = l?) all x l h

/-- The edition with statements has all the marks of the one with signs. -/
theorem statements_extend_signs : Edition.statements.lexis.Extends Edition.signs.lexis where
  words _ := rfl
  assign _ := rfl
  limit := rfl
  marks := @mark_of_all .signs .statements (by decide)
  apart := @mark_apart .statements .off

/-- The edition with declarations has all the marks of the one with statements. -/
theorem declarations_extend_statements : Edition.declarations.lexis.Extends Edition.statements.lexis where
  words _ := rfl
  assign _ := rfl
  limit := rfl
  marks := @mark_of_all .statements .declarations (by decide)
  apart := @mark_apart .declarations .off

/-- The words that declarations bring. -/
def newWords : List String := ["PROGRAM", "VAR", "DIV", "INTEGER", "REAL"]

/-- A word that is none of them means what it meant. -/
theorem wordLexeme_declarations {word : List Char}
    (free : ∀ name ∈ newWords, Edition.statements.lexis.wordLexeme word ≠ .name name) :
    Edition.declarations.lexis.wordLexeme word = Edition.statements.lexis.wordLexeme word := by
  let key := String.ofList word
  have early : Edition.statements.lexis.wordLexeme word = (blockWords.lookup key).getD (.name key) := rfl
  have late : Edition.declarations.lexis.wordLexeme word = (programWords.lookup key).getD (.name key) := rfl
  by_cases new : key ∈ newWords
  · -- a new word was a name
    have none : newWords.all (fun key => blockWords.lookup key = none) = true := by decide
    have unknown := of_decide_eq_true (List.all_eq_true.mp none key new)
    rw [unknown] at early
    exact absurd early (free key new)
  · have same : programWords.lookup key = blockWords.lookup key := by
      have others : ∀ entry ∈ programWords.take 5, entry.1 ∈ newWords := by decide
      have none : (programWords.take 5).lookup key = none := by
        refine List.lookup_eq_none_iff.mpr fun entry member => bne_iff_ne.mpr ?_
        intro same
        exact new (same ▸ others entry member)
      rw [← List.take_append_drop 5 programWords, List.lookup_append, none, Option.none_or]
      rfl
    rw [late, early, same]

/-! ## Lexemes carried over -/

/-- A lexeme of the edition with signs is found again as it is. -/
theorem signs_carried (m : Mark) : Edition.signs.lexis.Carries Edition.statements.lexis .identity
    (Lexeme.respelled .identity) m := by
  intro word rest rest' ls cut _ ends rendered
  have spells : Edition.statements.lexis.Spells word m.lexeme rest' :=
    cut.spells (plain_lexis rfl) statements_extend_signs (fun words => by cases words)
      (fun _ _ => .inl rfl) ends
  rw [Rewriting.text_of_kept _ fun _ _ => rfl, Lexeme.respelled_identity]
  exact .lexeme spells rendered

/-- What the edition with statements cuts off is a slash, or there is no slash in it. -/
theorem slash_of_cut {word rest : List Char} {l : Lexeme} (h : Edition.statements.lexis.Cut word l rest) :
    (word = ['/'] ∧ l = .operator .slash) ∨ ('/' ∉ word ∧ l.respelled .worded = l) := by
  have names : ∀ {chars : List Char}, (∀ y ∈ chars, Text.isNameChar y = true) → '/' ∉ chars := by
    intro chars all member
    have inside := all _ member
    rw [show Text.isNameChar '/' = false by decide] at inside
    cases inside
  cases h with
  | @word x word _ _ letter all _ =>
    refine .inr ⟨names (List.forall_mem_cons.mpr ⟨Text.isNameChar_of_isLetter letter, all⟩), ?_⟩
    have reserved : ∀ key, ((blockWords.lookup key).getD (.name key)).respelled .worded =
        (blockWords.lookup key).getD (.name key) := by
      intro key
      simp only [blockWords, reservedEntry, List.lookup_cons, List.lookup_nil]
      split
      · rfl
      · split <;> rfl
    exact reserved (String.ofList (x :: word))
  | whole all _ _ => exact .inr ⟨names fun y member => Text.isNameChar_of_isDigit (all y member), rfl⟩
  | assign _ => exact .inr ⟨by decide, rfl⟩
  | @mark x l _ marked =>
    by_cases slash : x = '/'
    · subst slash
      cases marked
      exact .inl ⟨rfl, rfl⟩
    · have same := @test_of_mark .statements
        (fun x l? => x = '/' || l?.map (Lexeme.respelled .worded) = l?) (by decide) x l marked
      refine .inr ⟨?_, ?_⟩
      · rw [List.mem_singleton]
        exact Ne.symm slash
      · simpa [slash] using same

/-- A lexeme of the edition with statements is found again, the slash as a word, if it is none of the new
words and no number directly before a point. -/
theorem statements_carried {m : Mark} (free : ∀ name ∈ newWords, m.lexeme ≠ .name name)
    (point : ∀ l, m.lexeme = .literal l → m.behind ≠ some '.') :
    Edition.statements.lexis.Carries Edition.declarations.lexis .worded (Lexeme.respelled .worded) m := by
  intro word rest rest' ls cut behind ends rendered
  rcases slash_of_cut cut with ⟨rfl, slash⟩ | ⟨noSlash, same⟩
  · have text : Rewriting.worded.text ['/'] = ' ' :: ('D' :: ['I', 'V'] ++ [' ']) := by decide
    rw [text, List.cons_append, List.append_assoc, slash]
    exact .blank (by decide) <| .word rfl (by decide) (by decide) (by decide) (.blank (by decide) rendered)
  · have kept : Rewriting.worded.text word = word := by
      refine Rewriting.text_of_kept _ fun y member => if_neg ?_
      rintro rfl
      exact noSlash member
    have spells : Edition.declarations.lexis.Spells word m.lexeme rest' := by
      refine cut.spells (plain_lexis rfl) declarations_extend_statements (fun _ word => ?_)
        (fun l literal => .inr ⟨rfl, fun dot => ?_⟩) ends
      · rw [word] at free ⊢
        exact wordLexeme_declarations free
      · rcases ends '.' dot with blank | here
        · cases blank
        · exact point l literal (behind ▸ here)
    rw [kept, same]
    exact .lexeme spells rendered

end Edition

/-- A lexeme that is no name and no real number. -/
def Lexeme.Whole (l : Lexeme) : Prop := (∀ s, l ≠ .name s) ∧ ∀ x, l ≠ .literal (.real x)

/-! ## The texts -/

/-- The program that assigns an expression to a variable. -/
def assigningText (text : String) : String := "BEGIN a := " ++ text ++ " END."

/-- The program with a header, and with the slash written as a word. -/
def wordedText (text : String) : String :=
  "PROGRAM p; " ++ String.ofList (Rewriting.worded.text text.toList)

namespace Edition

/-- The lexemes of an expression are found again between those of the assignment. -/
theorem rendered_assigning {text : String} {ms : List Mark} (reads : Edition.signs.lexis.Reads text ms) :
    Edition.statements.lexis.Rendered (assigningText text).toList
      (.reserved .beginBlock :: .name "a" :: .punctuation .assign ::
        (ms.map (fun m => m.lexeme.respelled .identity) ++ [.reserved .endBlock, .punctuation .dot])) := by
  have plain : Edition.statements.lexis.Plain := plain_lexis rfl
  have opening : "BEGIN a := ".toList = ['B', 'E', 'G', 'I', 'N', ' ', 'a', ' ', ':', '=', ' '] := by decide
  have closing : " END.".toList = ' ' :: ('E' :: ['N', 'D'] ++ ['.']) := by decide
  have ending : Edition.statements.lexis.Rendered " END.".toList [.reserved .endBlock, .punctuation .dot] := by
    rw [closing]
    exact .blank (by decide) <| .word rfl (by decide) (by decide) (by decide) <|
      .lexeme (plain.spells rfl) .nil
  have value := reads.rendered (plain_lexis rfl) (by rw [closing]; rintro y ⟨⟩; decide) ending
    fun m _ => signs_carried m
  rw [Rewriting.text_of_kept _ fun _ _ => rfl] at value
  have assigned : Edition.statements.lexis.Rendered ([':', '='] ++ ' ' :: (text.toList ++ " END.".toList)) _ :=
    .lexeme (Lexis.spells_assign rfl) (.blank (by decide) value)
  have named : Edition.statements.lexis.Rendered ('a' :: [] ++ ' ' :: _) _ :=
    .word rfl (by decide) (by decide) (by decide) (.blank (by decide) assigned)
  have begun : Edition.statements.lexis.Rendered ('B' :: ['E', 'G', 'I', 'N'] ++ ' ' :: _) _ :=
    .word rfl (by decide) (by decide) (by decide) (.blank (by decide) named)
  rw [assigningText, String.toList_append, String.toList_append, opening, List.append_assoc]
  exact begun

/-- The lexemes of a program are found again behind those of the header. -/
theorem rendered_worded {text : String} {ms : List Mark} (reads : Edition.statements.lexis.Reads text ms)
    (carried : ∀ m ∈ ms, Edition.statements.lexis.Carries Edition.declarations.lexis .worded
      (Lexeme.respelled .worded) m) :
    Edition.declarations.lexis.Rendered (wordedText text).toList
      (.reserved .program :: .name "p" :: .punctuation .semicolon ::
        ms.map fun m => m.lexeme.respelled .worded) := by
  have opening : "PROGRAM p; ".toList = ['P', 'R', 'O', 'G', 'R', 'A', 'M', ' ', 'p', ';', ' '] := by decide
  have program := reads.rendered (plain_lexis rfl) (by simp) .nil carried
  rw [List.append_nil, List.append_nil] at program
  have semicolon : Edition.declarations.lexis.Spells [';'] (.punctuation .semicolon)
      (' ' :: Rewriting.worded.text text.toList) :=
    Lexis.spells_mark (by decide) (by decide) (by decide) rfl (fun colon => by cases colon)
  have named : Edition.declarations.lexis.Rendered ('p' :: [] ++ ';' :: ' ' :: _) _ :=
    .word rfl (by decide) (by decide) (by decide) (.lexeme semicolon (.blank (by decide) program))
  have headed : Edition.declarations.lexis.Rendered ('P' :: ['R', 'O', 'G', 'R', 'A', 'M'] ++ ' ' :: _) _ :=
    .word rfl (by decide) (by decide) (by decide) (.blank (by decide) named)
  rw [wordedText, String.toList_append, opening, String.toList_ofList]
  exact headed

/-! ## Programs that are read -/

/-- The editions with statements and with declarations have no calls. -/
theorem uncalled_grammar {e : Edition} (h : e = .statements ∨ e = .declarations) : e.grammar.Uncalled where
  signs := by rcases h with rfl | rfl <;> rfl
  holes := by rcases h with rfl | rfl <;> rfl
  calls := by rcases h with rfl | rfl <;> rfl

/-- An expression that is assigned to a variable is read as such. -/
theorem accepts_assigning {text : String} {ms : List Mark} {tree : Expr}
    (reads : Edition.signs.lexis.Reads text ms) (form : DerivesExpr .sum ms tree) :
    ∃ place place' value reading, value.unplaced = tree.unplaced ∧
      Edition.statements.Accepts (assigningText text)
        (.stmt (.compound [.assign ⟨"a", place⟩ place' value])) reading := by
  obtain ⟨ns, ⟨r, s, opened, passage, last⟩, spelled⟩ :=
    (rendered_assigning reads).reads rfl (List.cons_ne_nil _ _)
  obtain ⟨m₁, _, rfl, word, spelled⟩ := List.map_eq_cons_iff.mp spelled
  obtain ⟨m₂, _, rfl, name, spelled⟩ := List.map_eq_cons_iff.mp spelled
  obtain ⟨m₃, _, rfl, assign, spelled⟩ := List.map_eq_cons_iff.mp spelled
  obtain ⟨us, _, rfl, value, spelled⟩ := List.map_eq_append_iff.mp spelled
  obtain ⟨m₄, _, rfl, word', spelled⟩ := List.map_eq_cons_iff.mp spelled
  obtain ⟨m₅, _, rfl, dot, spelled⟩ := List.map_eq_cons_iff.mp spelled
  obtain rfl := List.map_eq_nil_iff.mp spelled
  have same : Mark.Respelled .identity ms us := value
  obtain ⟨e, form', alike⟩ := form.respelled same
  rw [Expr.respelled_identity] at alike
  have body : DerivesStmt Edition.statements.grammar.completed (m₁ :: (m₂ :: m₃ :: us ++ [m₄]))
      (.compound [.assign ⟨"a", m₂.place⟩ m₃.place e]) :=
    .compound word (.one (.assign name assign form')) word'
  have parts : m₁ :: m₂ :: m₃ :: (us ++ [m₄, m₅]) = (m₁ :: (m₂ :: m₃ :: us ++ [m₄])) ++ [m₅] := by simp
  rw [parts] at passage
  have read := (Grammar.parse_bare_iff (uncalled_grammar (.inl rfl)) rfl).mpr
    ⟨last, _, m₅, _, passage, rfl, body, dot⟩
  exact ⟨_, _, e, s, alike, Lexis.attempt_of_ok opened read⟩

/-- In a program without header no number stands directly before a point: the only point is behind the word
that ends the statements. -/
theorem behind_ne_dot {g : Grammar} {r s : Reading} {ms : List Mark} {m : Mark} {children : List Stmt}
    (passage : Passage Edition.statements.lexis r (ms ++ [m]) s) (form : DerivesStmt g ms (.compound children))
    (dot : m.lexeme = .punctuation .dot) :
    ∀ n ∈ ms ++ [m], ∀ l, n.lexeme = .literal l → n.behind ≠ some '.' := by
  intro n member l literal behind
  have inside : n ∈ ms := by
    rcases List.mem_append.mp member with inside | last
    · exact inside
    · rw [List.mem_singleton.mp last, dot] at literal
      cases literal
  obtain ⟨us, vs, rfl⟩ := List.append_of_mem inside
  cases vs with
  | nil =>
    -- the last lexeme of the statements is a word
    generalize whole : us ++ [n] = ks at form
    cases form with
    | @compound first last ms _ _ _ word' =>
      have same : n = last := by
        rw [← List.cons_append] at whole
        exact (List.append_inj' whole rfl).2 |> List.singleton_inj.mp
      rw [same, word'] at literal
      cases literal
  | cons k vs =>
    rw [List.append_assoc] at passage
    obtain ⟨t, _, rest⟩ := Passage.append_iff.mp passage
    have point := (plain_lexis rfl).lexeme_behind rest (x := '.') rfl behind
    exact form.lexeme_ne_dot k (by simp) point

/-- A program with a header is read where the program without it was, if it has none of the new words for a
name. -/
theorem accepts_worded {text : String} {tree : Node} {reading : Reading}
    (accepted : Edition.statements.Accepts text tree reading)
    (free : ∀ name ∈ newWords, ¬Edition.statements.lexis.Names text name) :
    ∃ children children' reading', tree = .stmt (.compound children) ∧
      Edition.declarations.Accepts (wordedText text) (.program ⟨"p", ⟨[], children'⟩⟩) reading' ∧
      Stmt.unplacedAll children' = Stmt.unplacedAll (Stmt.respelledAll .worded children) := by
  have uncalled : Edition.statements.grammar.Uncalled := uncalled_grammar (.inl rfl)
  obtain ⟨r, opened, read⟩ := Lexis.attempt_eq_done.mp accepted
  obtain ⟨last, ms, m, children, passage, rfl, form, dot⟩ := (Grammar.parse_bare_iff uncalled rfl).mp read
  have reads : Edition.statements.lexis.Reads text (ms ++ [m]) := ⟨r, reading, opened, passage, last⟩
  have carried : ∀ n ∈ ms ++ [m], Edition.statements.lexis.Carries Edition.declarations.lexis .worded
      (Lexeme.respelled .worded) n := by
    intro n member
    refine statements_carried (fun name new named => ?_) (behind_ne_dot passage form dot n member)
    exact free name new (reads.names_of_mem member named)
  obtain ⟨ns, ⟨r', s', opened', passage', last'⟩, spelled⟩ :=
    (rendered_worded reads carried).reads rfl (List.cons_ne_nil _ _)
  obtain ⟨m₁, _, rfl, word, spelled⟩ := List.map_eq_cons_iff.mp spelled
  obtain ⟨m₂, _, rfl, name, spelled⟩ := List.map_eq_cons_iff.mp spelled
  obtain ⟨m₃, ks, rfl, semicolon, spelled⟩ := List.map_eq_cons_iff.mp spelled
  have same : Mark.Respelled .worded (ms ++ [m]) ks := spelled
  obtain ⟨us, vs, rfl, body, ending⟩ := same.append
  obtain ⟨k, rfl, point⟩ := ending.single
  rw [dot] at point
  obtain ⟨s, form', alike⟩ :=
    @DerivesStmt.respelled .worded _ Edition.declarations.grammar.completed rfl _ _ form _ body
  cases s with
  | compound children' =>
    have read' := Grammar.parse_headed (uncalled_grammar (.inr rfl)) rfl rfl passage' last' word name semicolon
      form' point
    injection alike with alike
    exact ⟨children, children', s', rfl, Lexis.attempt_of_ok opened' read', alike⟩
  | assign | call | empty => cases alike

/-! ## What is computed -/

/-- The edition with signs finds the value of the tree that it reads. -/
theorem finds_of_read {limit : DigitLimit} {text : String} {r s : Reading} {tree : Expr}
    (opened : (Edition.signs.lexis limit).openReading text = .ok r)
    (read : (Edition.signs.grammar limit).expr r = .ok tree s) :
    Edition.signs.finds text limit = .ok (tree.eval Edition.signs.evalRules .empty) := by
  rw [finds, evaluate_byTree rfl opened]
  show Except.ok (Edition.signs.evaluateByTree r limit).result = _
  rw [evaluateByTree, read]
  rfl

/-- The edition with signs finds the value of the tree of an expression. -/
theorem finds_of_derives {limit : DigitLimit} {text : String} {ms : List Mark} {tree : Expr}
    (reads : (Edition.signs.lexis limit).Reads text ms) (form : DerivesExpr .sum ms tree)
    (nameless : ∀ m ∈ ms, ∀ s, m.lexeme ≠ .name s) :
    Edition.signs.finds text limit = .ok (tree.eval Edition.signs.evalRules .empty) := by
  obtain ⟨r, s, opened, passage, last⟩ := reads
  have stop : Grammar.NoOperator s.token := by
    intro o
    rw [last]
    exact fun same => by cases same
  exact finds_of_read opened (@Grammar.exprAmong_complete (Edition.signs.grammar limit)
    (fun m => ∀ s, m.lexeme ≠ .name s) rfl (fun _ _ _ none => none _) _ r s ms tree passage (Nat.lt_succ_self _) ⟨form, nameless⟩ stop)

/-- Before statements a lexeme is a whole number or a mark. -/
theorem lexeme_of_token {e : Edition} {limit : DigitLimit} (whole : e.numbers = .whole)
    (wordless : e.hasStatements = false) {c d : Cursor} {l : Lexeme} {p : Place}
    (read : (e.lexis limit).token c = .ok (.lexeme l p) d) :
    (∃ n, l = .literal (.whole n)) ∨ ∃ x, e.mark x = some l := by
  obtain ⟨_, word, _, _, cut⟩ := (plain_lexis whole).exists_cut read
  cases cut with
  | word words => cases wordless.symm.trans words
  | @whole _ _ _ n => exact .inl ⟨n, rfl⟩
  | assign assign => cases wordless.symm.trans assign
  | @mark x l _ marked => exact .inr ⟨x, marked⟩

/-- A lexeme that the edition with signs reads is no name and no real number. -/
theorem whole_of_token {limit : DigitLimit} {c d : Cursor} {l : Lexeme} {p : Place}
    (read : (Edition.signs.lexis limit).token c = .ok (.lexeme l p) d) : l.Whole := by
  rcases lexeme_of_token rfl rfl read with ⟨n, rfl⟩ | ⟨x, marked⟩
  · simp [Lexeme.Whole]
  · have kinds := @test_of_mark .signs (fun _ l? => l?.all fun l => l.kind ≠ .name && l.kind ≠ .real)
      (by decide) x l marked
    rw [Option.all_some, Bool.and_eq_true, decide_eq_true_eq, decide_eq_true_eq] at kinds
    exact ⟨fun s same => kinds.1 (by rw [same]; rfl), fun y same => kinds.2 (by rw [same]; rfl)⟩

/-- The lexemes of the edition with signs are no names and no real numbers. -/
theorem whole_of_reads {limit : DigitLimit} {text : String} {ms : List Mark}
    (reads : (Edition.signs.lexis limit).Reads text ms) : ∀ m ∈ ms, m.lexeme.Whole :=
  reads.forall_lexemes whole_of_token

/-- The slash and the word for it do the same in the two editions. -/
theorem worded_preserves :
    Respelling.worded.Preserves Edition.statements.evalRules Edition.declarations.evalRules where
  operation o := by cases o <;> rfl
  strict := rfl

end Edition

namespace Session

variable {rules : EvalRules} {value : Expr} {place place' : Place} {s : Session}

/-- The run of a program that assigns an expression with a value. -/
theorem run_assigning_of_some {n : Int} (h : value.eval rules s.memory = .ok (.whole n)) :
    s.run rules (.stmt (.compound [.assign ⟨"a", place⟩ place' value])) =
      (.ok (some .missing), { s with memory := s.memory.set "a" (.whole n) }) := by
  have done : (Node.stmt (.compound [.assign ⟨"a", place⟩ place' value])).run rules s.memory =
      .ok .missing (s.memory.set "a" (.whole n)) :=
    Work.bind_of_ok (Work.bind_of_ok (Stmt.run_assign_of_ok h))
  rw [run, done]

/-- The run of a program that assigns an expression without a value. -/
theorem run_assigning_of_error {fault : Fault} (h : value.eval rules s.memory = .error fault) :
    s.run rules (.stmt (.compound [.assign ⟨"a", place⟩ place' value])) = (.error fault, s) := by
  have failed : (Node.stmt (.compound [.assign ⟨"a", place⟩ place' value])).run rules s.memory =
      .error fault s.memory :=
    Work.bind_of_error (Work.bind_of_error (Stmt.run_assign_of_error h))
  rw [run, failed]

/-- A program with the slash as a word runs as the program did. -/
theorem run_worded {children children' : List Stmt}
    (alike : Stmt.unplacedAll children' = Stmt.unplacedAll (Stmt.respelledAll .worded children)) (s : Session) :
    s.run Edition.declarations.evalRules (.program ⟨"p", ⟨[], children'⟩⟩) =
      s.run Edition.statements.evalRules (.stmt (.compound children)) := by
  have runs : Stmt.runAll Edition.declarations.evalRules children' =
      Stmt.runAll Edition.statements.evalRules children := by
    rw [← Stmt.runAll_unplaced, alike, Stmt.runAll_unplaced, Stmt.runAll_respelled Edition.worded_preserves]
  rw [run, run, Node.run, Node.run, Stmt.run, runs]

end Session

/-- Neither assigning an expression to a variable nor putting a header before a program with statements, with
the slash written as a word, changes what is computed. The assigned value is the one that was found for the
expression, and a division by zero stays one and leaves the memory as it was. The program with the header has
the tree of the program without it, but for the name of the operator, and ends with the same result and the
same memory. -/
theorem migrations_keep_meaning (s : Session) :
    (∀ text ms tree, Edition.signs.lexis.Reads text ms → DerivesExpr .sum ms tree →
      (∃ n, Edition.signs.finds text = .ok (.ok (.whole n)) ∧
        (s.step .statements none .run (some (assigningText text))).result = .ok (some .missing) ∧
        (s.step .statements none .run (some (assigningText text))).session.memory =
          s.memory.set "a" (.whole n)) ∨
      (Edition.signs.finds text = .ok (.error (.arithmetic .wholeByZero)) ∧
        (s.step .statements none .run (some (assigningText text))).result =
          .error (.arithmetic .wholeByZero) ∧
        (s.step .statements none .run (some (assigningText text))).session.memory = s.memory)) ∧
    ∀ text tree reading, Edition.statements.Accepts text tree reading →
      (∀ name ∈ Edition.newWords, ¬Edition.statements.lexis.Names text name) →
      ∃ children tree' reading', tree = .stmt (.compound children) ∧
        Edition.declarations.Accepts (wordedText text) tree' reading' ∧
        tree'.unplaced = (Node.program ⟨"p", ⟨[], Stmt.respelledAll .worded children⟩⟩).unplaced ∧
        (s.step .declarations none .run (some (wordedText text))).result =
          (s.step .statements none .run (some text)).result ∧
        (s.step .declarations none .run (some (wordedText text))).session.memory =
          (s.step .statements none .run (some text)).session.memory := by
  refine ⟨fun text ms tree reads form => ?_, fun text tree reading accepted free => ?_⟩
  · have whole := Edition.whole_of_reads reads
    obtain ⟨v, reckoned⟩ := form.reckons whole
    obtain ⟨place, place', value, reading, alike, accepted⟩ := Edition.accepts_assigning reads form
    have found := Edition.finds_of_derives reads form fun m member => (whole m member).1
    rw [reckoned _ _ rfl] at found
    have valued : value.eval Edition.statements.evalRules s.memory = Calculation.result v := by
      rw [← Expr.eval_unplaced, alike, Expr.eval_unplaced, reckoned _ _ rfl]
    rw [Session.step_run accepted]
    cases v with
    | some n =>
      rw [Session.run_assigning_of_some valued]
      exact .inl ⟨n, found, rfl, rfl⟩
    | none =>
      rw [Session.run_assigning_of_error valued]
      exact .inr ⟨found, rfl, rfl⟩
  · obtain ⟨children, children', reading', rfl, accepted', alike⟩ := Edition.accepts_worded accepted free
    have same : (Node.program ⟨"p", ⟨[], children'⟩⟩).unplaced =
        (Node.program ⟨"p", ⟨[], Stmt.respelledAll .worded children⟩⟩).unplaced := by
      simp only [Node.unplaced, Program.unplaced, Block.unplaced, alike]
    rw [Session.step_run accepted, Session.step_run accepted', Session.run_worded alike]
    exact ⟨children, _, reading', rfl, accepted', same, rfl, rfl⟩

/-- A quotient of a negative number is rounded down in all three editions, and a quotient by zero behind it
ends the run of both programs. -/
theorem migrations_keep_meaning_rounded_down :
    let text := "BEGIN b:=-7/2;c:=b/0 END."
    (∃ ms tree, Edition.signs.lexis.Reads "-7/2" ms ∧ DerivesExpr .sum ms tree) ∧
    Edition.signs.finds "-7/2" = .ok (.ok (.whole (-4))) ∧
    ((Session.initial none).step .statements none .run (some (assigningText "-7/2"))).session.memory =
      ⟨[("a", .whole (-4))]⟩ ∧
    (∀ name ∈ Edition.newWords, ¬Edition.statements.lexis.Names text name) ∧
    ∃ children reading tree' reading', Edition.statements.Accepts text (.stmt (.compound children)) reading ∧
      Edition.declarations.Accepts (wordedText text) tree' reading' ∧
      tree'.unplaced = (Node.program ⟨"p", ⟨[], Stmt.respelledAll .worded children⟩⟩).unplaced ∧
      ((Session.initial none).step .declarations none .run (some (wordedText text))).result =
        .error (.arithmetic .wholeByZero) ∧
      ((Session.initial none).step .declarations none .run (some (wordedText text))).session.memory =
        ⟨[("b", .whole (-4))]⟩ := by
  intro text
  obtain ⟨assigned, worded⟩ := migrations_keep_meaning (Session.initial none)
  let minus : Mark := ⟨.operator .minus, ⟨1, 1⟩, '7'⟩
  let seven : Mark := ⟨.literal (.whole 7), ⟨1, 2⟩, '/'⟩
  let slash : Mark := ⟨.operator .slash, ⟨1, 3⟩, '2'⟩
  let two : Mark := ⟨.literal (.whole 2), ⟨1, 4⟩, none⟩
  have reads : Edition.signs.lexis.Reads "-7/2" ([minus, seven] ++ slash :: [two]) := by decide +kernel
  have form : DerivesExpr .sum ([minus, seven] ++ slash :: [two]) _ :=
    .product (.multiplied (.factor (@DerivesExpr.signed _ _ .minus _ rfl (.literal rfl))) rfl (by decide) (.literal rfl))
  have memory : ((Session.initial none).step .statements none .run (some (assigningText "-7/2"))).session.memory =
      ⟨[("a", .whole (-4))]⟩ := by
    decide +kernel
  have found : Edition.signs.finds "-7/2" = .ok (.ok (.whole (-4))) := by
    rcases assigned "-7/2" _ _ reads form with ⟨n, found, _, stored⟩ | ⟨_, _, kept⟩
    · rw [memory] at stored
      cases stored
      exact found
    · rw [memory] at kept
      cases kept
  let marks : List Mark :=
    [⟨.reserved .beginBlock, ⟨1, 1⟩, ' '⟩, ⟨.name "b", ⟨1, 7⟩, ':'⟩, ⟨.punctuation .assign, ⟨1, 8⟩, '-'⟩,
     ⟨.operator .minus, ⟨1, 10⟩, '7'⟩, ⟨.literal (.whole 7), ⟨1, 11⟩, '/'⟩, ⟨.operator .slash, ⟨1, 12⟩, '2'⟩,
     ⟨.literal (.whole 2), ⟨1, 13⟩, ';'⟩, ⟨.punctuation .semicolon, ⟨1, 14⟩, 'c'⟩, ⟨.name "c", ⟨1, 15⟩, ':'⟩,
     ⟨.punctuation .assign, ⟨1, 16⟩, 'b'⟩, ⟨.name "b", ⟨1, 18⟩, '/'⟩, ⟨.operator .slash, ⟨1, 19⟩, '0'⟩,
     ⟨.literal (.whole 0), ⟨1, 20⟩, ' '⟩, ⟨.reserved .endBlock, ⟨1, 22⟩, '.'⟩,
     ⟨.punctuation .dot, ⟨1, 25⟩, none⟩]
  have reads' : Edition.statements.lexis.Reads text marks := by decide +kernel
  have free : ∀ name ∈ Edition.newWords, ¬Edition.statements.lexis.Names text name := by
    intro name new named
    have among : ∀ name ∈ Edition.newWords, Lexeme.name name ∉ marks.map Mark.lexeme := by decide
    exact among name new (reads'.mem_of_names named)
  have yields : Edition.statements.yields text (fun _ => true) = true := by decide +kernel
  obtain ⟨tree, reading, accepted, _⟩ := Edition.exists_accepts yields
  obtain ⟨children, tree', reading', rfl, accepted', alike, result, kept⟩ :=
    worded text tree reading accepted free
  have failed : ((Session.initial none).step .statements none .run (some text)).fault? =
      some (.arithmetic .wholeByZero) := by
    decide +kernel
  have left : ((Session.initial none).step .statements none .run (some text)).session.memory =
      ⟨[("b", .whole (-4))]⟩ := by
    decide +kernel
  rw [StepOutcome.fault?_eq_some.mp failed] at result
  rw [left] at kept
  exact ⟨⟨_, _, reads, form⟩, found, memory, free, children, reading, tree', reading', accepted, accepted',
    alike, result, kept⟩

end LittlePascal
