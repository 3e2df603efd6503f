import LittlePascal.Session
import LittlePascal.Proofs.Fitting
import LittlePascal.Proofs.Layout
import LittlePascal.Proofs.Simulation

/-! # Successive editions

Each edition with programs reads what the one before it reads, with the same tree, as long as no name of the text
becomes a reserved word. Only the order of declarations is taken back: a later edition is stricter there, and
an earlier one reads what it reads. From the edition with a symbol table on, trees that differ in their
places alone run alike.

Main definitions:
* `Edition.Accepts`: a text yields a tree;
* `Lexis.Names`: a name stands in a text;
* `Node.parameterLists`: the parameters of all procedures of a tree.

Main statements: `Lexis.agrees_of_words`, `Node.run_unplaced`, `editions_read_alike`. -/

namespace LittlePascal

/-- A text yields a tree, and the reading has come to its end. -/
def Edition.Accepts (e : Edition) (text : String) (tree : Node) (reading : Reading)
    (limit : DigitLimit := .off) : Prop :=
  (e.lexis limit).attempt (e.grammar limit).parse text = .done tree reading

/-- Whether a text yields a tree that passes a test. -/
def Edition.yields (e : Edition) (text : String) (test : Node → Bool) : Bool :=
  match e.lexis.attempt e.grammar.parse text with
  | .done tree _ => test tree
  | _ => false

/-- A text that yields a tree which passes a test is accepted. -/
theorem Edition.exists_accepts {e : Edition} {text : String} {test : Node → Bool}
    (h : e.yields text test = true) :
    ∃ tree reading, e.Accepts text tree reading ∧ test tree = true := by
  unfold yields at h
  split at h
  · rename_i tree reading done
    exact ⟨tree, reading, done, h⟩
  · cases h

/-- A text that is accepted is run in its session. -/
theorem Session.step_run {e : Edition} {analysis? : Option Analysis} {text : String} {tree : Node}
    {reading : Reading} (accepted : e.Accepts text tree reading) (s : Session) :
    s.step e analysis? .run (some text) =
      ⟨(s.run e.evalRules tree).1, some reading, (s.run e.evalRules tree).2⟩ := by
  rw [step, show e.lexis.attempt e.grammar.parse text = _ from accepted]
  rfl

/-- A name stands in a text: one of the calls of the reader comes to it. -/
def Lexis.Names (lx : Lexis) (text : String) (name : String) : Prop :=
  ∃ n place d, lx.nth n (.start text.toList) = .ok (.lexeme (.name name) place) d

/-! ## Names in a text -/

/-- Calls of the reader come to marks of the text, and then to its end. -/
theorem Passage.mark_of_nth {lx : Lexis} {r s : Reading} {ms : List Mark}
    (passage : Passage lx r ms s) (last : s.token = .endOfText)
    (here : r.token = .endOfText → r.cursor.rest = []) {n : Nat} {t : Token} {d : Cursor}
    (call : lx.nth n r.cursor = .ok t d) : t = .endOfText ∨ ∃ m ∈ ms, t = m.token := by
  induction passage generalizing n with
  | nil r =>
    rw [Lexis.nth_nil (here last)] at call
    cases call
    exact .inl rfl
  | @cons m ms r u s token behind next rest ih =>
    have read := Parse.next_ok next
    have here' : u.token = .endOfText → u.cursor.rest = [] := by
      intro ended
      rw [ended] at read
      exact Lexis.token_end read
    cases n with
    | zero =>
      rw [Lexis.nth, read] at call
      cases call
      cases rest with
      | nil => exact .inl last
      | @cons m' ms' _ _ _ token' => exact .inr ⟨m', by simp, token'⟩
    | succ n =>
      rw [Lexis.nth, Work.bind_of_ok read] at call
      rcases ih last here' call with ended | ⟨m', member, token'⟩
      · exact .inl ended
      · exact .inr ⟨m', List.mem_cons_of_mem _ member, token'⟩

/-- Calls of the reader from the start of a text come to its marks, and then to its end. -/
theorem Lexis.Reads.mark_of_nth {lx : Lexis} {text : String} {ms : List Mark} (reads : lx.Reads text ms)
    {n : Nat} {t : Token} {d : Cursor} (call : lx.nth n (.start text.toList) = .ok t d) :
    t = .endOfText ∨ ∃ m ∈ ms, t = m.token := by
  obtain ⟨r, s, opened, passage, last⟩ := reads
  have read := (openReading_eq_ok.mp opened).2
  have here : r.token = .endOfText → r.cursor.rest = [] := by
    intro ended
    rw [ended] at read
    exact token_end read
  cases n with
  | zero =>
    rw [nth, read] at call
    cases call
    cases passage with
    | nil => exact .inl last
    | @cons m ms _ _ _ token => exact .inr ⟨m, List.mem_cons_self, token⟩
  | succ n =>
    rw [nth, Work.bind_of_ok read] at call
    exact passage.mark_of_nth last here call

/-- The names in a text that can be read to its end are those among its marks. -/
theorem Lexis.Reads.mem_of_names {lx : Lexis} {text : String} {ms : List Mark}
    (reads : lx.Reads text ms) {name : String} (h : lx.Names text name) :
    Lexeme.name name ∈ ms.map Mark.lexeme := by
  obtain ⟨n, place, d, call⟩ := h
  rcases reads.mark_of_nth call with ended | ⟨m, member, token⟩
  · cases ended
  · injection token with lexeme
    rw [lexeme]
    exact List.mem_map_of_mem member

/-! ## Reserved words -/

namespace Lexis

/-- A reader with other reserved words. -/
def withWords (lx : Lexis) (reserved : List (String × Lexeme)) (foldsCase : Bool) : Lexis :=
  { lx with reserved, foldsCase }

/-- A token is read whatever the reserved words are, unless it is a word that has another meaning. -/
theorem token_withWords {lx : Lexis} {words : List (String × Lexeme)} {folds : Bool} {c d : Cursor}
    {t : Token} (read : lx.token c = .ok t d)
    (same : ∀ word place, t = .lexeme (lx.wordLexeme word) place →
      (lx.withWords words folds).wordLexeme word = lx.wordLexeme word) :
    (lx.withWords words folds).token c = .ok t d := by
  unfold token at read ⊢
  obtain ⟨_, c', skipped, read⟩ := Work.bind_eq_ok.mp read
  rw [Work.bind_of_ok (show (lx.withWords words folds).skipLayout c = .ok () c' from skipped)]
  rw [Work.get_bind] at read ⊢
  cases left : c'.rest with
  | nil =>
    rw [left] at read
    exact read
  | cons x rest =>
    rw [left] at read
    dsimp only at read ⊢
    by_cases letter : (lx.words && Text.isLetter x) = true
    · rw [if_pos letter] at read
      rw [if_pos (show ((lx.withWords words folds).words && Text.isLetter x) = true from letter)]
      rw [word, Work.get_bind, Work.bind_of_ok (Scan.run_eq _ _)] at read ⊢
      cases read
      rw [same _ _ rfl]
      rfl
    · rw [if_neg letter] at read
      rw [if_neg (show ¬((lx.withWords words folds).words && Text.isLetter x) = true from letter)]
      exact read

/-- The key under which a word is looked up among the reserved words. -/
def key (lx : Lexis) (word : List Char) : String :=
  String.ofList (if lx.foldsCase then Text.capitals word else word)

/-- Two readers that differ in their reserved words agree on a text if what is reserved stays so, and no
name of the text becomes reserved. -/
theorem agrees_of_words {lx lx' : Lexis} (like : lx' = lx.withWords lx'.reserved lx'.foldsCase)
    {text : String}
    (kept : ∀ word l, lx.reserved.lookup (lx.key word) = some l →
      lx'.reserved.lookup (lx'.key word) = some l)
    (names : ∀ name, lx.Names text name → lx.reserved.lookup (lx.key name.toList) = none →
      lx'.reserved.lookup (lx'.key name.toList) = none) :
    lx.Agrees lx' (.start text.toList) := by
  refine agrees_of_tokens (P := fun t => ∀ name place, t = .lexeme (.name name) place →
    lx.Names text name) ?_ ?_
  · intro c t d named read
    rw [like]
    refine token_withWords read fun word place token => ?_
    rw [← like]
    have means : ∀ lx : Lexis, lx.wordLexeme word =
        (lx.reserved.lookup (lx.key word)).getD (.name (String.ofList word)) := fun _ => rfl
    cases found : lx.reserved.lookup (lx.key word) with
    | some l => rw [means, means, kept word l found, found]
    | none =>
      have new := names (String.ofList word)
      rw [String.toList_ofList] at new
      rw [means, found] at token
      rw [means, means, new (named _ _ token) found, found]
  · rintro n t d call name place rfl
    exact ⟨n, place, d, call⟩

end Lexis

namespace Edition

/-- What is found among reserved words is one of their entries. -/
theorem mem_of_lookup {words : List (String × Lexeme)} {key : String} {l : Lexeme}
    (h : words.lookup key = some l) : (key, l) ∈ words := by
  obtain ⟨before, after, rfl, _⟩ := List.lookup_eq_some_iff.mp h
  simp

/-- The edition with procedures reserves one word more. -/
theorem symbols_agree_procedures {text : String}
    (free : ¬Edition.symbols.lexis.Names text "PROCEDURE") :
    Edition.symbols.lexis.Agrees Edition.procedures.lexis (.start text.toList) := by
  refine Lexis.agrees_of_words rfl ?_ ?_
  · intro word l found
    have found' : (Edition.symbols.reserved ++ [reservedEntry .procedure]).lookup
        (Edition.symbols.lexis.key word) = some l := by
      rw [List.lookup_append, show Edition.symbols.reserved.lookup _ = some l from found]
      rfl
    exact found'
  · intro name named none
    have other : name ≠ "PROCEDURE" := by
      rintro rfl
      exact free named
    have missing : (Edition.symbols.reserved ++ [reservedEntry .procedure]).lookup
        (Edition.symbols.lexis.key name.toList) = Option.none := by
      rw [List.lookup_append, show Edition.symbols.reserved.lookup _ = Option.none from none,
        Option.none_or, List.lookup_eq_none_iff]
      intro entry member
      obtain rfl := List.mem_singleton.mp member
      rw [Lexis.key, bne_iff_ne]
      exact fun same => other ((String.ofList_toList).symm.trans same)
    exact missing

/-- Where reserved words may be written in small letters, those in capitals stay reserved. -/
theorem procedures_agree_checks {text : String}
    (free : ∀ name, Edition.procedures.lexis.Names text name →
      Edition.checks.reserved.lookup (String.ofList (Text.capitals name.toList)) = none) :
    Edition.procedures.lexis.Agrees Edition.checks.lexis (.start text.toList) := by
  refine Lexis.agrees_of_words rfl ?_ fun name named _ => free name named
  intro word l found
  have capitals : ∀ entry ∈ Edition.procedures.reserved,
      Text.capitals entry.1.toList = entry.1.toList := by decide
  have same : Text.capitals (String.ofList word).toList = (String.ofList word).toList :=
    capitals _ (mem_of_lookup found)
  rw [String.toList_ofList] at same
  have key : Edition.checks.lexis.key word = Edition.procedures.lexis.key word := by
    show String.ofList (Text.capitals word) = String.ofList word
    rw [same]
  rw [key]
  exact found

/-- The marks are the same whether they are listed or taken from the kinds of tokens. -/
theorem mark_scopes : Edition.scopes.mark = Edition.places.mark := by
  funext x
  by_cases member : x ∈ markChars
  · have all : markChars.all (fun x => Edition.scopes.mark x = Edition.places.mark x) = true := by decide
    exact of_decide_eq_true (List.all_eq_true.mp all x member)
  · have none : ∀ e : Edition, e.mark x = none := by
      intro e
      cases marked : e.mark x with
      | none => rfl
      | some l => exact absurd (mem_markChars marked) member
    rw [none, none]

/-- So are the reserved words. -/
theorem lookup_reserved_scopes (key : String) :
    Edition.scopes.reserved.lookup key = Edition.places.reserved.lookup key := by
  have there : ∀ entry ∈ Edition.places.reserved, Edition.scopes.reserved.lookup entry.1 = some entry.2 := by
    decide
  have back : ∀ entry ∈ Edition.scopes.reserved, Edition.places.reserved.lookup entry.1 = some entry.2 := by
    decide
  cases found : Edition.scopes.reserved.lookup key with
  | some l => exact (back _ (mem_of_lookup found)).symm
  | none =>
    cases found' : Edition.places.reserved.lookup key with
    | none => rfl
    | some l =>
      rw [there _ (mem_of_lookup found')] at found
      cases found

/-- Editions that list marks and reserved words differ from those that take them from the kinds of tokens
in nothing but the order of the reserved words. -/
theorem lexis_scopes : Edition.scopes.lexis =
    Edition.places.lexis.withWords Edition.scopes.reserved Edition.scopes.foldsCase := by
  rw [lexis, mark_scopes]
  rfl

/-- The two read every text alike. -/
theorem places_agree_scopes (text : String) :
    Edition.places.lexis.Agrees Edition.scopes.lexis (.start text.toList) := by
  refine Lexis.agrees_of_words lexis_scopes (fun word l found => ?_) fun name _ none => ?_
  · exact (lookup_reserved_scopes _).trans found
  · exact (lookup_reserved_scopes _).trans none

/-! ## Grammars one after the other -/

/-- Procedures are declared behind the variables. -/
theorem symbols_widen_procedures : Edition.symbols.grammar.Widens Edition.procedures.grammar := by
  constructor <;> decide

/-- Declarations may be mixed, and names may follow statements. -/
theorem procedures_widen_checks : Edition.procedures.grammar.Widens Edition.checks.grammar := by
  constructor <;> decide

/-- Procedures may have parameters. -/
theorem checks_widen_scopes : Edition.checks.grammar.Widens Edition.scopes.grammar := by
  constructor <;> decide

/-- Declarations that stand in order may also be read as mixed ones. -/
theorem places_widen_scopes : Edition.places.grammar.Widens Edition.scopes.grammar := by
  constructor <;> decide

end Edition

/-! ## Parameters -/

namespace Decl

mutual

/-- The parameters of a procedure and of the procedures in it. -/
def parameterLists : Decl → List (List Binding)
  | .var _ => []
  | .procedure _ parameters declarations _ => parameters :: allParameterLists declarations

/-- The parameters of procedures and of the procedures in them. -/
def allParameterLists : List Decl → List (List Binding)
  | [] => []
  | declaration :: rest => declaration.parameterLists ++ allParameterLists rest

end

mutual

/-- Where procedures have no parameters, no procedure in a declaration has any. -/
theorem Fits.eq_nil_of_mem {g : Grammar} (none : g.parameters = false) {d : Decl} (h : d.Fits g) :
    ∀ parameters ∈ d.parameterLists, parameters = [] := by
  cases d with
  | var binding => simp [parameterLists]
  | procedure name parameters declarations body =>
    rw [parameterLists, List.forall_mem_cons]
    exact ⟨h.1 none, AllFit.eq_nil_of_mem none h.2.1⟩

/-- Where procedures have no parameters, no procedure in declarations has any. -/
theorem AllFit.eq_nil_of_mem {g : Grammar} (none : g.parameters = false) {declarations : List Decl}
    (h : AllFit g declarations) : ∀ parameters ∈ allParameterLists declarations, parameters = [] := by
  cases declarations with
  | nil => simp [allParameterLists]
  | cons d rest =>
    rw [allParameterLists, List.forall_mem_append]
    exact ⟨Fits.eq_nil_of_mem none h.1, AllFit.eq_nil_of_mem none h.2⟩

end

end Decl

/-- The parameters of all procedures of a tree. -/
def Node.parameterLists : Node → List (List Binding)
  | .decl d => d.parameterLists
  | .block b => Decl.allParameterLists b.declarations
  | .program p => Decl.allParameterLists p.block.declarations
  | .expr _ | .stmt _ | .type _ | .parameter _ => []

/-- Where procedures have no parameters, no procedure of a tree has any. -/
theorem Node.Fits.eq_nil_of_mem {g : Grammar} (none : g.parameters = false) {n : Node}
    (h : n.Fits g) : ∀ parameters ∈ n.parameterLists, parameters = [] := by
  cases n with
  | decl d => exact Decl.Fits.eq_nil_of_mem none h
  | block b => exact Decl.AllFit.eq_nil_of_mem none h.1
  | program p => exact Decl.AllFit.eq_nil_of_mem none h.1
  | _ => simp [parameterLists]

/-! ## Running does not see places -/

/-- The value of an expression does not depend on its places. -/
theorem Expr.eval_unplaced (rules : EvalRules) (m : Memory) (e : Expr) :
    e.unplaced.eval rules m = e.eval rules m := by
  induction e with
  | literal | var | hole => rfl
  | signed sign place operand ih => rw [unplaced, eval, eval, ih]
  | binary operator place left right ihl ihr => rw [unplaced, eval, eval, ihl, ihr]

namespace Stmt

mutual

/-- Nor does what a statement does. -/
theorem run_unplaced (rules : EvalRules) (s : Stmt) : s.unplaced.run rules = s.run rules := by
  cases s with
  | compound children => rw [unplaced, run, run, runAll_unplaced]
  | assign target place value =>
    simp only [unplaced, run, Expr.eval_unplaced, Ident.unplaced]
  | call | empty => rfl

/-- Nor what statements do in order. -/
theorem runAll_unplaced (rules : EvalRules) (statements : List Stmt) :
    runAll rules (unplacedAll statements) = runAll rules statements := by
  cases statements with
  | nil => rfl
  | cons s rest => rw [unplacedAll, runAll, runAll, run_unplaced, runAll_unplaced]

end

end Stmt

/-- Nor what a tree does. -/
theorem Node.run_unplaced (rules : EvalRules) (n : Node) : n.unplaced.run rules = n.run rules := by
  cases n with
  | expr e => simp only [unplaced, run, Expr.eval_unplaced]
  | stmt s => rw [unplaced, run, run, Stmt.run_unplaced]
  | block b => rw [unplaced, run, run, Block.unplaced, Stmt.runAll_unplaced]
  | program p => rw [unplaced, run, run, Program.unplaced, Block.unplaced, Stmt.runAll_unplaced]
  | type | parameter | decl => rfl

/-- The editions with a symbol table or scopes. -/
def Edition.analysing : List Edition := [.symbols, .procedures, .checks, .scopes, .places, .calls]

/-- Two texts whose trees differ in places alone do the same to memory. -/
theorem Session.run_eq_of_unplaced {e e' : Edition} (rules : e.evalRules = e'.evalRules) {text : String}
    {tree tree' : Node} {reading reading' : Reading} (accepts : e.Accepts text tree reading)
    (accepts' : e'.Accepts text tree' reading') (same : tree.unplaced = tree'.unplaced)
    {analysis? analysis?' : Option Analysis} {s s' : Session} (memory : s.memory = s'.memory) :
    (s.step e analysis? .run (some text)).result = (s'.step e' analysis?' .run (some text)).result ∧
      (s.step e analysis? .run (some text)).session.memory =
        (s'.step e' analysis?' .run (some text)).session.memory := by
  have run : tree.run e.evalRules s.memory = tree'.run e'.evalRules s'.memory := by
    rw [← Node.run_unplaced, same, Node.run_unplaced, rules, memory]
  rw [Session.step_run accepts, Session.step_run accepts', Session.run, Session.run, run]
  cases tree'.run e'.evalRules s'.memory <;> exact ⟨rfl, rfl⟩

/-- Editions with programs, one after the other. The first two read alike. Each of the next ones reads what
the one before it reads, if no name becomes a reserved word; parameters are new with the edition with
scopes. What the edition with places reads, the one with scopes reads too. From the edition with a symbol
table on, trees that differ in places alone run alike. -/
theorem editions_read_alike (text : String) :
    Edition.declarations.lexis.attempt Edition.declarations.grammar.parse text =
      Edition.symbols.lexis.attempt Edition.symbols.grammar.parse text ∧
    (∀ tree reading, Edition.symbols.Accepts text tree reading →
      ¬Edition.symbols.lexis.Names text "PROCEDURE" →
      Edition.procedures.Accepts text tree reading) ∧
    (∀ tree reading, Edition.procedures.Accepts text tree reading →
      (∀ name, Edition.procedures.lexis.Names text name →
        Edition.checks.reserved.lookup (String.ofList (Text.capitals name.toList)) = none) →
      Edition.checks.Accepts text tree reading) ∧
    (∀ tree reading, Edition.checks.Accepts text tree reading →
      Edition.scopes.Accepts text tree reading ∧ ∀ parameters ∈ tree.parameterLists, parameters = []) ∧
    (∀ tree reading, Edition.places.Accepts text tree reading →
      Edition.scopes.Accepts text tree reading) ∧
    ∀ e ∈ Edition.analysing, ∀ e' ∈ Edition.analysing, ∀ tree reading tree' reading',
      e.Accepts text tree reading → e'.Accepts text tree' reading' → tree.unplaced = tree'.unplaced →
      ∀ logs logs' (s s' : Session), s.memory = s'.memory →
        (s.step e (e.analysis? logs) .run (some text)).result =
          (s'.step e' (e'.analysis? logs') .run (some text)).result ∧
        (s.step e (e.analysis? logs) .run (some text)).session.memory =
          (s'.step e' (e'.analysis? logs') .run (some text)).session.memory := by
  refine ⟨rfl, fun tree reading h free => ?_, fun tree reading h free => ?_, fun tree reading h => ?_,
    fun tree reading h => ?_, ?_⟩
  · exact Grammar.attempt_of_widens Edition.symbols_widen_procedures
      (Edition.symbols_agree_procedures free) rfl h
  · exact Grammar.attempt_of_widens Edition.procedures_widen_checks
      (Edition.procedures_agree_checks free) rfl h
  · have agrees : Edition.checks.lexis.Agrees Edition.scopes.lexis (.start text.toList) :=
      fun _ _ _ call => call
    have fits : tree.Fits Edition.checks.grammar := Grammar.fits_of_attempt h
    exact ⟨Grammar.attempt_of_widens Edition.checks_widen_scopes agrees rfl h, fits.eq_nil_of_mem rfl⟩
  · exact Grammar.attempt_of_widens Edition.places_widen_scopes (Edition.places_agree_scopes text) rfl h
  · intro e member e' member' tree reading tree' reading' accepts accepts' same logs logs' s s' memory
    have rules : ∀ e ∈ Edition.analysing, e.evalRules = ⟨false, false⟩ := by decide
    exact Session.run_eq_of_unplaced ((rules e member).trans (rules e' member').symm) accepts accepts'
      same memory

/-- A quotient by zero behind an assignment, in four editions. -/
theorem editions_read_alike_quotient_by_zero :
    let text := "PROGRAM p; VAR a : INTEGER; BEGIN a := 7; a := a DIV 0 END."
    ¬Edition.symbols.lexis.Names text "PROCEDURE" ∧
    (∀ name, Edition.procedures.lexis.Names text name →
      Edition.checks.reserved.lookup (String.ofList (Text.capitals name.toList)) = none) ∧
    ∃ tree reading, Edition.symbols.Accepts text tree reading ∧
      Edition.procedures.Accepts text tree reading ∧ Edition.checks.Accepts text tree reading ∧
      Edition.scopes.Accepts text tree reading ∧ (∀ parameters ∈ tree.parameterLists, parameters = []) ∧
      let early := (Session.initial (Edition.symbols.analysis? false)).step .symbols
        (Edition.symbols.analysis? false) .run (some text)
      let late := (Session.initial (Edition.scopes.analysis? true)).step .scopes
        (Edition.scopes.analysis? true) .run (some text)
      early.result = late.result ∧ early.session.memory = late.session.memory := by
  intro text
  let marks : List Mark :=
    [⟨.reserved .program, ⟨1, 1⟩, ' '⟩, ⟨.name "p", ⟨1, 9⟩, ';'⟩,
     ⟨.punctuation .semicolon, ⟨1, 10⟩, ' '⟩, ⟨.reserved .var, ⟨1, 12⟩, ' '⟩,
     ⟨.name "a", ⟨1, 16⟩, ' '⟩, ⟨.punctuation .colon, ⟨1, 18⟩, ' '⟩,
     ⟨.reserved .integerType, ⟨1, 20⟩, ';'⟩, ⟨.punctuation .semicolon, ⟨1, 27⟩, ' '⟩,
     ⟨.reserved .beginBlock, ⟨1, 29⟩, ' '⟩, ⟨.name "a", ⟨1, 35⟩, ' '⟩,
     ⟨.punctuation .assign, ⟨1, 37⟩, ' '⟩, ⟨.literal (.whole 7), ⟨1, 40⟩, ';'⟩,
     ⟨.punctuation .semicolon, ⟨1, 41⟩, ' '⟩, ⟨.name "a", ⟨1, 43⟩, ' '⟩,
     ⟨.punctuation .assign, ⟨1, 45⟩, ' '⟩, ⟨.name "a", ⟨1, 48⟩, ' '⟩, ⟨.operator .div, ⟨1, 50⟩, ' '⟩,
     ⟨.literal (.whole 0), ⟨1, 54⟩, ' '⟩, ⟨.reserved .endBlock, ⟨1, 56⟩, '.'⟩,
     ⟨.punctuation .dot, ⟨1, 59⟩, none⟩]
  have reads : Edition.symbols.lexis.Reads text marks := by decide +kernel
  have reads' : Edition.procedures.lexis.Reads text marks := by decide +kernel
  have free : ¬Edition.symbols.lexis.Names text "PROCEDURE" := by
    intro named
    exact absurd (reads.mem_of_names named) (by decide)
  have free' : ∀ name, Edition.procedures.lexis.Names text name →
      Edition.checks.reserved.lookup (String.ofList (Text.capitals name.toList)) = none := by
    intro name named
    have among := reads'.mem_of_names named
    have known : name = "p" ∨ name = "a" := by
      simpa [marks] using among
    rcases known with rfl | rfl <;> decide
  obtain ⟨_, toProcedures, toChecks, toScopes, _, alike⟩ := editions_read_alike text
  have yields : Edition.symbols.yields text (fun _ => true) = true := by decide +kernel
  obtain ⟨tree, reading, accepts, _⟩ := Edition.exists_accepts yields
  have procedures := toProcedures tree reading accepts free
  have checks := toChecks tree reading procedures free'
  obtain ⟨scopes, none⟩ := toScopes tree reading checks
  have runs := alike .symbols (by decide) .scopes (by decide) tree reading tree reading accepts scopes rfl
    false true (.initial (Edition.symbols.analysis? false)) (.initial (Edition.scopes.analysis? true)) rfl
  exact ⟨free, free', tree, reading, accepts, procedures, checks, scopes, none, runs.1, runs.2⟩

end LittlePascal
