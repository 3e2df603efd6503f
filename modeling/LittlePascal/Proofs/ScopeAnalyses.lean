import LittlePascal.Proofs.Extension
import LittlePascal.Proofs.Sessions
import LittlePascal.Proofs.Succession
import LittlePascal.Proofs.Verdict

/-! # The two analyses of scopes

The edition with scopes does not know literals and signs when it analyses a tree; the edition with places
does. On trees that hold neither, the two analyses are the same work: they write the same lines, fail at the
same name and leave the same scopes open. Only the words for the fault differ.

Main definitions: `Node.isSymbolic`, trees without literals and signs.

Main statements:
* `Scoped.stmts_literals`, `Scoped.decls_literals`: without literals and signs the two analyses are equal;
* `Program.isNaming_of_mem_violations`: a violation is a name declared twice or a name that is not declared;
* `scope_analyses_concur`: what the two editions make of a text. -/

namespace LittlePascal

/-! ## Trees without literals and signs -/

/-- Whether an expression is made of variables and operators between them. -/
def Expr.isSymbolic : Expr → Bool
  | .literal _ _ | .signed _ _ _ => false
  | .binary _ _ left right => left.isSymbolic && right.isSymbolic
  | .var _ | .hole => true

namespace Stmt

mutual

/-- Whether a statement holds no literal and no sign. -/
def isSymbolic : Stmt → Bool
  | .compound children => allSymbolic children
  | .assign _ _ value => value.isSymbolic
  | .call _ arguments => arguments.all Expr.isSymbolic
  | .empty => true

/-- Whether statements hold no literal and no sign. -/
def allSymbolic : List Stmt → Bool
  | [] => true
  | s :: rest => s.isSymbolic && allSymbolic rest

end

end Stmt

namespace Decl

mutual

/-- Whether a declaration holds no literal and no sign. -/
def isSymbolic : Decl → Bool
  | .var _ => true
  | .procedure _ _ declarations body => allSymbolic declarations && Stmt.allSymbolic body

/-- Whether declarations hold no literal and no sign. -/
def allSymbolic : List Decl → Bool
  | [] => true
  | d :: rest => d.isSymbolic && allSymbolic rest

end

end Decl

/-- Whether a block holds no literal and no sign. -/
def Block.isSymbolic (b : Block) : Bool := Decl.allSymbolic b.declarations && Stmt.allSymbolic b.body

/-- Whether a tree holds no literal and no sign. -/
def Node.isSymbolic : Node → Bool
  | .expr e => e.isSymbolic
  | .stmt s => s.isSymbolic
  | .decl d => d.isSymbolic
  | .block b => b.isSymbolic
  | .program p => p.block.isSymbolic
  | .type _ | .parameter _ => true

/-! ## The analyses without literals and signs -/

namespace Scoped

variable {literals literals' logs : Bool}

/-- The variables of an expression are used alike. -/
theorem expr_literals {e : Expr} (symbolic : e.isSymbolic = true) :
    expr ⟨literals, logs⟩ e = expr ⟨literals', logs⟩ e := by
  induction e with
  | literal _ _ | signed _ _ _ _ => cases symbolic
  | var _ | hole => rfl
  | binary _ _ left right ihLeft ihRight =>
    rw [Expr.isSymbolic, Bool.and_eq_true] at symbolic
    rw [expr, expr, ihLeft symbolic.1, ihRight symbolic.2]

/-- The variables of arguments are used alike. -/
theorem arguments_literals {arguments : List Expr} (symbolic : arguments.all Expr.isSymbolic = true) :
    arguments.forM (expr ⟨literals, logs⟩) = arguments.forM (expr ⟨literals', logs⟩) := by
  induction arguments with
  | nil => rfl
  | cons e rest ih =>
    rw [List.all_cons, Bool.and_eq_true] at symbolic
    have first : expr ⟨literals, logs⟩ e = expr ⟨literals', logs⟩ e := expr_literals symbolic.1
    rw [List.forM, List.forM, first, ih symbolic.2]

mutual

/-- The variables of a statement are used alike. -/
theorem stmt_literals : ∀ {s : Stmt}, s.isSymbolic = true →
    stmt ⟨literals, logs⟩ s = stmt ⟨literals', logs⟩ s
  | .compound children, symbolic => by
    rw [stmt, stmt, stmts_literals symbolic]
  | .assign _ _ value, symbolic => by
    rw [stmt, stmt, expr_literals symbolic]
    rfl
  | .call _ arguments, symbolic => by
    rw [stmt, stmt, arguments_literals symbolic]
  | .empty, _ => rfl

/-- The variables of statements are used alike. -/
theorem stmts_literals : ∀ {body : List Stmt}, Stmt.allSymbolic body = true →
    stmts ⟨literals, logs⟩ body = stmts ⟨literals', logs⟩ body
  | [], _ => rfl
  | s :: rest, symbolic => by
    rw [Stmt.allSymbolic, Bool.and_eq_true] at symbolic
    rw [stmts, stmts, stmt_literals symbolic.1, stmts_literals symbolic.2]

end

mutual

/-- A declaration is analysed alike. -/
theorem decl_literals : ∀ {d : Decl}, d.isSymbolic = true →
    decl ⟨literals, logs⟩ d = decl ⟨literals', logs⟩ d
  | .var _, _ => rfl
  | .procedure p parameters inner body, symbolic => by
    rw [Decl.isSymbolic, Bool.and_eq_true] at symbolic
    -- what opens and closes the scope knows of the lines only
    rw [decl_procedure, decl_procedure, decls_literals symbolic.1, stmts_literals symbolic.2]
    rfl

/-- Declarations are analysed alike. -/
theorem decls_literals : ∀ {ds : List Decl}, Decl.allSymbolic ds = true →
    decls ⟨literals, logs⟩ ds = decls ⟨literals', logs⟩ ds
  | [], _ => rfl
  | d :: rest, symbolic => by
    rw [Decl.allSymbolic, Bool.and_eq_true] at symbolic
    rw [decls, decls, decl_literals symbolic.1, decls_literals symbolic.2]

end

/-- A program is analysed alike. -/
theorem program_literals {p : Program} (symbolic : p.block.isSymbolic = true) :
    program ⟨literals, logs⟩ p = program ⟨literals', logs⟩ p := by
  rw [Block.isSymbolic, Bool.and_eq_true] at symbolic
  rw [program_eq_beginning, program_eq_beginning, block, block, decls_literals symbolic.1,
    stmts_literals symbolic.2]
  rfl

end Scoped

/-! ## The faults of an analysis -/

/-- A name declared twice, or a name that is not declared. -/
def Fault.IsNaming (fault : Fault) : Prop := ∃ id, fault = .duplicate id ∨ fault = .undeclared id

/-- An undeclared use is a fault of naming. -/
theorem isNaming_of_mem_undeclaredUses {visible : List String} {ids : List Ident} {fault : Fault}
    (member : fault ∈ undeclaredUses visible ids) : fault.IsNaming := by
  obtain ⟨id, _, rfl⟩ := List.mem_map.mp member
  exact ⟨id, .inr rfl⟩

namespace Decl

mutual

/-- The violations in a declaration are faults of naming. -/
theorem isNaming_of_mem_violations {visible here : List String} {fault : Fault} :
    ∀ {d : Decl}, fault ∈ d.violations visible here → fault.IsNaming
  | .var binding, member => by
    rw [violations] at member
    split at member
    · exact ⟨binding.id, .inl (List.mem_singleton.mp member)⟩
    · cases member
  | .procedure _ _ ds _, member => by
    rw [violations, List.mem_append] at member
    rcases member with member | member
    · exact isNaming_of_mem_violationsAll member
    · exact isNaming_of_mem_undeclaredUses member

/-- The violations in declarations are faults of naming. -/
theorem isNaming_of_mem_violationsAll {visible here : List String} {fault : Fault} :
    ∀ {ds : List Decl}, fault ∈ violationsAll visible here ds → fault.IsNaming
  | [], member => by cases member
  | d :: rest, member => by
    rw [violationsAll, List.mem_append] at member
    rcases member with member | member
    · exact isNaming_of_mem_violations member
    · exact isNaming_of_mem_violationsAll member

end

end Decl

/-- The violations in a program are faults of naming. -/
theorem Program.isNaming_of_mem_violations {p : Program} {fault : Fault} (member : fault ∈ p.violations) :
    fault.IsNaming := by
  rw [Program.violations, Block.violations, List.mem_append] at member
  rcases member with member | member
  · exact Decl.isNaming_of_mem_violationsAll member
  · exact isNaming_of_mem_undeclaredUses member

/-! ## What the two editions tell -/

/-- What is put between two texts can be told. -/
theorem between_inj {before behind x y : String} : before ++ x ++ behind = before ++ y ++ behind ↔ x = y := by
  rw [String.append_left_inj, String.append_right_inj]

/-- The two faults of naming have different words. -/
theorem duplicate_words_ne_undeclared_words (x y : String) :
    "Error: Duplicate identifier '" ++ x ++ "' found" ≠
      "Error: Symbol(identifier) not found '" ++ y ++ "'" := by
  intro same
  have letters := congrArg (fun s : String => s.toList[7]?) same
  have inFirst : ∀ a b c : String, 7 < a.toList.length → (a ++ b ++ c).toList[7]? = a.toList[7]? := by
    intro a b c long
    rw [String.toList_append, String.toList_append, List.append_assoc, List.getElem?_append_left long]
  rw [inFirst _ _ _ (by decide), inFirst _ _ _ (by decide)] at letters
  exact absurd letters (by decide)

namespace StepOutcome

/-- A step fails, and an edition words the fault so. -/
def Reports (e : Edition) (outcome : StepOutcome) (message : String) : Prop :=
  outcome.fault?.map (Fault.message e.wording) = some message

/-- A step reports a message if it fails with a fault of these words. -/
theorem reports_iff {e : Edition} {outcome : StepOutcome} {message : String} :
    outcome.Reports e message ↔ ∃ fault, outcome.result = .error fault ∧ fault.message e.wording = message := by
  simp only [Reports, Option.map_eq_some_iff, fault?_eq_some]

end StepOutcome

section Reports

variable {e : Edition} {outcome : StepOutcome} {x : String}

/-- If a step can only fail with a fault of naming, its words for a name declared twice tell what failed. -/
theorem reports_duplicate_iff (plain : e.wording = .plain)
    (naming : ∀ fault, outcome.result = .error fault → fault.IsNaming) :
    outcome.Reports e ("Error: Duplicate identifier '" ++ x ++ "' found") ↔
      ∃ place, outcome.result = .error (.duplicate ⟨x, place⟩) := by
  rw [StepOutcome.reports_iff, plain]
  constructor
  · rintro ⟨fault, failed, words⟩
    obtain ⟨⟨name, place⟩, rfl | rfl⟩ := naming fault failed
    · obtain rfl : name = x := between_inj.mp words
      exact ⟨place, failed⟩
    · exact absurd words.symm (duplicate_words_ne_undeclared_words x name)
  · rintro ⟨place, failed⟩
    exact ⟨_, failed, rfl⟩

/-- And its words for a name that is not declared tell that this failed. -/
theorem reports_undeclared_iff (plain : e.wording = .plain)
    (naming : ∀ fault, outcome.result = .error fault → fault.IsNaming) :
    outcome.Reports e ("Error: Symbol(identifier) not found '" ++ x ++ "'") ↔
      ∃ place, outcome.result = .error (.undeclared ⟨x, place⟩) := by
  rw [StepOutcome.reports_iff, plain]
  constructor
  · rintro ⟨fault, failed, words⟩
    obtain ⟨⟨name, place⟩, rfl | rfl⟩ := naming fault failed
    · exact absurd words (duplicate_words_ne_undeclared_words name x)
    · obtain rfl : name = x := between_inj.mp words
      exact ⟨place, failed⟩
  · rintro ⟨place, failed⟩
    exact ⟨_, failed, rfl⟩

end Reports

namespace Session

variable {e : Edition} {rules : ScopeRules} {p : Program} {text : String} {reading : Reading} {st : ScopeState}

/-- A program that is read is analysed in its session. -/
theorem step_scoped (accepted : e.Accepts text (.program p) reading) (s : Session) :
    s.step e (some (.scoped rules)) .analyse (some text) =
      ⟨(s.analyse (.scoped rules) (.program p)).1, some reading, (s.analyse (.scoped rules) (.program p)).2⟩ := by
  rw [step, show e.lexis.attempt e.grammar.parse text = _ from accepted]
  rfl

/-- The analysis of a program succeeds in a fresh session. -/
theorem step_scoped_of_ok (accepted : e.Accepts text (.program p) reading)
    (done : Scoped.program rules p ⟨[], #[]⟩ = .ok () st) :
    (initial (some (.scoped rules))).step e (some (.scoped rules)) .analyse (some text) =
      ⟨.ok (some .missing), some reading, ⟨.empty, some (.scopes st)⟩⟩ := by
  have found : Analysis.node (.scoped rules) (.program p)
      ((initial (some (.scoped rules))).survey?.getD (Analysis.scoped rules).initial) = .ok () (.scopes st) :=
    Survey.onScopes_of_ok done
  rw [step_scoped accepted, analyse, found]
  rfl

/-- The analysis of a program fails in a fresh session. -/
theorem step_scoped_of_error {fault : Fault} (accepted : e.Accepts text (.program p) reading)
    (failed : Scoped.program rules p ⟨[], #[]⟩ = .error fault st) :
    (initial (some (.scoped rules))).step e (some (.scoped rules)) .analyse (some text) =
      ⟨.error fault, some reading, ⟨.empty, some (.scopes st)⟩⟩ := by
  have found : Analysis.node (.scoped rules) (.program p)
      ((initial (some (.scoped rules))).survey?.getD (Analysis.scoped rules).initial) = .error fault (.scopes st) :=
    Survey.onScopes_of_error failed
  rw [step_scoped accepted, analyse, found]
  rfl

end Session

/-- A program that the edition with places has read fails its analysis in a fresh session, if at all, with a
fault of naming. -/
theorem isNaming_of_analysis {p : Program} {text : String} {reading : Reading} {logs : Bool} {fault : Fault}
    {st : ScopeState} (accepted : Edition.places.Accepts text (.program p) reading)
    (failed : Scoped.program ⟨true, logs⟩ p ⟨[], #[]⟩ = .error fault st) : fault.IsNaming := by
  have free := Grammar.hasCall_of_attempt Edition.full_places rfl accepted
  have parsed := Grammar.attempt_transfer Edition.full_places Edition.full_calls rfl accepted free
  obtain ⟨_, same, orderly⟩ := orderly_of_attempt parsed
  cases same
  have settles := @Scoped.program_settles ⟨true, logs⟩ ⟨[], #[]⟩ rfl p
    orderly.declarations.regular orderly.body rfl
  exact Program.isNaming_of_mem_violations (List.mem_of_mem_head? (settles.error_iff.mp ⟨st, failed⟩))

/-- The analyses of the edition with scopes and of the edition with places concur on every text that the
latter reads as a tree without literals and signs. In fresh sessions, with lines written, they write the same
lines, leave the same scopes, and both succeed or both fail at one name that is declared twice or not
declared; the former words the fault with the name and the latter has the token of that name. -/
theorem scope_analyses_concur {text : String} {tree : Node} {reading : Reading}
    (accepted : Edition.places.Accepts text tree reading) (symbolic : tree.isSymbolic = true) :
    Edition.scopes.Accepts text tree reading ∧
    ∃ plain located, Edition.scopes.analysis? true = some plain ∧ Edition.places.analysis? true = some located ∧
      let early := (Session.initial plain).step .scopes plain .analyse (some text)
      let late := (Session.initial located).step .places located .analyse (some text)
      early.session.log = late.session.log ∧
      early.session.survey?.map plain.tableTexts = late.session.survey?.map located.tableTexts ∧
      (early.result = .ok (some .missing) ∧ late.result = .ok (some .missing) ∨
        ∃ id : Ident,
          early.result = .error (.duplicate id) ∧ late.result = .error (.duplicate id) ∨
          early.result = .error (.undeclared id) ∧ late.result = .error (.undeclared id)) ∧
      ∀ x,
        (early.Reports .scopes ("Error: Duplicate identifier '" ++ x ++ "' found") ↔
          ∃ place, late.result = .error (.duplicate ⟨x, place⟩)) ∧
        (early.Reports .scopes ("Error: Symbol(identifier) not found '" ++ x ++ "'") ↔
          ∃ place, late.result = .error (.undeclared ⟨x, place⟩)) := by
  have accepted' : Edition.scopes.Accepts text tree reading :=
    Grammar.attempt_of_widens Edition.places_widen_scopes (Edition.places_agree_scopes text) rfl accepted
  refine ⟨accepted', .scoped ⟨false, true⟩, .scoped ⟨true, true⟩, rfl, rfl, ?_⟩
  intro early late
  obtain ⟨_, p, _, rfl, _⟩ := Grammar.reads_of_attempt Edition.full_places accepted
  have work : Scoped.program ⟨false, true⟩ p = Scoped.program ⟨true, true⟩ p :=
    Scoped.program_literals symbolic
  cases outcome : Scoped.program ⟨true, true⟩ p ⟨[], #[]⟩ with
  | ok _ st =>
    have first : early = _ := Session.step_scoped_of_ok accepted' ((congrFun work _).trans outcome)
    have second : late = _ := Session.step_scoped_of_ok accepted outcome
    rw [first, second]
    refine ⟨rfl, rfl, .inl ⟨rfl, rfl⟩, fun x => ⟨reports_duplicate_iff rfl ?_, reports_undeclared_iff rfl ?_⟩⟩ <;>
      (rintro fault ⟨⟩)
  | error fault st =>
    have first : early = _ := Session.step_scoped_of_error accepted' ((congrFun work _).trans outcome)
    have second : late = _ := Session.step_scoped_of_error accepted outcome
    have naming : fault.IsNaming := isNaming_of_analysis accepted outcome
    have named : ∀ fault', (.error fault : Except Fault (Option Value)) = .error fault' → fault'.IsNaming := by
      rintro _ ⟨⟩
      exact naming
    rw [first, second]
    refine ⟨rfl, rfl, .inr ?_, fun x => ⟨reports_duplicate_iff rfl named, reports_undeclared_iff rfl named⟩⟩
    obtain ⟨id, rfl | rfl⟩ := naming
    · exact ⟨id, .inl ⟨rfl, rfl⟩⟩
    · exact ⟨id, .inr ⟨rfl, rfl⟩⟩

/-- A name that only a procedure declares is not found behind that procedure. -/
theorem scope_analyses_concur_behind_procedure :
    let text := "PROGRAM p; PROCEDURE q(a : REAL); VAR y : REAL; BEGIN y := a END; BEGIN a := y END."
    let early := (Session.initial (Edition.scopes.analysis? true)).step .scopes (Edition.scopes.analysis? true)
      .analyse (some text)
    let late := (Session.initial (Edition.places.analysis? true)).step .places (Edition.places.analysis? true)
      .analyse (some text)
    ∃ tree reading, Edition.places.Accepts text tree reading ∧ tree.isSymbolic = true ∧
      Edition.scopes.Accepts text tree reading ∧ early.session.log = late.session.log ∧
      late.result = .error (.undeclared ⟨"y", ⟨1, 78⟩⟩) ∧
      early.Reports .scopes "Error: Symbol(identifier) not found 'y'" := by
  intro text early late
  have yields : Edition.places.yields text Node.isSymbolic = true := by decide +kernel
  obtain ⟨tree, reading, accepted, symbolic⟩ := Edition.exists_accepts yields
  have failed : late.fault? = some (.undeclared ⟨"y", ⟨1, 78⟩⟩) := by decide +kernel
  rw [StepOutcome.fault?_eq_some] at failed
  obtain ⟨accepted', _, _, ⟨⟩, ⟨⟩, lines, _, _, told⟩ := scope_analyses_concur accepted symbolic
  exact ⟨tree, reading, accepted, symbolic, accepted', lines, failed, (told "y").2.mpr ⟨_, failed⟩⟩

end LittlePascal
