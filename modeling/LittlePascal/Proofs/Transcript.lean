import LittlePascal.Proofs.Copies
import LittlePascal.Proofs.Integers

/-! # The lines that evaluation writes

The first edition with trees computes every node twice and writes a line with its value in between. For a tree
with a value the lines are determined: those of the operands of the root, the value of the root, and those of its
operands once more. The value is the one that the next edition finds, which computes every node once.

Main definitions:
* `Expr.told`: the integers that a tree tells, in order;
* `Tells`: what a computation comes to, and the integers that it tells on the way.

Main statements:
* `Tells.twice`, `Expr.tells`: computing twice, and computing a tree;
* `wholeText_injective`: an integer can be read off its text;
* `values_told_twice`: the values that both editions find, and the lines. -/

namespace LittlePascal

/-! ## What a tree tells -/

/-- The integers that a tree tells: a number tells itself, and an operator its value between two accounts of what
its operands tell. -/
def Expr.told : Expr → List Int
  | .literal (.whole n) _ => [(n : Int)]
  | .binary operator place left right =>
    let operands := left.told ++ right.told
    operands ++ (Expr.binary operator place left right).integer?.toList ++ operands
  | _ => []

/-- Places do not matter. -/
theorem Expr.told_unplaced (e : Expr) : e.unplaced.told = e.told := by
  induction e with
  | literal l => cases l <;> rfl
  | binary o place left right ihLeft ihRight =>
    have value := integer?_unplaced (.binary o place left right)
    rw [unplaced] at value ⊢
    rw [told, value, ihLeft, ihRight, told]
  | var | hole | signed => rfl

/-- The line that tells an integer. -/
def toldLine (n : Int) : String := traceLine (wholeText n)

/-- Whether a limit allows to write all these integers. -/
def fitAll (limit : DigitLimit) (told : List Int) : Bool := told.all fun n => (Value.whole n).fits limit

@[simp] theorem fitAll_append (limit : DigitLimit) (told told' : List Int) :
    fitAll limit (told ++ told') = (fitAll limit told && fitAll limit told') := List.all_append

@[simp] theorem fitAll_off (told : List Int) : fitAll .off told = true := by simp [fitAll]

/-- A computation comes to an integer and writes the lines of these integers on the way, or there is no integer
and it meets a division by zero. If one of the integers cannot be written, the computation ends there, unless it
has met a division by zero before. -/
structure Tells (limit : DigitLimit) (work : Traced Value) (v : Option Int) (told : List Int) : Prop where
  value : ∀ {n : Int}, v = some n → fitAll limit told = true → ∀ trace,
    work trace = .ok (.whole n) (trace ++ (told.map toldLine).toArray)
  fault : v = none → fitAll limit told = true → ∀ trace,
    ∃ trace', work trace = .error (.arithmetic .wholeByZero) trace'
  long : fitAll limit told = false → ∀ trace, ∃ trace',
    work trace = .error (.malformedWhole (.untold limit.most)) trace' ∨
      v = none ∧ work trace = .error (.arithmetic .wholeByZero) trace'

namespace Tells

variable {limit : DigitLimit} {work : Traced Value} {v w : Option Int} {told told' : List Int}

/-- A result tells nothing by itself. -/
theorem result (v : Option Int) : Tells limit (MonadExcept.ofExcept (Calculation.result v)) v [] where
  value known _ trace := by
    rw [known, List.map_nil, Array.append_empty]
    rfl
  fault none _ trace := ⟨trace, by rw [none]; rfl⟩
  long other := by cases other

/-- Computations in sequence, if nothing comes of a division by zero. -/
theorem bind {further : Value → Traced Value} (first : Tells limit work v told) (strict : v = none → w = none)
    (later : ∀ n, v = some n → Tells limit (further (.whole n)) w told') :
    Tells limit (work >>= further) w (told ++ told') where
  value {n} known fit trace := by
    rw [fitAll_append, Bool.and_eq_true] at fit
    cases v with
    | none =>
      rw [strict rfl] at known
      cases known
    | some x =>
      rw [Work.bind_of_ok (first.value rfl fit.1 trace), (later x rfl).value known fit.2]
      simp [Array.append_assoc]
  fault none fit trace := by
    rw [fitAll_append, Bool.and_eq_true] at fit
    cases v with
    | none =>
      obtain ⟨trace', failed⟩ := first.fault rfl fit.1 trace
      exact ⟨trace', Work.bind_of_error failed⟩
    | some x =>
      rw [Work.bind_of_ok (first.value rfl fit.1 trace)]
      exact (later x rfl).fault none fit.2 _
  long unfit trace := by
    cases fit : fitAll limit told with
    | false =>
      obtain ⟨trace', stopped | ⟨none, failed⟩⟩ := first.long fit trace
      · exact ⟨trace', .inl (Work.bind_of_error stopped)⟩
      · exact ⟨trace', .inr ⟨strict none, Work.bind_of_error failed⟩⟩
    | true =>
      rw [fitAll_append, fit, Bool.true_and] at unfit
      cases v with
      | none =>
        obtain ⟨trace', failed⟩ := first.fault rfl fit trace
        exact ⟨trace', .inr ⟨strict rfl, Work.bind_of_error failed⟩⟩
      | some x =>
        rw [Work.bind_of_ok (first.value rfl fit trace)]
        exact (later x rfl).long unfit _

/-- A computation that is done twice tells its value in between. -/
theorem twice (h : Tells limit work v told) :
    Tells limit (LittlePascal.twice (tellValue limit) work) v (told ++ v.toList ++ told) where
  value {n} known fit trace := by
    subst known
    rw [fitAll_append, fitAll_append, Bool.and_eq_true, Bool.and_eq_true] at fit
    have line : (trace ++ (told.map toldLine).toArray).push (traceLine (Value.whole n).text) =
        trace ++ ((told ++ [n]).map toldLine).toArray := by
      simp [toldLine, Value.text]
    have here : (Value.whole n).fits limit = true := by simpa [fitAll] using fit.1.2
    rw [LittlePascal.twice, Work.bind_of_ok (h.value rfl fit.2 trace), Work.bind_of_ok (tellValue_of_fits here _),
      line, h.value rfl fit.2]
    simp [Array.append_assoc]
  fault none fit trace := by
    rw [fitAll_append, Bool.and_eq_true] at fit
    obtain ⟨trace', failed⟩ := h.fault none fit.2 trace
    exact ⟨trace', Work.bind_of_error failed⟩
  long unfit trace := by
    cases fit : fitAll limit told with
    | false =>
      obtain ⟨trace', stopped | ⟨none, failed⟩⟩ := h.long fit trace
      · exact ⟨trace', .inl (Work.bind_of_error stopped)⟩
      · exact ⟨trace', .inr ⟨none, Work.bind_of_error failed⟩⟩
    | true =>
      -- then it is the value itself that cannot be written
      rw [fitAll_append, fitAll_append, fit, Bool.true_and, Bool.and_true] at unfit
      cases v with
      | none => cases unfit
      | some n =>
        have here : (Value.whole n).fits limit = false := by simpa [fitAll] using unfit
        rw [LittlePascal.twice, Work.bind_of_ok (h.value rfl fit trace)]
        exact ⟨_, .inl (Work.bind_of_error (tellValue_of_long here _))⟩

/-- Two operands, one after the other, and their combination. -/
theorem combined {left right : Traced Value} (first : Tells limit left v told)
    (second : Tells limit right w told') (o : Operator) :
    Tells limit
      (do
        let l ← left
        let r ← right
        MonadExcept.ofExcept (liftArithmetic (l.apply (Expr.operation Edition.trees.evalRules o) r)))
      (o.reckon v w) (told ++ told') := by
  have same : Expr.operation Edition.trees.evalRules o = Calculator.operation o := by cases o <;> rfl
  refine first.bind (fun none => by rw [none, Operator.reckon_none_left]) fun x known => ?_
  rw [← List.append_nil told']
  refine second.bind (fun none => by rw [none, Operator.reckon_none_right]) fun y known' => ?_
  rw [same, Reckoner.apply_operation, known, known', Operator.reckon_some]
  exact result _

end Tells

/-- A tree of whole numbers and operators tells what it should, and comes to its integer. -/
theorem Expr.tells (limit : DigitLimit) {e : Expr} (plain : e.isPlain = true) (numeric : e.isNumeric = true) :
    Tells limit (e.evalTraced Edition.trees.evalRules limit) e.integer? e.told := by
  induction e with
  | literal l =>
    cases l with
    | whole n => exact (Tells.result (some n)).twice
    | real => cases numeric
  | binary o _ left right ihLeft ihRight =>
    simp only [isPlain, Bool.and_eq_true] at plain
    simp only [isNumeric, Bool.and_eq_true] at numeric
    rw [evalTraced, told, integer?]
    exact ((ihLeft plain.1 numeric.1).combined (ihRight plain.2 numeric.2) o).twice
  | var | signed | hole => cases plain

/-! ## Integers read off lines -/

/-- An integer can be read off its text. -/
theorem wholeText_injective {m n : Int} (h : wholeText m = wholeText n) : m = n := by
  have natural : ∀ {i j : Nat}, i.repr = j.repr → i = j := by
    intro i j same
    exact (@repr_append_inj i j [] [] ' ' ' ' rfl rfl (by rw [same])).1
  -- no text of a natural number begins with a minus
  have unsigned : ∀ i j : Nat, "-" ++ i.repr ≠ j.repr := by
    intro i j same
    have member : '-' ∈ Nat.toDigits 10 j := by
      have first : '-' ∈ ("-" ++ i.repr).toList := by simp
      rwa [same, Nat.repr_eq_ofList_toDigits, String.toList_ofList] at first
    exact absurd (Nat.isDigit_of_mem_toDigits (by decide) (by decide) member) (by decide)
  unfold wholeText at h
  by_cases negative : m < 0
  · by_cases negative' : n < 0
    · rw [if_pos negative, if_pos negative'] at h
      have := natural ((String.append_right_inj _).mp h)
      omega
    · rw [if_pos negative, if_neg negative'] at h
      exact absurd h (unsigned _ _)
  · by_cases negative' : n < 0
    · rw [if_neg negative, if_pos negative'] at h
      exact absurd h.symm (unsigned _ _)
    · rw [if_neg negative, if_neg negative'] at h
      have := natural h
      omega

/-- A line tells one integer only. -/
theorem toldLine_injective {m n : Int} (h : toldLine m = toldLine n) : m = n :=
  wholeText_injective ((String.append_right_inj _).mp h)

/-! ## The values that both editions find -/

/-- The tree that the first edition with trees accepts is the one that it evaluates. -/
theorem Edition.expr_of_accepts {limit : DigitLimit} {text : String} {e : Expr} {reading : Reading}
    (accepts : Edition.trees.Accepts text (.expr e) reading limit) :
    ∃ r, (Edition.trees.lexis limit).openReading text = .ok r ∧
      (Edition.trees.grammar limit).expr r = .ok e reading := by
  obtain ⟨r, opened, parsed⟩ := Lexis.attempt_eq_done.mp accepts
  obtain ⟨node, t, whole, rest⟩ := Work.bind_eq_ok.mp parsed
  obtain ⟨tree, u, read, done⟩ := Work.bind_eq_ok.mp whole
  cases done
  cases rest
  exact ⟨r, opened, read⟩

/-- What the first edition with trees finds for a text that is a plain expression, and the lines it writes. -/
theorem Edition.trees_evaluate {limit : DigitLimit} {text : String} {ms : List Mark} {e : Expr}
    (reads : (Edition.trees.lexis limit).Reads text ms) (form : DerivesExpr .sum ms e)
    (plain : e.isPlain = true) :
    ∃ evaluation, Edition.trees.evaluate text limit = .ok evaluation ∧
      (fitAll limit e.told = true →
        evaluation.result = Calculation.result e.integer? ∧
        ∀ v, evaluation.result = .ok v → evaluation.trace.toList = e.told.map toldLine) ∧
      (fitAll limit e.told = false →
        evaluation.result = .error (.malformedWhole (.untold limit.most)) ∨
          e.integer? = none ∧ evaluation.result = .error (.arithmetic .wholeByZero)) := by
  have whole := Edition.whole_of_reads (show (Edition.signs.lexis limit).Reads text ms from reads)
  obtain ⟨reading, accepts⟩ := Edition.exists_accepts_of_plain reads form plain
  obtain ⟨r, opened, read⟩ := Edition.expr_of_accepts accepts
  have tells := Expr.tells limit plain (form.numeric whole).1
  refine ⟨_, Edition.evaluate_byTree rfl opened, ?_⟩
  rw [Edition.evaluateByTree, read]
  dsimp only
  rw [Edition.evaluateTree, if_pos rfl]
  constructor
  · intro fit
    cases known : e.integer? with
    | none =>
      obtain ⟨trace, failed⟩ := tells.fault known fit #[]
      rw [failed]
      exact ⟨rfl, fun v none => by cases none⟩
    | some n =>
      rw [tells.value known fit #[]]
      exact ⟨rfl, fun _ _ => by rw [Array.empty_append]⟩
  · intro unfit
    obtain ⟨trace, stopped | ⟨none, failed⟩⟩ := tells.long unfit #[]
    · rw [stopped]
      exact .inl rfl
    · rw [failed]
      exact .inr ⟨none, rfl⟩

/-- A text that is an expression of numbers, operators and parentheses. The edition with signs finds the integer
that its tree comes to, or meets a division by zero, and so does the first edition with trees. If there is an
integer, the lines that the latter writes tell what the tree tells, and nothing else can be read off them. Only
where a limit does not allow to write one of these integers the first edition with trees fails to tell it, unless
it meets a division by zero before. -/
theorem values_told_twice (limit : DigitLimit) {text : String} {ms : List Mark} {e : Expr}
    (reads : (Edition.trees.lexis limit).Reads text ms) (form : DerivesExpr .sum ms e)
    (plain : e.isPlain = true) :
    (∃ reading, Edition.trees.Accepts text (.expr e) reading limit) ∧
    Edition.signs.finds text limit = .ok (Calculation.result e.integer?) ∧
    ∃ evaluation, Edition.trees.evaluate text limit = .ok evaluation ∧
      (fitAll limit e.told = true →
        evaluation.result = Calculation.result e.integer? ∧
        ∀ v, evaluation.result = .ok v →
          evaluation.trace.toList = e.told.map toldLine ∧
          ∀ others, evaluation.trace.toList = others.map toldLine → others = e.told) ∧
      (fitAll limit e.told = false →
        evaluation.result = .error (.malformedWhole (.untold limit.most)) ∨
          e.integer? = none ∧ evaluation.result = .error (.arithmetic .wholeByZero)) := by
  have whole := Edition.whole_of_reads (show (Edition.signs.lexis limit).Reads text ms from reads)
  obtain ⟨numeric, filled⟩ := form.numeric whole
  have found : Edition.signs.finds text limit = .ok (Calculation.result e.integer?) := by
    rw [Edition.finds_of_derives reads form fun m member => (whole m member).1]
    exact congrArg _ (Expr.eval_eq_result rfl .empty numeric filled)
  obtain ⟨evaluation, begun, fitting, unfit⟩ := Edition.trees_evaluate reads form plain
  refine ⟨Edition.exists_accepts_of_plain reads form plain, found, evaluation, begun, fun fit => ?_, unfit⟩
  obtain ⟨result, lines⟩ := fitting fit
  refine ⟨result, fun v known => ⟨lines v known, fun others same => ?_⟩⟩
  rw [lines v known] at same
  exact ((List.map_inj_right fun _ _ => toldLine_injective).mp same).symm

/-- The five nodes of a difference of a quotient and a number write thirteen lines. The quotient is rounded down
before the difference is taken. Where one digit is allowed, a sum of two digits cannot be told. -/
theorem values_told_twice_quotient_first :
    (let text := "7 / 2 - 5"
    let quotient : Expr := .binary .slash ⟨1, 3⟩ (.literal (.whole 7) ⟨1, 1⟩) (.literal (.whole 2) ⟨1, 5⟩)
    let e : Expr := .binary .minus ⟨1, 7⟩ quotient (.literal (.whole 5) ⟨1, 9⟩)
    ∃ ms, Edition.trees.lexis.Reads text ms ∧ DerivesExpr .sum ms e ∧ e.isPlain = true ∧
      Edition.signs.finds text = .ok (.ok (.whole (-2))) ∧
      ∃ evaluation, Edition.trees.evaluate text = .ok evaluation ∧
        evaluation.result = .ok (.whole (-2)) ∧
        evaluation.trace.toList = [7, 2, 3, 7, 2, 5, -2, 7, 2, 3, 7, 2, 5].map toldLine) ∧
    Edition.signs.finds "9+1" ⟨1⟩ = .ok (.ok (.whole 10)) ∧
    ∃ evaluation, Edition.trees.evaluate "9+1" ⟨1⟩ = .ok evaluation ∧
      evaluation.result = .error (.malformedWhole (.untold 1)) := by
  constructor
  · intro text quotient e
    let seven : Mark := ⟨.literal (.whole 7), ⟨1, 1⟩, ' '⟩
    let slash : Mark := ⟨.operator .slash, ⟨1, 3⟩, ' '⟩
    let two : Mark := ⟨.literal (.whole 2), ⟨1, 5⟩, ' '⟩
    let minus : Mark := ⟨.operator .minus, ⟨1, 7⟩, ' '⟩
    let five : Mark := ⟨.literal (.whole 5), ⟨1, 9⟩, none⟩
    have reads : Edition.trees.lexis.Reads text ([seven] ++ slash :: [two] ++ minus :: [five]) := by decide
    have form : DerivesExpr .sum ([seven] ++ slash :: [two] ++ minus :: [five]) e :=
      .added (.product (.multiplied (.factor (.literal rfl)) rfl (by decide) (.literal rfl))) rfl (by decide)
        (.factor (.literal rfl))
    obtain ⟨_, found, evaluation, begun, fitting, _⟩ := values_told_twice .off reads form rfl
    obtain ⟨result, lines⟩ := fitting (fitAll_off _)
    exact ⟨_, reads, form, rfl, found, evaluation, begun, result, (lines _ result).1⟩
  · let nine : Mark := ⟨.literal (.whole 9), ⟨1, 1⟩, '+'⟩
    let plus : Mark := ⟨.operator .plus, ⟨1, 2⟩, '1'⟩
    let one : Mark := ⟨.literal (.whole 1), ⟨1, 3⟩, none⟩
    let e : Expr := .binary .plus ⟨1, 2⟩ (.literal (.whole 9) ⟨1, 1⟩) (.literal (.whole 1) ⟨1, 3⟩)
    have reads : (Edition.trees.lexis ⟨1⟩).Reads "9+1" ([nine] ++ plus :: [one]) := by decide
    have form : DerivesExpr .sum ([nine] ++ plus :: [one]) e :=
      .added (.product (.factor (.literal rfl))) rfl (by decide) (.factor (.literal rfl))
    have unfit : fitAll ⟨1⟩ e.told = false := by decide
    obtain ⟨_, found, evaluation, begun, _, long⟩ := values_told_twice ⟨1⟩ reads form rfl
    refine ⟨found, evaluation, begun, ?_⟩
    rcases long unfit with stopped | ⟨none, _⟩
    · exact stopped
    · cases none

end LittlePascal
