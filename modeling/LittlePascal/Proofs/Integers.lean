import LittlePascal.Proofs.Migration

/-! # Integers of expressions

An expression of whole numbers comes to an integer, with quotients rounded down, unless a divisor is zero or an
operand was left out. What it comes to is said here without any memory and without faults; evaluation agrees with
it.

Main definitions:
* `Expr.integer?`: the integer that an expression comes to;
* `Expr.isNumeric`, `Expr.hasHole`: expressions of whole numbers, and whether an operand is missing in them.

Main statements:
* `Expr.eval_cases`: the value of an expression of whole numbers, or the two ways in which it has none;
* `Expr.eval_eq_result`: the value if no operand is missing. -/

namespace LittlePascal

namespace Expr

/-- The integer that an expression comes to. There is none if a divisor is zero, if an operand was left out or
if something else than whole numbers stands in it. -/
def integer? : Expr → Option Int
  | .literal (.whole n) _ => some n
  | .literal (.real _) _ | .var _ | .hole => none
  | .signed sign _ operand => operand.integer?.map sign.apply
  | .binary operator _ left right => operator.reckon left.integer? right.integer?

/-- Whether an expression is made of whole numbers, signs and operators. Operands may be left out. -/
def isNumeric : Expr → Bool
  | .literal (.whole _) _ | .hole => true
  | .literal (.real _) _ | .var _ => false
  | .signed _ _ operand => operand.isNumeric
  | .binary _ _ left right => left.isNumeric && right.isNumeric

/-- Whether an operand was left out. -/
def hasHole : Expr → Bool
  | .literal _ _ | .var _ => false
  | .signed _ _ operand => operand.hasHole
  | .binary _ _ left right => left.hasHole || right.hasHole
  | .hole => true

variable {rules : EvalRules} {e : Expr}

/-- Places do not matter. -/
@[simp] theorem integer?_unplaced (e : Expr) : e.unplaced.integer? = e.integer? := by
  induction e with
  | literal l => cases l <;> rfl
  | var | hole => rfl
  | signed _ _ _ ih => simp [unplaced, integer?, ih]
  | binary _ _ _ _ ihLeft ihRight => simp [unplaced, integer?, ihLeft, ihRight]

/-- An operation fails where its left operand does. -/
theorem combine_error_left (operation : Operation) (fault : Fault) (right : Except Fault Value) :
    combine operation (.error fault) right = .error fault := by
  cases operation <;> rfl

/-- Where the slash rounds down an operation fails where its right operand does. -/
theorem combine_error_right (floors : rules.slashFloors = true) (o : Operator) (left : Value) (fault : Fault) :
    combine (operation rules o) (.ok left) (.error fault) = .error fault := by
  cases o <;> simp [operation, floors, combine, bind, Except.bind]

/-- An expression of whole numbers has the integer for its value that it comes to. Otherwise evaluation comes to a
divisor that is zero or to an operand that was left out. -/
theorem eval_cases (floors : rules.slashFloors = true) (m : Memory) (numeric : e.isNumeric = true) :
    (∃ n, e.integer? = some n ∧ e.eval rules m = .ok (.whole n)) ∨
      (e.integer? = none ∧ (e.eval rules m = .error (.arithmetic .wholeByZero) ∨
        e.hasHole = true ∧ e.eval rules m = .error (.unhandled hole.className))) := by
  induction e with
  | literal l =>
    cases l with
    | whole n => exact .inl ⟨n, rfl, rfl⟩
    | real => cases numeric
  | var => cases numeric
  | hole => exact .inr ⟨rfl, .inr ⟨rfl, rfl⟩⟩
  | signed sign _ operand ih =>
    rcases ih numeric with ⟨n, known, value⟩ | ⟨none, failed | ⟨missing, failed⟩⟩
    · refine .inl ⟨sign.apply n, by rw [integer?, known, Option.map_some], ?_⟩
      rw [eval, value]
      cases sign <;> rfl
    · exact .inr ⟨by rw [integer?, none, Option.map_none], .inl (by rw [eval, failed]; rfl)⟩
    · exact .inr ⟨by rw [integer?, none, Option.map_none], .inr ⟨missing, by rw [eval, failed]; rfl⟩⟩
  | binary o _ left right ihLeft ihRight =>
    simp only [isNumeric, Bool.and_eq_true] at numeric
    rw [integer?, hasHole, eval, Bool.or_eq_true]
    -- the left operand is evaluated first, so its fault is the one that is met
    rcases ihLeft numeric.1 with ⟨x, known, value⟩ | ⟨none, failed | ⟨missing, failed⟩⟩
    · rcases ihRight numeric.2 with ⟨y, known', value'⟩ | ⟨none, failed | ⟨missing, failed⟩⟩
      · have combined := combine_result floors o (some x) (some y)
        rw [known, known', value, value']
        cases reckoned : o.reckon (some x) (some y) with
        | some n => exact .inl ⟨n, rfl, by rw [reckoned] at combined; exact combined⟩
        | none => exact .inr ⟨rfl, .inl (by rw [reckoned] at combined; exact combined)⟩
      · rw [none, value, failed, Operator.reckon_none_right, combine_error_right floors]
        exact .inr ⟨rfl, .inl rfl⟩
      · rw [none, value, failed, Operator.reckon_none_right, combine_error_right floors]
        exact .inr ⟨rfl, .inr ⟨.inr missing, rfl⟩⟩
    · rw [none, failed, Operator.reckon_none_left, combine_error_left]
      exact .inr ⟨rfl, .inl rfl⟩
    · rw [none, failed, Operator.reckon_none_left, combine_error_left]
      exact .inr ⟨rfl, .inr ⟨.inl missing, rfl⟩⟩

/-- What comes to an integer has all its operands. -/
theorem filled_of_integer? {n : Int} (known : e.integer? = some n) : e.hasHole = false := by
  induction e generalizing n with
  | literal | var => rfl
  | hole => cases known
  | signed sign _ operand ih =>
    obtain ⟨m, known, _⟩ := Option.map_eq_some_iff.mp known
    exact ih known
  | binary o _ left right ihLeft ihRight =>
    rw [integer?] at known
    cases knownLeft : left.integer? with
    | none => rw [knownLeft, Operator.reckon_none_left] at known; cases known
    | some x =>
      cases knownRight : right.integer? with
      | none => rw [knownRight, Operator.reckon_none_right] at known; cases known
      | some y => rw [hasHole, ihLeft knownLeft, ihRight knownRight, Bool.or_self]

/-- If no operand is missing, only a divisor that is zero leaves an expression of whole numbers without value. -/
theorem eval_eq_result (floors : rules.slashFloors = true) (m : Memory) (numeric : e.isNumeric = true)
    (filled : e.hasHole = false) : e.eval rules m = Calculation.result e.integer? := by
  rcases eval_cases floors m numeric with ⟨n, known, value⟩ | ⟨none, failed | ⟨missing, _⟩⟩
  · rw [known, value]
    rfl
  · rw [none, failed]
    rfl
  · rw [filled] at missing
    cases missing

end Expr

/-- What is derived from whole numbers is made of them, and no operand is missing in it. -/
theorem DerivesExpr.numeric {level : Level} {ms : List Mark} {e : Expr} (h : DerivesExpr level ms e)
    (whole : ∀ m ∈ ms, m.lexeme.Whole) :
    e.isNumeric = true ∧ e.hasHole = false := by
  induction h with
  | @literal m l mark =>
    cases l with
    | whole n => exact ⟨rfl, rfl⟩
    | real x => exact absurd mark ((whole m List.mem_cons_self).2 x)
  | @var m s mark => exact absurd mark ((whole m List.mem_cons_self).1 s)
  | signed _ _ ih => exact ih (List.forall_mem_cons.mp whole).2
  | parens _ _ _ ih => exact ih (List.forall_mem_append.mp (List.forall_mem_cons.mp whole).2).1
  | factor _ ih | product _ ih => exact ih whole
  | multiplied _ _ _ _ ihLeft ihRight | added _ _ _ _ ihLeft ihRight =>
    obtain ⟨before, behind⟩ := List.forall_mem_append.mp whole
    obtain ⟨numeric, filled⟩ := ihLeft before
    obtain ⟨numeric', filled'⟩ := ihRight (List.forall_mem_cons.mp behind).2
    exact ⟨by simp [Expr.isNumeric, numeric, numeric'], by simp [Expr.hasHole, filled, filled']⟩

end LittlePascal
