import Mathlib.Algebra.Ring.Int.Defs
import Mathlib.Algebra.Ring.Nat
import LittlePascal.Proofs.Execution
import LittlePascal.Proofs.GeneratedTree
import LittlePascal.Proofs.Verdict

/-! # Running generated programs

A generated program is accepted by the analyses of the last editions: all of its names are declared, and none of
them twice. When it runs, each variable gets a number that the next assignment can be computed from, so that the run
comes to its end.

Main definitions: `Value.Within`, `ProgramPlan.Assigned`, `ProgramPlan.assignedNames`.

Main statements:
* `Number.exists_ofInt?`: whole numbers below `2 ^ 53` are doubles;
* `Program.violations_unplaced`: the violations of a program do not depend on places;
* `generated_programs_run`: the editions of a plan read the program and run it. -/

namespace LittlePascal

/-! ## Violations without places -/

/-- A fault about a name without the place of the name. -/
def Fault.unplaced : Fault → Fault
  | .undeclared id => .undeclared id.unplaced
  | .duplicate id => .duplicate id.unplaced
  | fault => fault

/-- The variables of an expression without its places. -/
theorem Expr.uses_unplaced (e : Expr) : e.unplaced.uses = e.uses.map Ident.unplaced := by
  induction e with
  | binary operator place left right ih ih' => rw [unplaced, uses, uses, ih, ih', List.map_append]
  | _ => rfl

namespace Stmt

mutual

/-- The variables of a statement without its places. -/
theorem uses_unplaced : ∀ s : Stmt, s.unplaced.uses = s.uses.map Ident.unplaced
  | .compound children => by rw [unplaced, uses, uses, usesAll_unplaced children]
  | .assign target _ value => by rw [unplaced, uses, uses, value.uses_unplaced, List.map_append]; rfl
  | .call _ arguments => by
    rw [unplaced, uses, uses, List.flatMap_map, List.map_flatMap]
    exact congrArg (List.flatMap · arguments) (funext Expr.uses_unplaced)
  | .empty => rfl

/-- The variables of statements without their places. -/
theorem usesAll_unplaced : ∀ statements : List Stmt,
    usesAll (unplacedAll statements) = (usesAll statements).map Ident.unplaced
  | [] => rfl
  | statement :: rest => by
    rw [unplacedAll, usesAll, usesAll, uses_unplaced statement, usesAll_unplaced rest, List.map_append]

end

end Stmt

/-- What is used in statements is used in one of them. -/
theorem Stmt.mem_usesAll {id : Ident} {statements : List Stmt} :
    id ∈ usesAll statements ↔ ∃ s ∈ statements, id ∈ s.uses := by
  induction statements with
  | nil => simp [usesAll]
  | cons statement rest ih => simp [usesAll, ih]

/-- Names that are not visible are not so without their places. -/
theorem undeclaredUses_unplaced (visible : List String) (ids : List Ident) :
    undeclaredUses visible (ids.map Ident.unplaced) = (undeclaredUses visible ids).map Fault.unplaced := by
  rw [undeclaredUses, undeclaredUses, List.filter_map, List.map_map, List.map_map]
  rfl

/-- The names of parameters without their places. -/
theorem Binding.names_unplaced (bindings : List Binding) : names (bindings.map unplaced) = names bindings :=
  List.map_map

namespace Decl

/-- The name of a declaration without its places. -/
theorem name_unplaced (d : Decl) : d.unplaced.name = d.name := by
  cases d with
  | var binding => rfl
  | procedure p parameters ds body => rw [unplaced, name, name]

/-- The names of declarations without their places. -/
theorem map_name_unplaced (ds : List Decl) : (unplacedAll ds).map name = ds.map name := by
  rw [unplacedAll_eq_map, List.map_map]
  exact congrArg (List.map · ds) (funext name_unplaced)

mutual

/-- The violations in a declaration do not depend on places. -/
theorem violations_unplaced (visible here : List String) :
    ∀ d : Decl, d.unplaced.violations visible here = (d.violations visible here).map Fault.unplaced
  | .var binding => by
    rw [unplaced, violations, violations, apply_ite (List.map Fault.unplaced)]
    rfl
  | .procedure p parameters ds body => by
    rw [unplaced, violations, violations, Binding.names_unplaced, map_name_unplaced, Stmt.usesAll_unplaced,
      undeclaredUses_unplaced, violationsAll_unplaced _ _ ds, List.map_append]

/-- The violations in declarations do not depend on places. -/
theorem violationsAll_unplaced (visible here : List String) :
    ∀ ds : List Decl, violationsAll visible here (unplacedAll ds) = (violationsAll visible here ds).map Fault.unplaced
  | [] => rfl
  | d :: rest => by
    rw [unplacedAll, violationsAll, violationsAll, violations_unplaced _ _ d, name_unplaced,
      violationsAll_unplaced _ _ rest, List.map_append]

end

end Decl

/-- The violations in a program do not depend on places. -/
theorem Program.violations_unplaced (p : Program) : p.unplaced.violations = p.violations.map Fault.unplaced := by
  rw [violations, violations, unplaced, Block.violations, Block.unplaced, Block.violations, Decl.map_name_unplaced,
    Stmt.usesAll_unplaced, undeclaredUses_unplaced, Decl.violationsAll_unplaced, List.map_append]

/-- Variables with different names are no violations. -/
theorem Decl.violationsAll_vars {visible here : List String} {bindings : List Binding} {ds : List Decl}
    (distinct : (Binding.names bindings ++ here).Nodup) :
    violationsAll visible here (bindings.map .var ++ ds) =
      violationsAll ((Binding.names bindings).reverse ++ visible) ((Binding.names bindings).reverse ++ here) ds := by
  induction bindings generalizing visible here with
  | nil => rfl
  | cons binding rest ih =>
    have split : Binding.names (binding :: rest) = binding.id.name :: Binding.names rest := rfl
    rw [split, List.cons_append, List.nodup_cons] at distinct
    have later : (Binding.names rest ++ binding.id.name :: here).Nodup :=
      List.nodup_middle.mpr (List.nodup_cons.mpr distinct)
    have new : binding.id.name ∉ here := fun member => distinct.1 (List.mem_append_right _ member)
    rw [List.map_cons, List.cons_append, violationsAll, violations, if_neg new, List.nil_append, name, ih later, split]
    simp

/-! ## Whole numbers as doubles -/

namespace Number

/-- A whole number is not rounded. -/
@[simp] theorem roundDiv_one (n : Nat) : roundDiv n 1 = n := by
  simp [roundDiv, Nat.mod_one]

/-- The last place of a number below `2 ^ 53` is at or behind the point, and not far behind the first digit. -/
theorem exists_lastPlace {n : Nat} (positive : n ≠ 0) (small : n < 2 ^ 53) :
    ∃ k : Nat, lastPlace n 1 = -k ∧ n * 2 ^ k < 2 ^ 54 := by
  have above : n < 2 ^ (n.log2 + 1) := Nat.lt_log2_self
  have low : n.log2 < 53 := (Nat.log2_lt positive).mpr small
  have one : Nat.log2 1 = 0 := by decide
  -- the place is chosen so that 53 or 54 binary digits stand before it
  have bound : ∀ k, k + n.log2 ≤ 53 → n * 2 ^ k < 2 ^ 54 := by
    intro k le
    calc n * 2 ^ k < 2 ^ (n.log2 + 1) * 2 ^ k := Nat.mul_lt_mul_of_pos_right above (Nat.two_pow_pos k)
      _ = 2 ^ (n.log2 + 1 + k) := (Nat.pow_add 2 _ _).symm
      _ ≤ 2 ^ 54 := Nat.pow_le_pow_right (by decide) (by omega)
  cases below : belowUnit n 1 ((n.log2 : Int) - (Nat.log2 1 : Int) - 52) with
  | false =>
    refine ⟨52 - n.log2, ?_, bound _ (by omega)⟩
    rw [lastPlace, below, one]
    simp only [Bool.false_eq_true, if_false]
    split <;> omega
  | true =>
    refine ⟨53 - n.log2, ?_, bound _ (by omega)⟩
    rw [lastPlace, below, one]
    simp only [if_true]
    split <;> omega

/-- A number is not rounded at a place behind the point. -/
theorem scaledRound_neg (n k : Nat) : scaledRound n 1 (-k) = n * 2 ^ k := by
  cases k with
  | zero => exact (roundDiv_one n).trans (Nat.mul_one n).symm
  | succ k => exact roundDiv_one (n * 2 ^ (k + 1))

/-- Whole numbers below `2 ^ 53` are doubles. -/
theorem exists_ofInt? {n : Int} (small : n.natAbs < 2 ^ 53) : ∃ x, ofInt? n = some x := by
  have finite : nearestBits n.natAbs 1 ≠ infinityBits := by
    by_cases zero : n.natAbs = 0
    · rw [zero]
      decide
    · obtain ⟨k, place, bound⟩ := exists_lastPlace zero small
      -- the exponent field is at most 1074, and the significand adds less than 4 to it
      have bits : (lastPlace n.natAbs 1 + 1074).toNat * twoTo 52 +
          scaledRound n.natAbs 1 (lastPlace n.natAbs 1) < infinityBits := by
        rw [place, scaledRound_neg, infinityBits, show twoTo 52 = 2 ^ 52 from rfl]
        omega
      rw [nearestBits, if_neg zero]
      simp only [if_pos bits]
      exact Nat.ne_of_lt bits
  exact ⟨_, if_neg finite⟩

end Number

/-! ## Numbers within bounds -/

namespace Value

/-- A double, or a whole number below a bound. -/
def Within (b : Nat) : Value → Prop
  | .whole n => n.natAbs < b
  | .real _ => True
  | .missing => False

variable {b c : Nat} {v w : Value}

/-- Numbers below `2 ^ 53` can be taken as doubles. -/
theorem Within.exists_toReal (h : v.Within b) (small : b ≤ 2 ^ 53) : ∃ x, v.toReal = .ok x := by
  cases v with
  | whole n =>
    obtain ⟨x, double⟩ := Number.exists_ofInt? (Nat.lt_of_lt_of_le h small)
    exact ⟨x, by rw [toReal, double]⟩
  | real x => exact ⟨x, rfl⟩
  | missing => exact h.elim

/-- Two numbers are added or subtracted as doubles. -/
theorem Within.applyMixed {o : Operation} (additive : o = .add ∨ o = .subtract) (h : v.Within b) (h' : w.Within c)
    (small : b + c ≤ 2 ^ 53) : ∃ y, Value.applyMixed o v w = .ok (.real y) := by
  obtain ⟨x, double⟩ := h.exists_toReal (by omega)
  obtain ⟨y, double'⟩ := h'.exists_toReal (by omega)
  rw [Value.applyMixed, double, double']
  rcases additive with rfl | rfl <;> exact ⟨_, rfl⟩

/-- A sum or a difference is within the sum of the bounds. -/
theorem Within.apply {o : Operation} (additive : o = .add ∨ o = .subtract) (h : v.Within b) (h' : w.Within c)
    (small : b + c ≤ 2 ^ 53) : ∃ y, Value.apply o v w = .ok y ∧ y.Within (b + c) := by
  obtain ⟨y, mixed⟩ := h.applyMixed additive h' small
  -- two whole numbers are added exactly; a double on either side makes the other one a double
  cases v with
  | whole m =>
    cases w with
    | whole n =>
      unfold Within at h h'
      rcases additive with rfl | rfl
      · exact ⟨_, rfl, show (m + n).natAbs < b + c by omega⟩
      · exact ⟨_, rfl, show (m - n).natAbs < b + c by omega⟩
    | real x => exact ⟨_, mixed, trivial⟩
    | missing => exact h'.elim
  | real x =>
    cases w with
    | whole n => exact ⟨_, mixed, trivial⟩
    | real x => exact ⟨_, mixed, trivial⟩
    | missing => exact h'.elim
  | missing => exact h.elim

/-- Less a double, a number is a double. -/
theorem Within.subtract_real (h : v.Within b) (small : b ≤ 2 ^ 53) (x : Float) :
    ∃ y, Value.apply .subtract v (.real x) = .ok (.real y) := by
  have real : (Value.real x).Within 0 := trivial
  obtain ⟨y, mixed⟩ := h.applyMixed (.inr rfl) real small
  cases v with
  | whole n => exact ⟨y, mixed⟩
  | real x => exact ⟨y, mixed⟩
  | missing => exact h.elim

/-- A number with a plus before it. -/
theorem Within.applySign_plus (h : v.Within b) : applySign .plus v = .ok v := by
  cases v with
  | whole n => rfl
  | real x => rfl
  | missing => exact h.elim

end Value

namespace Generate.ProgramPlan

variable (p : ProgramPlan) {rules : EvalRules} {m : Memory}

/-! ## Names of variables -/

/-- The variables with numbers have different names. -/
theorem variableName_inj {i j : Nat} : variableName i = variableName j ↔ i = j := by
  constructor
  · intro same
    have digits : Nat.toDigits 10 i = Nat.toDigits 10 j := by
      simpa [variableName, ← String.toList_inj] using same
    have values := congrArg Text.decimalValue? digits
    rw [Text.decimalValue?_toDigits, Text.decimalValue?_toDigits] at values
    exact Option.some.inj values
  · rintro rfl
    rfl

/-- The other variables have other names. -/
theorem variableName_ne (i : Nat) : variableName i ≠ "r1" ∧ variableName i ≠ "r2" := by
  constructor <;> simp [variableName, ← String.toList_inj]

/-! ## The analysis -/

theorem names_bindings : Binding.names p.bindings = p.declaredNames ++ ["r1", "r2"] := by
  simp [bindings, Binding.names, binding, ident, Function.comp_def]

/-- No variable is declared twice. -/
theorem nodup_names : (Binding.names p.bindings).Nodup := by
  have numbered : p.declaredNames.Nodup :=
    List.nodup_range.map fun i j same => variableName_inj.mp same
  rw [names_bindings, List.nodup_append]
  refine ⟨numbered, by decide, ?_⟩
  intro name member other among
  obtain ⟨i, -, rfl⟩ := List.mem_map.mp member
  simp only [List.mem_cons, List.not_mem_nil, or_false] at among
  rcases among with rfl | rfl
  · exact (variableName_ne i).1
  · exact (variableName_ne i).2

/-- All that is used in the procedure is declared. -/
theorem violations_procedures (visible here : List String) : Decl.violationsAll visible here p.procedures = [] := by
  cases declared : p.procedure with
  | false => simp [procedures, declared, Decl.violationsAll]
  | true =>
    cases given : p.parameters <;>
      simp [procedures, declared, given, parameterBindings, innerTree, Decl.violationsAll, Decl.violations, Decl.name,
        Binding.names, binding, ident, assign, read, whole, binary, Stmt.usesAll, Stmt.uses, Expr.uses, undeclaredUses]

/-- The numbers of the variables that are declared. -/
theorem variableName_mem {i : Nat} (h : i = 0 ∨ i < p.statements.toNat) : variableName i ∈ p.declaredNames := by
  refine List.mem_map_of_mem (List.mem_range.mpr ?_)
  split <;> omega

/-- All that is used in the body is declared. -/
theorem declared_of_mem_uses {id : Ident} (used : id ∈ Stmt.usesAll p.body) :
    id.name ∈ p.declaredNames ++ ["r1", "r2"] := by
  obtain ⟨s, member, used⟩ := Stmt.mem_usesAll.mp used
  simp only [body, assignments, List.mem_append, List.mem_cons, List.not_mem_nil, or_false, List.mem_map,
    List.mem_range] at member
  rcases member with ((rfl | rfl) | ⟨k, low, rfl⟩) | (rfl | rfl)
  · obtain rfl : id = ident (variableName 0) := List.mem_singleton.mp used
    exact List.mem_append_left _ (p.variableName_mem (.inl rfl))
  · obtain rfl : id = ident "r1" := List.mem_singleton.mp used
    simp [ident]
  · -- the variable before this one stands behind a sign, where it is not looked up
    obtain rfl : id = ident (variableName (k + 1)) := List.mem_singleton.mp used
    exact List.mem_append_left _ (p.variableName_mem (.inr (by omega)))
  · have among : id ∈ [ident "r1", ident "r2"] := used
    exact List.mem_append_right _ (List.mem_map_of_mem (f := Ident.name) among)
  · cases used

/-- A generated program has no violations. -/
theorem violations_tree : p.tree.violations = [] := by
  have uses : undeclaredUses (p.tree.block.declarations.map Decl.name ++ ([] ++ [])) (Stmt.usesAll p.body) = [] := by
    rw [undeclaredUses_eq_nil_iff]
    intro id used
    have names : p.declared.map Decl.name = p.declaredNames ++ ["r1", "r2"] := by
      rw [← names_bindings, declared, List.map_map]
      rfl
    simp only [tree, List.map_append, names]
    exact List.mem_append_left _ (List.mem_append_left _ (p.declared_of_mem_uses used))
  have distinct : (Binding.names p.bindings ++ []).Nodup := by
    rw [List.append_nil]
    exact p.nodup_names
  have declarations : Decl.violationsAll [] [] (p.declared ++ p.procedures) = [] := by
    rw [declared, Decl.violationsAll_vars distinct]
    exact p.violations_procedures _ _
  rw [Program.violations, Block.violations]
  exact List.append_eq_nil_iff.mpr ⟨declarations, uses⟩

/-! ## The run -/

/-- The value of two operands, other than a quotient of doubles. -/
theorem eval_binary {o : Operator} {left right : Expr} {v w y : Value}
    (whole : Expr.operation rules o ≠ .divide) (h : left.eval rules m = .ok v) (h' : right.eval rules m = .ok w)
    (value : v.apply (Expr.operation rules o) w = .ok y) : (binary o left right).eval rules m = .ok y := by
  rw [binary, Expr.eval, h, h', Expr.combine.eq_def]
  split
  · contradiction
  · exact congrArg liftArithmetic value

/-- A variable with a number is read. -/
theorem eval_read {s : String} {v : Value} {b : Nat} (held : m.get? s = some v) (h : v.Within b) :
    (read s).eval rules m = .ok v := by
  rw [read, Expr.eval, Expr.readVariable, ident, held]
  cases v with
  | whole n => rfl
  | real x => rfl
  | missing => exact h.elim

/-- The quotient of the doubles in an assignment. -/
theorem eval_quotient (slash : rules.slashFloors = false) :
    ∃ y, (binary .slash (fraction 15 10) (fraction 5 10)).eval rules m = .ok (.real y) := by
  have nonzero : ¬(Number.nearest 5 10 == 0.0) = true := by decide
  have quotient : Value.divideReals (Number.nearest 15 10) (Number.nearest 5 10) = .ok (.real _) := if_neg nonzero
  rw [binary, Expr.eval, Expr.operation, slash]
  exact ⟨_, congrArg liftArithmetic quotient⟩

/-- If the variable before it has a small number, then the value of a variable is a double. -/
theorem eval_value (slash : rules.slashFloors = false) {i : Nat} (small : i ≤ 2 ^ 50) {v : Value}
    (held : m.get? (variableName (i - 1)) = some v) (h : v.Within 11) :
    ∃ y, (value i).eval rules m = .ok (.real y) := by
  have two : (Value.whole (-2)).Within 3 := show (-2 : Int).natAbs < 3 by decide
  have third : (Value.whole ((i * 2 : Int).fdiv 3)).Within (2 ^ 51) := by
    show ((i * 2 : Int).fdiv 3).natAbs < 2 ^ 51
    rw [Int.fdiv_eq_ediv_of_nonneg _ (by decide)]
    omega
  -- the difference and the sum are whole where the variable before is the first one
  obtain ⟨first, difference, h₁⟩ := h.apply (.inr rfl) two (by decide)
  obtain ⟨second, sum, h₂⟩ := h₁.apply (.inl rfl) third (by decide)
  obtain ⟨x, quotient⟩ := eval_quotient (m := m) slash
  obtain ⟨y, last⟩ := h₂.subtract_real (by decide) x
  have positive : (Expr.signed .plus ⟨0, 0⟩ (read (variableName (i - 1)))).eval rules m = .ok v := by
    rw [Expr.eval, eval_read held h]
    exact congrArg liftArithmetic h.applySign_plus
  have negative : (Expr.signed .minus ⟨0, 0⟩ (whole 2)).eval rules m = .ok (.whole (-2)) := rfl
  have thirds : (binary .div (binary .times (whole i) (whole 2)) (whole 3)).eval rules m =
      .ok (.whole ((i * 2 : Int).fdiv 3)) := rfl
  exact ⟨y, eval_binary (by simp [Expr.operation]) (eval_binary (by simp [Expr.operation])
    (eval_binary (by simp [Expr.operation]) positive negative difference) thirds sum) quotient last⟩

/-- The memory behind the assignment to the variable with a number. -/
structure Assigned (k : Nat) (m : Memory) : Prop where
  /-- The names of the variables, in the order of their assignments. -/
  names : m.names = variableName 0 :: "r1" :: (List.range k).map fun j => variableName (j + 1)
  /-- The last variable has a value that the next one can be computed from. -/
  last : ∃ v, m.get? (variableName k) = some v ∧ v.Within 11
  /-- The real variable has a value. -/
  real : ∃ x, m.get? "r1" = some (.real x)

/-- After the first two assignments the first whole variable and the real one have values. -/
theorem assigned_zero (x : Float) :
    Assigned 0 ((OrderedMap.empty.set (variableName 0) (.whole 10)).set "r1" (.real x)) where
  names := by
    rw [OrderedMap.names_set, OrderedMap.names_set]
    rfl
  last := ⟨.whole 10, by simp [variableName_ne], show (10 : Int).natAbs < 11 by decide⟩
  real := ⟨x, by simp⟩

/-- The next assignment is computed, and its variable comes behind the others. -/
theorem Assigned.step (slash : rules.slashFloors = false) {k : Nat} (small : k < 2 ^ 50) (h : Assigned k m) :
    ∃ m', (assign (variableName (k + 1)) (value (k + 1))).run rules m = .ok () m' ∧ Assigned (k + 1) m' := by
  obtain ⟨v, held, within⟩ := h.last
  obtain ⟨x, real⟩ := h.real
  obtain ⟨y, evaluated⟩ := eval_value (i := k + 1) slash small held within
  have new : variableName (k + 1) ∉ m.names := by
    rw [h.names]
    simp [variableName_ne, variableName_inj]
  refine ⟨_, Stmt.run_assign_of_ok evaluated, ?_, ⟨.real y, by simp [ident], trivial⟩, x, ?_⟩
  · rw [OrderedMap.names_set, ident, if_neg new, h.names, List.range_succ]
    simp
  · simp [ident, real, (variableName_ne (k + 1)).1.symm]

/-- All the assignments are computed, one behind the other. -/
theorem Assigned.run (slash : rules.slashFloors = false) (h : Assigned 0 m) {k : Nat} (small : k ≤ 2 ^ 50) :
    ∃ m', Stmt.runAll rules ((List.range k).map fun j => assign (variableName (j + 1)) (value (j + 1))) m =
      .ok () m' ∧ Assigned k m' := by
  induction k with
  | zero => exact ⟨m, rfl, h⟩
  | succ k ih =>
    obtain ⟨m', before, assigned⟩ := ih (by omega)
    obtain ⟨m'', last, assigned'⟩ := assigned.step slash small
    -- the range grows at its end, where the last assignment stands
    refine ⟨m'', ?_, assigned'⟩
    rw [List.range_succ, List.map_append, Stmt.runAll_append]
    exact (Work.bind_of_ok before).trans (Work.bind_of_ok last)

/-- The names of the variables that get a value, in the order of their assignments. -/
def assignedNames : List String :=
  variableName 0 :: "r1" :: (List.range (p.statements.toNat - 1)).map (fun j => variableName (j + 1)) ++ ["r2"]

/-- The body of a generated program runs to its end. -/
theorem run_body (slash : rules.slashFloors = false) (small : p.statements ≤ 2 ^ 50) :
    ∃ m, Stmt.runAll rules p.body .empty = .ok () m ∧ m.names = p.assignedNames := by
  obtain ⟨m, run, assigned⟩ := (assigned_zero (Number.nearest 314 100)).run slash
    (k := p.statements.toNat - 1) (by omega)
  obtain ⟨x, held⟩ := assigned.real
  have real : (Value.real x).Within 0 := trivial
  have product : (binary .times (read "r1") (fraction 20 10)).eval rules m =
      .ok (.real (x * Number.nearest 20 10)) :=
    eval_binary (by simp [Expr.operation]) (eval_read held real) rfl rfl
  have block : (Stmt.compound [assign "r2" (binary .times (read "r1") (fraction 20 10))]).run rules m =
      .ok () (m.set "r2" (.real (x * Number.nearest 20 10))) := by
    rw [Stmt.run]
    exact Work.bind_of_ok (Stmt.run_assign_of_ok product)
  have new : "r2" ∉ m.names := by
    rw [assigned.names]
    simp [variableName_ne, (variableName_ne 0).2.symm]
  refine ⟨m.set "r2" (.real (x * Number.nearest 20 10)), ?_, ?_⟩
  · rw [body, Stmt.runAll_append, Stmt.runAll_append]
    exact (Work.bind_of_ok ((Work.bind_of_ok rfl).trans run)).trans (Work.bind_of_ok block)
  · rw [OrderedMap.names_set, if_neg new, assigned.names]
    rfl

end Generate.ProgramPlan

/-! ## Generated programs in their editions -/

/-- The last editions accept every program that they read and that has no violations. -/
theorem Edition.analysis_of_accepts {e : Edition} (late : e = .places ∨ e = .calls) {text : String} {p : Program}
    {reading : Reading} (parsed : e.Accepts text (.program p) reading) (none : p.violations = []) (logs : Bool) :
    ∃ analysis survey, e.analysis? logs = some analysis ∧
      analysis.node (.program p) analysis.initial = .ok () survey := by
  have full : e.grammar.Full := by
    rcases late with rfl | rfl
    · exact full_places
    · exact full_calls
  have typed : e.hasDeclarations = true := by rcases late with rfl | rfl <;> rfl
  have known : e.analysis? logs = some (.scoped ⟨true, logs⟩) := by rcases late with rfl | rfl <;> rfl
  obtain ⟨ms, _, reads, same, form⟩ := Grammar.reads_of_attempt full parsed
  cases same
  have orderly := form.orderly (named_of_reads typed reads)
  have settles := @Scoped.program_settles ⟨true, logs⟩ ⟨[], #[]⟩ rfl p
    orderly.declarations.regular orderly.body rfl
  obtain ⟨_, st, accepted⟩ := settles.ok_iff.mpr none
  obtain ⟨survey, accepted⟩ := Survey.onScopes_ok_iff.mpr ⟨st, accepted⟩
  exact ⟨_, survey, known, accepted⟩

open Generate in
/-- A generated program of at most `2 ^ 50` statements is read by every edition that its plan is meant for, and
the analyses of the last two editions accept it. In each of the editions it runs to its end from an empty memory,
and the memory that is left has the names `v0`, `r1`, then `v1` and so on, and `r2` in this order. -/
theorem generated_programs_run (p : ProgramPlan) (small : p.statements ≤ 2 ^ 50) {e : Edition}
    (member : e ∈ p.editions) :
    ∃ program reading memory,
      e.Accepts p.text (.program program) reading ∧
      (e = .places ∨ e = .calls → ∀ logs, ∃ analysis survey,
        e.analysis? logs = some analysis ∧ analysis.node (.program program) analysis.initial = .ok () survey) ∧
      (Node.program program).run e.evalRules .empty = .ok .missing memory ∧
      memory.names = p.assignedNames := by
  obtain ⟨program, reading, parsed, alike⟩ := p.exists_accepts member
  have slash : e.evalRules.slashFloors = false := by
    have declares := (ProgramPlan.suits_of_mem_editions member).declares
    revert declares
    cases e <;> decide
  obtain ⟨memory, run, names⟩ := p.run_body slash small
  -- neither violations nor runs depend on places, so both are those of the tree of the plan
  have none : program.violations = [] := by
    have same := p.tree.violations_unplaced
    rw [p.violations_tree, ← alike, Program.violations_unplaced] at same
    exact List.map_eq_nil_iff.mp same
  have same : (Node.program program).run e.evalRules = (Node.program p.tree).run e.evalRules := by
    have unplaced : (Node.program program).unplaced = (Node.program p.tree).unplaced := congrArg Node.program alike
    rw [← Node.run_unplaced, unplaced, Node.run_unplaced]
  refine ⟨program, reading, memory, parsed, fun late => Edition.analysis_of_accepts late parsed none, ?_, names⟩
  rw [same]
  exact Work.bind_of_ok run

open Generate in
/-- Three statements in the last edition, behind a procedure with parameters. -/
theorem generated_programs_run_three :
    ∃ program reading memory,
      Edition.calls.Accepts (ProgramPlan.withParameters 3).text (.program program) reading ∧
      (Node.program program).run Edition.calls.evalRules .empty = .ok .missing memory ∧
      memory.names = ["v0", "r1", "v1", "v2", "r2"] := by
  obtain ⟨program, reading, memory, parsed, _, run, names⟩ :=
    generated_programs_run (.withParameters 3) (by decide) (e := .calls) (by decide)
  exact ⟨program, reading, memory, parsed, run, names.trans (by decide)⟩

end LittlePascal
