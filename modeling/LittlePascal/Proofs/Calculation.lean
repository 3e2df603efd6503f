import LittlePascal.Proofs.DigitLimits
import LittlePascal.Proofs.Execution
import LittlePascal.Proofs.Spelling
import LittlePascal.Proofs.Verdict

/-! # Calculations with whole numbers

A calculation is a tree of whole numbers, signs and the four operators of whole numbers. It has a value
among the integers, with division rounded down, unless a divisor is zero; and it can be written down with
parentheses only where they are needed. A program that assigns a calculation to a variable, read,
analysed and run, leaves that value in its memory. Where the digits of whole numbers are limited, this is so if
all numbers of the calculation are within the limit, and otherwise the program is not read.

Main definitions: `Calculation`, `Calculation.value`, `Calculation.lexemes`, `Calculation.programText`.

Main statements:
* `Calculation.derives`: what is written down derives the tree of the calculation;
* `Calculation.Tree.eval_eq`: the tree has the value of the calculation;
* `run_calculation`: from the text of a program to the memory after it. -/

namespace LittlePascal

/-! ## Calculations and their values -/

/-- The operators of whole numbers. -/
inductive WholeOperator where
  | plus
  | minus
  | times
  | div
  deriving DecidableEq, Repr

namespace WholeOperator

/-- The operator of programs. -/
def operator : WholeOperator → Operator
  | .plus => .plus
  | .minus => .minus
  | .times => .times
  | .div => .div

/-- How tightly an operator binds. -/
def precedence : WholeOperator → Nat
  | .plus | .minus => 1
  | .times | .div => 2

/-- The operator on integers. Division rounds down and has no value for a divisor of zero. -/
def apply : WholeOperator → Int → Int → Option Int
  | .plus, x, y => some (x + y)
  | .minus, x, y => some (x - y)
  | .times, x, y => some (x * y)
  | .div, x, y => if y = 0 then none else some (x.fdiv y)

end WholeOperator

/-- A sign before an integer. -/
def Sign.apply : Sign → Int → Int
  | .plus, x => x
  | .minus, x => -x

/-- Calculations with whole numbers. -/
inductive Calculation where
  | literal (n : Nat)
  | signed (sign : Sign) (operand : Calculation)
  | binary (o : WholeOperator) (left right : Calculation)
  deriving DecidableEq, Repr

namespace Calculation

/-- The numbers of a calculation, in the order in which they are written. -/
def numbers : Calculation → List Nat
  | .literal n => [n]
  | .signed _ operand => operand.numbers
  | .binary _ left right => left.numbers ++ right.numbers

/-- Whether no number of a calculation has more digits than a limit allows. -/
def fits (limit : DigitLimit) (e : Calculation) : Bool :=
  e.numbers.all fun n => limit.allows (Nat.toDigits 10 n).length

/-- The value of a calculation, if no divisor is zero. -/
def value : Calculation → Option Int
  | .literal n => some n
  | .signed sign operand => operand.value.map sign.apply
  | .binary o left right => do o.apply (← left.value) (← right.value)

/-! ## Calculations as texts -/

/-- How tightly the operator of a calculation binds, if it is a binary one. -/
def precedence? : Calculation → Option Nat
  | .binary o _ _ => some o.precedence
  | _ => none

/-- Lexemes, in parentheses if they are to be. -/
def enclosed (parens : Bool) (ls : List Lexeme) : List Lexeme :=
  if parens then .punctuation .leftParen :: (ls ++ [.punctuation .rightParen]) else ls

/-- A calculation written down. A left operand is in parentheses if its operator binds less tightly, a
right operand also if it binds equally tightly, and what stands behind a sign if it has a binary operator
at all. -/
def lexemes : Calculation → List Lexeme
  | .literal n => [.literal (.whole n)]
  | .signed sign operand =>
    .operator sign.operator :: enclosed operand.precedence?.isSome operand.lexemes
  | .binary o left right =>
    enclosed (left.precedence?.any (· < o.precedence)) left.lexemes ++
      .operator o.operator :: enclosed (right.precedence?.any (· ≤ o.precedence)) right.lexemes

/-- The text of a calculation, with single spaces between its lexemes. -/
def text (e : Calculation) : String := Lexeme.spaced e.lexemes

/-- What stands before the calculation in a program that assigns it to a variable. -/
def opening : String := "PROGRAM t; VAR a : INTEGER; BEGIN a := "

/-- What stands behind it. -/
def closing : String := " END."

/-- A program that assigns a calculation to a variable. -/
def programText (e : Calculation) : String := opening ++ e.text ++ closing

/-- What is left of a run of that program: the value as the value of the variable, or the fault of a
division by zero and a memory as empty as before. -/
def outcome (e : Calculation) : EStateM.Result Fault Memory Value :=
  match e.value with
  | some v => .ok .missing ⟨[("a", .whole v)]⟩
  | none => .error (.arithmetic .wholeByZero) .empty

/-! ## What is written down derives the tree -/

/-- The trees of a calculation, wherever in a text it stands. -/
inductive Tree : Calculation → Expr → Prop where
  | literal {n : Nat} {place : Place} : Tree (.literal n) (.literal (.whole n) place)
  | signed {sign : Sign} {place : Place} {e : Calculation} {x : Expr} :
      Tree e x → Tree (.signed sign e) (.signed sign place x)
  | binary {o : WholeOperator} {place : Place} {left right : Calculation} {x y : Expr} :
      Tree left x → Tree right y → Tree (.binary o left right) (.binary o.operator place x y)

/-- The level of expressions that an operator makes. -/
def operatorLevel : WholeOperator → Level
  | .plus | .minus => .sum
  | .times | .div => .product

/-- The loosest level of the right operand of an operator. -/
def operandLevel : WholeOperator → Level
  | .plus | .minus => .product
  | .times | .div => .factor

/-- The level of a calculation. -/
def level : Calculation → Level
  | .binary o _ _ => operatorLevel o
  | _ => .factor

end Calculation

/-- The place of a level, the tightest first. -/
def Level.rank : Level → Nat
  | .factor => 0
  | .product => 1
  | .sum => 2

/-- An expression is also one of any looser level. -/
theorem DerivesExpr.loosen {tight loose : Level} {ms : List Mark} {x : Expr}
    (h : DerivesExpr tight ms x) (le : tight.rank ≤ loose.rank) : DerivesExpr loose ms x := by
  cases tight <;> cases loose
  case factor.factor => exact h
  case factor.product => exact .factor h
  case factor.sum => exact .product (.factor h)
  case product.product => exact h
  case product.sum => exact .product h
  case sum.sum => exact h
  all_goals exact absurd le (by decide)

namespace Calculation

/-- Marks that spell a calculation derive a tree of it at a level. -/
def Derivable (e : Calculation) (level : Level) (ls : List Lexeme) : Prop :=
  ∀ ms : List Mark, ms.map Mark.lexeme = ls → ∃ x, e.Tree x ∧ DerivesExpr level ms x

/-- An operand derives its tree at any level if it is in parentheses, and otherwise at the levels that are
not tighter than its own. -/
theorem Derivable.enclosed {e : Calculation} {bound : Level} {parens : Bool}
    (h : e.Derivable e.level e.lexemes)
    (fits : parens = false → e.level.rank ≤ bound.rank) :
    e.Derivable bound (Calculation.enclosed parens e.lexemes) := by
  intro ms spelled
  cases parens with
  | false =>
    obtain ⟨x, tree, form⟩ := h ms spelled
    exact ⟨x, tree, form.loosen (fits rfl)⟩
  | true =>
    obtain ⟨m, ns, rfl, left, spelled⟩ := List.map_eq_cons_iff.mp spelled
    obtain ⟨us, vs, rfl, inner, last⟩ := List.map_eq_append_iff.mp spelled
    obtain ⟨n, _, rfl, right, none⟩ := List.map_eq_cons_iff.mp last
    obtain rfl := List.map_eq_nil_iff.mp none
    obtain ⟨x, tree, form⟩ := h us inner
    have sum : DerivesExpr .sum us x := form.loosen (by cases e.level <;> decide)
    exact ⟨x, tree, (DerivesExpr.parens left sum right).loosen (Nat.zero_le _)⟩

/-- Operands of the right levels on both sides of an operator. -/
theorem derivesExpr_binary {o : WholeOperator} {us vs : List Mark} {m : Mark} {x y : Expr}
    (left : DerivesExpr (operatorLevel o) us x) (mark : m.lexeme = .operator o.operator)
    (right : DerivesExpr (operandLevel o) vs y) :
    DerivesExpr (operatorLevel o) (us ++ m :: vs) (.binary o.operator m.place x y) := by
  cases o with
  | plus => exact .added left mark (by decide) right
  | minus => exact .added left mark (by decide) right
  | times => exact .multiplied left mark (by decide) right
  | div => exact .multiplied left mark (by decide) right

/-- The tighter an operator binds, the tighter is the level it makes. -/
theorem rank_operatorLevel (o : WholeOperator) : (operatorLevel o).rank + o.precedence = 3 := by
  cases o <;> rfl

/-- Its right operand is tighter by one level. -/
theorem rank_operandLevel (o : WholeOperator) : (operandLevel o).rank + o.precedence = 2 := by
  cases o <;> rfl

/-- A left operand that needs no parentheses is not looser than its operator. -/
theorem left_fits {o : WholeOperator} {e : Calculation}
    (h : e.precedence?.any (· < o.precedence) = false) :
    e.level.rank ≤ (operatorLevel o).rank := by
  cases e with
  | binary o' left right =>
    have bindsTighter : ¬ o'.precedence < o.precedence := by simpa [precedence?] using h
    have outer := rank_operatorLevel o
    have inner := rank_operatorLevel o'
    show (operatorLevel o').rank ≤ _
    omega
  | _ => exact Nat.zero_le _

/-- A right operand that needs no parentheses is tighter than its operator. -/
theorem right_fits {o : WholeOperator} {e : Calculation}
    (h : e.precedence?.any (· ≤ o.precedence) = false) :
    e.level.rank ≤ (operandLevel o).rank := by
  cases e with
  | binary o' left right =>
    have bindsTighter : ¬ o'.precedence ≤ o.precedence := by simpa [precedence?] using h
    have outer := rank_operandLevel o
    have inner := rank_operatorLevel o'
    show (operatorLevel o').rank ≤ _
    omega
  | _ => exact Nat.zero_le _

/-- What is written down derives the tree of the calculation. -/
theorem derives (e : Calculation) : e.Derivable e.level e.lexemes := by
  induction e with
  | literal n =>
    intro ms spelled
    obtain ⟨m, _, rfl, mark, none⟩ := List.map_eq_cons_iff.mp spelled
    obtain rfl := List.map_eq_nil_iff.mp none
    exact ⟨_, .literal, .literal mark⟩
  | signed sign e ih =>
    intro ms spelled
    obtain ⟨m, ns, rfl, mark, operand⟩ := List.map_eq_cons_iff.mp spelled
    have fits : e.precedence?.isSome = false → e.level.rank ≤ Level.factor.rank := by
      cases e <;> simp [precedence?, level]
    obtain ⟨x, tree, form⟩ := ih.enclosed fits ns operand
    exact ⟨_, .signed tree, .signed mark form⟩
  | binary o left right ihLeft ihRight =>
    intro ms spelled
    obtain ⟨us, _, rfl, first, spelled⟩ := List.map_eq_append_iff.mp spelled
    obtain ⟨m, vs, rfl, mark, second⟩ := List.map_eq_cons_iff.mp spelled
    obtain ⟨x, tree, form⟩ := ihLeft.enclosed left_fits us first
    obtain ⟨y, tree', form'⟩ := ihRight.enclosed right_fits vs second
    exact ⟨_, .binary tree tree', derivesExpr_binary form mark form'⟩

/-! ## The tree has the value of the calculation -/

/-- The value of a calculation as the value of an expression. -/
def result : Option Int → Except Fault Value
  | some v => .ok (.whole v)
  | none => .error (.arithmetic .wholeByZero)

/-- Two operands that have results have the result of the operator. -/
theorem combine_result (o : WholeOperator) (x y : Option Int) :
    Expr.combine (Expr.operation Edition.calls.evalRules o.operator) (result x) (result y) =
      result (do o.apply (← x) (← y)) := by
  cases x with
  | none => cases o <;> rfl
  | some x =>
    cases y with
    | none => cases o <;> rfl
    | some y =>
      cases o with
      | div =>
        show liftArithmetic (if y = 0 then .error .wholeByZero else .ok (.whole (x.fdiv y))) =
          result (if y = 0 then none else some (x.fdiv y))
        split <;> rfl
      | _ => rfl

/-- The tree of a calculation has its value. -/
theorem Tree.eval_eq {e : Calculation} {x : Expr} (h : e.Tree x) (m : Memory) :
    x.eval Edition.calls.evalRules m = result e.value := by
  induction h with
  | literal => rfl
  | @signed sign _ e _ _ ih =>
    rw [Expr.eval, ih, value]
    cases e.value with
    | none => rfl
    | some v => cases sign <;> rfl
  | binary _ _ ihLeft ihRight => rw [Expr.eval, ihLeft, ihRight, combine_result, value]

/-- The tree of a calculation uses no variables. -/
theorem Tree.uses_eq {e : Calculation} {x : Expr} (h : e.Tree x) : x.uses = [] := by
  induction h with
  | literal => rfl
  | signed _ _ => rfl
  | binary _ _ ihLeft ihRight => rw [Expr.uses, ihLeft, ihRight, List.append_nil]

/-! ## The program -/

/-- What holds of the numbers of a calculation, of operators and of parentheses holds of all its lexemes. -/
theorem forall_mem_lexemes (P : Lexeme → Prop) (operator : ∀ o, P (.operator o))
    (left : P (.punctuation .leftParen)) (right : P (.punctuation .rightParen)) (e : Calculation)
    (number : ∀ n ∈ e.numbers, P (.literal (.whole n))) : ∀ l ∈ e.lexemes, P l := by
  have inParens : ∀ (parens : Bool) (ls : List Lexeme), (∀ l ∈ ls, P l) → ∀ l ∈ enclosed parens ls, P l := by
    intro parens ls all
    cases parens with
    | false => exact all
    | true =>
      refine List.forall_mem_cons.mpr ⟨left, List.forall_mem_append.mpr ⟨all, ?_⟩⟩
      exact List.forall_mem_singleton.mpr right
  induction e with
  | literal n => exact List.forall_mem_singleton.mpr (number n List.mem_cons_self)
  | signed sign e ih => exact List.forall_mem_cons.mpr ⟨operator _, inParens _ _ (ih number)⟩
  | binary o left right ihLeft ihRight =>
    obtain ⟨before, behind⟩ := List.forall_mem_append.mp number
    refine List.forall_mem_append.mpr ⟨inParens _ _ (ihLeft before), ?_⟩
    exact List.forall_mem_cons.mpr ⟨operator _, inParens _ _ (ihRight behind)⟩

/-- The numbers of a calculation are among its lexemes. -/
theorem number_mem_lexemes {n : Nat} {e : Calculation} (h : n ∈ e.numbers) :
    Lexeme.literal (.whole n) ∈ e.lexemes := by
  have inParens : ∀ (parens : Bool) {ls : List Lexeme} {l : Lexeme}, l ∈ ls → l ∈ enclosed parens ls := by
    intro parens ls l member
    cases parens with
    | false => exact member
    | true => exact List.mem_cons_of_mem _ (List.mem_append_left _ member)
  induction e with
  | literal m => simpa [numbers, lexemes] using h
  | signed sign e ih => exact List.mem_cons_of_mem _ (inParens _ (ih h))
  | binary o left right ihLeft ihRight =>
    rcases List.mem_append.mp h with before | behind
    · exact List.mem_append_left _ (inParens _ (ihLeft before))
    · exact List.mem_append_right _ (List.mem_cons_of_mem _ (inParens _ (ihRight behind)))

/-- All lexemes of a calculation are written in one way only. -/
theorem isFixed_lexemes (e : Calculation) : ∀ l ∈ e.lexemes, l.isFixed = true :=
  forall_mem_lexemes (fun l => l.isFixed = true) (fun _ => rfl) rfl rfl e fun _ _ => rfl

/-- If its numbers fit, all lexemes of a calculation do. -/
theorem fits_lexemes {limit : DigitLimit} {e : Calculation} (fits : e.fits limit = true) :
    ∀ l ∈ e.lexemes, l.fits limit l.spelling.toList = true := by
  refine forall_mem_lexemes (fun l => l.fits limit l.spelling.toList = true) (fun _ => rfl) rfl rfl e
    fun n member => ?_
  rw [Lexeme.toList_spelling_whole]
  exact List.all_eq_true.mp fits n member

/-- A calculation has lexemes. -/
theorem lexemes_ne_nil (e : Calculation) : e.lexemes ≠ [] := by
  cases e with
  | binary o left right => simp [lexemes]
  | _ => exact List.cons_ne_nil _ _

/-- The lexemes that declare the variable. -/
def variableLexemes : List Lexeme :=
  [.reserved .var, .name "a", .punctuation .colon, .reserved .integerType, .punctuation .semicolon]

/-- The lexemes that assign the calculation to it. -/
def bodyLexemes (e : Calculation) : List Lexeme :=
  .reserved .beginBlock :: .name "a" :: .punctuation .assign :: (e.lexemes ++ [.reserved .endBlock])

/-- The lexemes of the program. -/
def programLexemes (e : Calculation) : List Lexeme :=
  .reserved .program :: .name "t" :: .punctuation .semicolon ::
    (variableLexemes ++ (e.bodyLexemes ++ [.punctuation .dot]))

/-- The words and marks before the calculation. -/
theorem toList_opening :
    opening.toList =
      (Lexeme.reserved .program).spelling.toList ++ ' ' :: 't' :: ';' :: ' ' ::
        ((Lexeme.reserved .var).spelling.toList ++ ' ' :: 'a' :: ' ' ::
        ((Lexeme.punctuation .colon).spelling.toList ++ ' ' ::
        ((Lexeme.reserved .integerType).spelling.toList ++ ';' :: ' ' ::
        ((Lexeme.reserved .beginBlock).spelling.toList ++ ' ' :: 'a' :: ' ' ::
        ((Lexeme.punctuation .assign).spelling.toList ++ [' ']))))) := by
  decide

/-- The word and the mark behind it. -/
theorem toList_closing :
    closing.toList = ' ' :: ((Lexeme.reserved .endBlock).spelling.toList ++ ['.']) := by
  decide

/-- The text of the program renders its lexemes. -/
theorem rendered_programText {e : Calculation} {limit : DigitLimit} (fits : e.fits limit = true) :
    (Edition.calls.lexis limit).Rendered e.programText.toList e.programLexemes := by
  have dot : (Edition.calls.lexis limit).Rendered ['.'] [.punctuation .dot] :=
    Edition.rendered_mark '.' rfl rfl (by decide) .nil
  have ending := Edition.rendered_fixed (.reserved .endBlock) '.' rfl rfl rfl dot
  have value := Edition.rendered_spaced e.lexemes_ne_nil e.isFixed_lexemes (fits_lexemes fits) ending
  rw [programText, String.toList_append, String.toList_append, toList_opening, toList_closing]
  simp only [programLexemes, variableLexemes, bodyLexemes, List.append_assoc, List.cons_append,
    List.nil_append]
  exact Edition.rendered_fixed (.reserved .program) ' ' rfl rfl rfl <| .blank rfl <|
    Edition.rendered_letter 't' ';' rfl rfl rfl <|
    Edition.rendered_mark ';' rfl rfl (by decide) <| .blank rfl <|
    Edition.rendered_fixed (.reserved .var) ' ' rfl rfl rfl <| .blank rfl <|
    Edition.rendered_letter 'a' ' ' rfl rfl rfl <| .blank rfl <|
    Edition.rendered_fixed (.punctuation .colon) ' ' rfl rfl rfl <| .blank rfl <|
    Edition.rendered_fixed (.reserved .integerType) ';' rfl rfl rfl <|
    Edition.rendered_mark ';' rfl rfl (by decide) <| .blank rfl <|
    Edition.rendered_fixed (.reserved .beginBlock) ' ' rfl rfl rfl <| .blank rfl <|
    Edition.rendered_letter 'a' ' ' rfl rfl rfl <| .blank rfl <|
    Edition.rendered_fixed (.punctuation .assign) ' ' rfl rfl rfl <| .blank rfl value

/-- The declaration of the variable. -/
theorem derivesVariables_a {ms : List Mark} (spelled : ms.map Mark.lexeme = variableLexemes) :
    ∃ place type, DerivesVariables ms [.var ⟨⟨"a", place⟩, type⟩] := by
  obtain ⟨m₁, _, rfl, var, spelled⟩ := List.map_eq_cons_iff.mp spelled
  obtain ⟨m₂, _, rfl, name, spelled⟩ := List.map_eq_cons_iff.mp spelled
  obtain ⟨m₃, _, rfl, colon, spelled⟩ := List.map_eq_cons_iff.mp spelled
  obtain ⟨m₄, _, rfl, word, spelled⟩ := List.map_eq_cons_iff.mp spelled
  obtain ⟨m₅, _, rfl, semicolon, spelled⟩ := List.map_eq_cons_iff.mp spelled
  obtain rfl := List.map_eq_nil_iff.mp spelled
  have type : DerivesType [m₄] ⟨.integer, m₄.place⟩ := .word word
  have group : DerivesGroup [m₂, m₃, m₄, m₅] [.var ⟨⟨"a", m₂.place⟩, ⟨.integer, m₄.place⟩⟩] :=
    .group (.group (.one (.name name)) colon type) semicolon
  exact ⟨_, _, .some var (.cons group .nil)⟩

/-- The assignment of the calculation. -/
theorem derivesStmt_assign {g : Grammar} (e : Calculation) {ms : List Mark}
    (spelled : ms.map Mark.lexeme = e.bodyLexemes) :
    ∃ place place' x, e.Tree x ∧ DerivesStmt g ms (.compound [.assign ⟨"a", place⟩ place' x]) := by
  obtain ⟨m₁, _, rfl, first, spelled⟩ := List.map_eq_cons_iff.mp spelled
  obtain ⟨m₂, _, rfl, name, spelled⟩ := List.map_eq_cons_iff.mp spelled
  obtain ⟨m₃, _, rfl, assign, spelled⟩ := List.map_eq_cons_iff.mp spelled
  obtain ⟨ns, _, rfl, value, spelled⟩ := List.map_eq_append_iff.mp spelled
  obtain ⟨m₄, _, rfl, last, spelled⟩ := List.map_eq_cons_iff.mp spelled
  obtain rfl := List.map_eq_nil_iff.mp spelled
  obtain ⟨x, tree, form⟩ := e.derives ns value
  have sum : DerivesExpr .sum ns x := form.loosen (by cases e.level <;> decide)
  exact ⟨_, _, x, tree, .compound first (.one (.assign name assign sum)) last⟩

/-- The program declares its variable and assigns the calculation to it. -/
theorem derives_program {g : Grammar} (e : Calculation) {ms : List Mark}
    (spelled : ms.map Mark.lexeme = e.programLexemes) :
    ∃ place type place' place'' x, e.Tree x ∧
      g.Derives ms ⟨"t", ⟨[.var ⟨⟨"a", place⟩, type⟩], [.assign ⟨"a", place'⟩ place'' x]⟩⟩ := by
  obtain ⟨m₁, _, rfl, word, spelled⟩ := List.map_eq_cons_iff.mp spelled
  obtain ⟨m₂, _, rfl, name, spelled⟩ := List.map_eq_cons_iff.mp spelled
  obtain ⟨m₃, _, rfl, semicolon, spelled⟩ := List.map_eq_cons_iff.mp spelled
  obtain ⟨us, _, rfl, declared, spelled⟩ := List.map_eq_append_iff.mp spelled
  obtain ⟨vs, _, rfl, body, spelled⟩ := List.map_eq_append_iff.mp spelled
  obtain ⟨m₄, _, rfl, dot, spelled⟩ := List.map_eq_cons_iff.mp spelled
  obtain rfl := List.map_eq_nil_iff.mp spelled
  obtain ⟨place, type, vars⟩ := derivesVariables_a declared
  obtain ⟨place', place'', x, tree, form⟩ := @derivesStmt_assign g e _ body
  have block := DerivesBlock.block vars .nil form
  refine ⟨place, type, place', place'', x, tree, ?_⟩
  rw [← List.append_assoc]
  exact .program word name semicolon block dot

/-! ## From the text to the memory -/

/-- The program has no violations. -/
theorem violations_eq_nil {e : Calculation} {x : Expr} (tree : e.Tree x) {place place' place'' : Place}
    {type : TypeRef} :
    Program.violations
      ⟨"t", ⟨[.var ⟨⟨"a", place⟩, type⟩], [.assign ⟨"a", place'⟩ place'' x]⟩⟩ = [] := by
  simp [Program.violations, Block.violations, Decl.violationsAll, Decl.violations, Decl.name,
    Stmt.usesAll, Stmt.uses, tree.uses_eq, undeclaredUses]

/-- Running the program leaves the value of the calculation. -/
theorem run_program {e : Calculation} {x : Expr} (tree : e.Tree x) {place place' place'' : Place}
    {type : TypeRef} :
    (Node.program ⟨"t", ⟨[.var ⟨⟨"a", place⟩, type⟩], [.assign ⟨"a", place'⟩ place'' x]⟩⟩).run
      Edition.calls.evalRules .empty = e.outcome := by
  have value := tree.eval_eq .empty
  rw [Node.run, Stmt.runAll, outcome]
  cases known : e.value with
  | none =>
    rw [known] at value
    exact Work.bind_of_error (Work.bind_of_error (Stmt.run_assign_of_error value))
  | some v =>
    rw [known] at value
    exact Work.bind_of_ok (Work.bind_of_ok (Stmt.run_assign_of_ok value))

end Calculation

namespace Calculation

variable {limit : DigitLimit}

/-- The program is read, if the limit allows its numbers. -/
theorem exists_attempt {e : Calculation} (fits : e.fits limit = true) :
    ∃ place type place' place'' x reading, e.Tree x ∧
      (Edition.calls.lexis limit).attempt (Edition.calls.grammar limit).parse e.programText =
        .done (.program ⟨"t", ⟨[.var ⟨⟨"a", place⟩, type⟩], [.assign ⟨"a", place'⟩ place'' x]⟩⟩) reading := by
  obtain ⟨ms, ⟨r, s, opened, passage, last⟩, spelled⟩ :=
    (rendered_programText fits).reads rfl (List.cons_ne_nil _ _)
  obtain ⟨place, type, place', place'', x, tree, form⟩ := e.derives_program spelled
  have read := (Grammar.parse_eq_ok Edition.full_calls).mpr ⟨last, ms, _, passage, rfl, form⟩
  exact ⟨place, type, place', place'', x, s, tree, Lexis.attempt_of_ok opened read⟩

/-- The numbers of a program that can be read are within the limit. -/
theorem fits_of_attempt {e : Calculation} {tree : Node} {reading : Reading}
    (done : (Edition.calls.lexis limit).attempt (Edition.calls.grammar limit).parse e.programText =
      .done tree reading) : e.fits limit = true := by
  obtain ⟨ms, p, reads, _, _⟩ := Grammar.reads_of_attempt Edition.full_calls done
  -- without a limit the lexemes of the program are read, and no others
  have free : e.fits .off = true := List.all_eq_true.mpr fun _ _ => rfl
  obtain ⟨ns, reads', spelled⟩ := (rendered_programText free).reads rfl (List.cons_ne_nil _ _)
  obtain rfl : ms = ns := reads.unlimited.unique reads'
  refine List.all_eq_true.mpr fun n member => ?_
  have lexeme : .literal (.whole n) ∈ ms.map Mark.lexeme := by
    rw [spelled]
    simp [programLexemes, bodyLexemes, number_mem_lexemes member]
  obtain ⟨m, among, number⟩ := List.mem_map.mp lexeme
  exact Edition.fits_of_reads reads among number

end Calculation

/-- The program that assigns a calculation to a variable is read and accepted, and running it leaves the
value of the calculation as the only value in the memory, or fails with a division by zero and leaves the
memory empty. If one of its numbers has more digits than are allowed the program is not read, for this
reason. -/
theorem run_calculation (limit : DigitLimit) (e : Calculation) (logs : Bool) :
    (e.fits limit = true →
      ∃ tree reading analysis survey,
        (Edition.calls.lexis limit).attempt (Edition.calls.grammar limit).parse e.programText =
          .done tree reading ∧
        Edition.calls.analysis? logs = some analysis ∧
        analysis.node tree analysis.initial = .ok () survey ∧
        tree.run Edition.calls.evalRules .empty = e.outcome) ∧
    (e.fits limit = false →
      ∃ count, limit.allows count = false ∧
        ((Edition.calls.lexis limit).attempt (Edition.calls.grammar limit).parse e.programText).result =
          .error (.malformedWhole (.tooLong limit.most count))) := by
  constructor
  · intro fits
    obtain ⟨_, _, _, _, _, reading, tree, parsed⟩ := Calculation.exists_attempt fits
    obtain ⟨_, same, orderly⟩ := orderly_of_attempt parsed
    cases same
    have settles := @Scoped.program_settles ⟨true, logs⟩ ⟨[], #[]⟩ rfl _
      orderly.declarations.regular orderly.body rfl
    obtain ⟨_, st, accepted⟩ := settles.ok_iff.mpr (Calculation.violations_eq_nil tree)
    obtain ⟨survey, accepted⟩ := Survey.onScopes_ok_iff.mpr ⟨st, accepted⟩
    exact ⟨_, reading, .scoped ⟨true, logs⟩, survey, parsed, rfl, accepted, Calculation.run_program tree⟩
  · intro long
    rcases Edition.calls.attempt_limited limit e.programText with same | stopped
    · -- as without a limit it would be read
      have free : e.fits .off = true := List.all_eq_true.mpr fun _ _ => rfl
      obtain ⟨_, _, _, _, _, reading, _, parsed⟩ := Calculation.exists_attempt free
      rw [Calculation.fits_of_attempt (same.trans parsed)] at long
      cases long
    · exact stopped

/-- A quotient of negative numbers is rounded down. It needs three digits. -/
theorem run_calculation_rounds_down :
    let e : Calculation := .binary .div (.signed .minus (.literal 100)) (.literal 7)
    (∃ tree reading,
      (Edition.calls.lexis ⟨3⟩).attempt (Edition.calls.grammar ⟨3⟩).parse e.programText = .done tree reading ∧
      tree.run Edition.calls.evalRules .empty = .ok .missing ⟨[("a", .whole (-15))]⟩) ∧
    ∃ count, (DigitLimit.mk 2).allows count = false ∧
      ((Edition.calls.lexis ⟨2⟩).attempt (Edition.calls.grammar ⟨2⟩).parse e.programText).result =
        .error (.malformedWhole (.tooLong 2 count)) := by
  intro e
  have short : e.fits ⟨3⟩ = true := by decide
  have long : e.fits ⟨2⟩ = false := by decide
  obtain ⟨tree, reading, _, _, parsed, _, _, ran⟩ := (run_calculation ⟨3⟩ e true).1 short
  exact ⟨⟨tree, reading, parsed, ran⟩, (run_calculation ⟨2⟩ e true).2 long⟩

/-- Parentheses stand where grouping to the left would be wrong. -/
example : (Calculation.binary .minus (.literal 7) (.binary .minus (.literal 2)
      (.signed .minus (.binary .times (.literal 3) (.literal 4))))).programText =
    "PROGRAM t; VAR a : INTEGER; BEGIN a := 7 - ( 2 - - ( 3 * 4 ) ) END." := by decide

end LittlePascal
