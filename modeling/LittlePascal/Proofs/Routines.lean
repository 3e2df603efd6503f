import LittlePascal.Proofs.Passage
import LittlePascal.Grammar

/-! # The routines of a grammar

The rules of the last grammar as routines of a recursive descent: a routine eats tokens, calls other routines,
runs loops and decides by the current token. Here the routines are data, so that one can speak of what they
call and of when a token is eaten. `execute` carries them out, with a bound for how deep they may be nested; a
round of a loop counts as nested in the round before. It notes which routines and rounds are open whenever
another one is begun, and how many tokens had been eaten when each of them was.

No routine leads back to itself without a token in between: the routines and loops have ranks, and until it eats
a token each of them begins only such of a lower rank.

Main definitions:
* `Routine.Steps`, `Routine.ofRule`, `Routine.ofLoop`: what the routines and the rounds of their loops do;
* `Routine.execute`: carrying them out, up to a depth;
* `Routine.Part.rank`, `Routine.Steps.lead`: the ranks, and a bound for the ranks of what is begun before a token.

Main statements: `Routine.Part.lead_steps_le`, `Routine.Part.plain_steps`. -/

namespace LittlePascal

namespace Routine

open Grammar (Rule)

/-! ## What routines do -/

/-- What a routine decides by. -/
inductive Test where
  /-- The current token is of one of these kinds. -/
  | among (kinds : List Kind)
  /-- It is a name that a parenthesis directly follows. -/
  | call
  deriving DecidableEq, Repr

/-- Whether a test holds of a reading. -/
def Test.holds (r : Reading) : Test → Bool
  | .among kinds => kinds.contains r.token.kind
  | .call => r.token.kind == .name && r.cursor.char? == some '('

/-- The loops of the routines. -/
inductive Loop where
  /-- Groups of variables with a type. -/
  | variables
  | procedures
  | variableNames
  | parameterNames
  /-- Groups of parameters with a type. -/
  | parameterGroups
  | statements
  | arguments
  | sums
  | products
  deriving DecidableEq, Repr

/-- The steps of a routine. -/
inductive Steps where
  | done
  /-- The current token is refused. -/
  | refuse
  | eat (kind : Kind) (rest : Steps)
  | call (r : Rule) (rest : Steps)
  | loop (l : Loop) (rest : Steps)
  /-- One of two ways, and then the rest. -/
  | choose (test : Test) (yes no rest : Steps)
  deriving DecidableEq, Repr

/-- One of two ways to end. -/
def Steps.either (test : Test) (yes no : Steps) : Steps := .choose test yes no .done

/-- The steps of the routine of a rule. -/
def ofRule : Rule → Steps
  | .parse => .call .program <| .either (.among [.endOfText]) .done .refuse
  | .program =>
    .eat (.reserved .program) <| .call .var <| .eat (.punctuation .semicolon) <| .call .block <|
      .eat (.punctuation .dot) .done
  | .block => .call .declarations <| .call .compound .done
  | .declarations =>
    .choose (.among [.reserved .var]) (.eat (.reserved .var) <| .loop .variables .done) .done <|
      .loop .procedures .done
  | .procedure =>
    .eat (.reserved .procedure) <| .eat .name <|
      .choose (.among [.punctuation .leftParen])
        (.eat (.punctuation .leftParen) <| .call .parameterList <| .eat (.punctuation .rightParen) .done)
        .done <|
      .eat (.punctuation .semicolon) <| .call .block <| .eat (.punctuation .semicolon) .done
  | .parameterList => .either (.among [.name]) (.call .parameters <| .loop .parameterGroups .done) .done
  | .parameters =>
    .eat .name <| .loop .parameterNames <| .eat (.punctuation .colon) <| .call .typeRef .done
  | .bindings => .eat .name <| .loop .variableNames <| .eat (.punctuation .colon) <| .call .typeRef .done
  | .typeRef =>
    .either (.among [.reserved .integerType]) (.eat (.reserved .integerType) .done)
      (.eat (.reserved .realType) .done)
  | .compound =>
    .eat (.reserved .beginBlock) <| .call .statements <| .eat (.reserved .endBlock) .done
  | .statements => .call .statement <| .loop .statements .done
  | .statement =>
    .either (.among [.reserved .beginBlock]) (.call .compound .done) <|
    .either .call (.call .call .done) <|
    .either (.among [.name]) (.call .assignment .done) (.call .empty .done)
  | .call =>
    .eat .name <| .eat (.punctuation .leftParen) <|
      .choose (.among [.punctuation .rightParen]) .done (.call .expr .done) <|
      .loop .arguments <| .eat (.punctuation .rightParen) .done
  | .assignment => .call .var <| .eat (.punctuation .assign) <| .call .expr .done
  | .empty => .done
  | .expr => .call .term <| .loop .sums .done
  | .term => .call .factor <| .loop .products .done
  | .factor =>
    .either (.among [.operator .plus]) (.eat (.operator .plus) <| .call .factor .done) <|
    .either (.among [.operator .minus]) (.eat (.operator .minus) <| .call .factor .done) <|
    .either (.among [.whole]) (.eat .whole .done) <|
    .either (.among [.real]) (.eat .real .done) <|
    .either (.among [.punctuation .leftParen])
      (.eat (.punctuation .leftParen) <| .call .expr <| .eat (.punctuation .rightParen) .done)
      (.call .var .done)
  | .var => .eat .name .done

/-- Whether a loop has another round. -/
def Loop.test : Loop → Test
  | .variables => .among [.name]
  | .procedures => .among [.reserved .procedure]
  | .variableNames | .parameterNames | .arguments => .among [.punctuation .comma]
  | .parameterGroups | .statements => .among [.punctuation .semicolon]
  | .sums => .among [.operator .plus, .operator .minus]
  | .products => .among [.operator .times, .operator .div, .operator .slash]

/-- The steps of a round of a loop. Behind them the loop is tried again. -/
def ofLoop : Loop → Steps
  | .variables => .call .bindings <| .eat (.punctuation .semicolon) <| .loop .variables .done
  | .procedures => .call .procedure <| .loop .procedures .done
  | .variableNames => .eat (.punctuation .comma) <| .eat .name <| .loop .variableNames .done
  | .parameterNames => .eat (.punctuation .comma) <| .eat .name <| .loop .parameterNames .done
  | .parameterGroups => .eat (.punctuation .semicolon) <| .call .parameters <| .loop .parameterGroups .done
  | .statements => .eat (.punctuation .semicolon) <| .call .statement <| .loop .statements .done
  | .arguments => .eat (.punctuation .comma) <| .call .expr <| .loop .arguments .done
  | .sums =>
    .choose (.among [.operator .plus]) (.eat (.operator .plus) .done) (.eat (.operator .minus) .done) <|
      .call .term <| .loop .sums .done
  | .products =>
    .choose (.among [.operator .times]) (.eat (.operator .times) .done)
      (.either (.among [.operator .div]) (.eat (.operator .div) .done) (.eat (.operator .slash) .done)) <|
      .call .factor <| .loop .products .done

/-- A routine, or a round of a loop. -/
inductive Part where
  | routine (r : Rule)
  | round (l : Loop)
  deriving DecidableEq, Repr

/-- The steps of a part. -/
def Part.steps : Part → Steps
  | .routine r => ofRule r
  | .round l => ofLoop l

/-! ## Carrying them out -/

/-- A part that is open, with the number of tokens that had been eaten when it was begun. -/
structure Frame where
  part : Part
  since : Nat
  deriving DecidableEq, Repr

/-- How far the routines have come. -/
structure Course where
  reading : Reading
  /-- The number of tokens that have been eaten. -/
  eaten : Nat
  /-- The parts that were open whenever one was begun, that one included; the inner ones stand first. -/
  openings : List (List Frame)
  deriving DecidableEq, Repr

/-- The course before anything is done. -/
def Course.start (r : Reading) : Course := ⟨r, 0, []⟩

/-- What routines do. -/
abbrev Act := EStateM Fault Course Unit

/-- The current token is refused. -/
def refuse : Act := fun c => .error (.unexpected c.reading.token) c

/-- The current token is eaten if it is of the kind. -/
def eat (lx : Lexis) (kind : Kind) : Act := fun c =>
  if c.reading.token.kind = kind then
    match Parse.next lx c.reading with
    | .ok _ reading => .ok () { c with reading, eaten := c.eaten + 1 }
    | .error fault reading => .error fault { c with reading }
  else refuse c

/-- One act or the other. -/
def whether (test : Test) (yes no : Act) : Act := fun c =>
  if test.holds c.reading then yes c else no c

/-- A part is begun. -/
def begun (act : List Frame → Steps → Act) (frames : List Frame) (part : Part) : Act := fun c =>
  let inner := ⟨part, c.eaten⟩ :: frames
  act inner part.steps { c with openings := inner :: c.openings }

/-- Steps are carried out, given what carries out those of the parts they begin. -/
def Steps.perform (lx : Lexis) (act : List Frame → Steps → Act) (frames : List Frame) : Steps → Act
  | .done => pure ()
  | .refuse => Routine.refuse
  | .eat kind rest => do
    Routine.eat lx kind
    rest.perform lx act frames
  | .call r rest => do
    begun act frames (.routine r)
    rest.perform lx act frames
  | .loop l rest => do
    whether l.test (begun act frames (.round l)) (pure ())
    rest.perform lx act frames
  | .choose test yes no rest => do
    whether test (yes.perform lx act frames) (no.perform lx act frames)
    rest.perform lx act frames

/-- Steps are carried out with parts nested so many levels deep at most. -/
def execute (lx : Lexis) : Nat → List Frame → Steps → Act
  | 0, _, _ => throw .exhausted
  | depth + 1, frames, steps => steps.perform lx (execute lx depth) frames

/-! ## Ranks -/

/-- The rank of a part. Until it eats a token it begins only parts of a lower rank. -/
def Part.rank : Part → Nat
  | .routine .block | .routine .statements | .routine .expr => 3
  | .routine .declarations | .routine .statement | .routine .term => 2
  | .routine .parse | .routine .parameterList | .routine .assignment | .routine .factor => 1
  | .round .variables | .round .procedures => 1
  | _ => 0

namespace Steps

/-- Whether the first step eats a token. -/
def beginsByEating : Steps → Bool
  | .eat _ _ => true
  | _ => false

/-- Whether a token has been eaten for sure when the steps are done. -/
def mustEat : Steps → Bool
  | .done => false
  | .refuse => true
  | .eat _ _ => true
  | .call r rest => (ofRule r).beginsByEating || rest.mustEat
  | .loop _ rest => rest.mustEat
  | .choose _ yes no rest => (yes.mustEat && no.mustEat) || rest.mustEat

/-- A bound for the ranks of the parts that the steps begin before they eat a token. -/
def lead : Steps → Nat
  | .done => 0
  | .refuse => 0
  | .eat _ _ => 0
  | .call r rest => max ((Part.routine r).rank + 1) (if (ofRule r).beginsByEating then 0 else rest.lead)
  | .loop l rest => max ((Part.round l).rank + 1) rest.lead
  | .choose _ yes no rest =>
    max (max yes.lead no.lead) (if yes.mustEat && no.mustEat then 0 else rest.lead)

/-- Whether the end of the text is never eaten. -/
def plain : Steps → Bool
  | .done => true
  | .refuse => true
  | .eat kind rest => kind != .endOfText && rest.plain
  | .call _ rest => rest.plain
  | .loop _ rest => rest.plain
  | .choose _ yes no rest => yes.plain && no.plain && rest.plain

/-- Steps that begin by eating eat. -/
theorem mustEat_of_beginsByEating {s : Steps} (h : s.beginsByEating = true) : s.mustEat = true := by
  cases s with
  | eat => rfl
  | _ => cases h

end Steps

/-- There are four ranks. -/
theorem Part.rank_lt (p : Part) : p.rank < 4 := by
  rcases p with r | l
  · cases r <;> decide
  · cases l <;> decide

/-- No steps lead beyond the highest rank. -/
theorem Steps.lead_le (s : Steps) : s.lead ≤ 4 := by
  induction s with
  | done | refuse | eat => exact Nat.zero_le _
  | call r rest ih =>
    have := (Part.routine r).rank_lt
    rw [lead]
    split <;> omega
  | loop l rest ih =>
    have := (Part.round l).rank_lt
    rw [lead]
    omega
  | choose test yes no rest yes_ih no_ih ih =>
    rw [lead]
    split <;> omega

/-- Until it eats a token a part begins only parts of a lower rank. -/
theorem Part.lead_steps_le (p : Part) : p.steps.lead ≤ p.rank := by
  rcases p with r | l
  · cases r <;> decide
  · cases l <;> decide

/-- No part eats the end of the text. -/
theorem Part.plain_steps (p : Part) : p.steps.plain = true := by
  rcases p with r | l
  · cases r <;> decide
  · cases l <;> decide

end Routine

end LittlePascal
