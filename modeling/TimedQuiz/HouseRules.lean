import TimedQuiz.Number.Reading
import TimedQuiz.Table
import TimedQuiz.Text.Blank
import TimedQuiz.Text.Quoted

/-!
# House rules

The delay before the quiz moves on, the beat of its clock, and how near an answer has to be.

* `HouseRules` — the rules, with their defaults;
* `HouseRules.ofVariables` — the rules that named variables set, or the first variable that cannot
  be used.
-/

namespace TimedQuiz

/-- How a quiz is conducted. -/
structure HouseRules where
  /-- Milliseconds from an answer to the next problem. -/
  advanceDelay : Int := 1500
  /-- Milliseconds from one tick of the clock to the next. -/
  tickInterval : Int := 1000
  /-- An answer nearer than this is right. -/
  tolerance : Float := Float.ofScientific 1 true 3

namespace HouseRules

/-- What is wrong with the value of a variable. -/
inductive Defect where
  | notANumber
  | negative
  deriving DecidableEq, Repr

/-- A variable that cannot be used, with its value as it stands. -/
structure BadVariable where
  name : String
  value : String
  defect : Defect
  deriving DecidableEq, Repr

/-- The wording of what is wrong. -/
def BadVariable.message (b : BadVariable) : String :=
  b.name ++ (match b.defect with
    | .notANumber => " must be a number, got "
    | .negative => " must be a non-negative number, got ") ++ Text.quote b.value

/-- The value of one variable, blanks around it ignored; the default if it is absent or blank. -/
def readVariable {α : Type} (vars : Table String) (name : String) (read : List Char → Option α)
    (isAllowed : α → Bool) (default : α) : Except BadVariable α :=
  match vars.get? name with
  | none => .ok default
  | some value =>
    let text := Text.trim value.toList
    if text.isEmpty then .ok default
    else
      match read text with
      | none => .error ⟨name, value, .notANumber⟩
      | some x => if isAllowed x then .ok x else .error ⟨name, value, .negative⟩

/-- The rules that the variables set. -/
def ofVariables (vars : Table String) : Except BadVariable HouseRules := do
  let defaults : HouseRules := {}
  let allowedInteger (n : Int) : Bool := decide (0 ≤ n)
  let allowedReal (x : Float) : Bool := decide (Float.ofBits 0 ≤ x)
  let advanceDelay ← readVariable vars "MATHQUIZ_ADVANCE_DELAY_MS" Number.integer? allowedInteger
    defaults.advanceDelay
  let tickInterval ← readVariable vars "MATHQUIZ_TICK_INTERVAL_MS" Number.integer? allowedInteger
    defaults.tickInterval
  let tolerance ← readVariable vars "MATHQUIZ_ANSWER_TOLERANCE" Number.real? allowedReal
    defaults.tolerance
  return { advanceDelay, tickInterval, tolerance }

end HouseRules

end TimedQuiz
