import TimedQuiz.Problem.Basic
import TimedQuiz.Scoring.Percentage
import TimedQuiz.Scoring.Report

/-!
# Rounds

A round is the state of one pass through a list of problems. Its generation tells it from every
earlier round, so that what was scheduled for one of those can be recognised.

* `Round` — the state;
* `Round.phase`, `Round.currentProblem`, `Round.progress`, … — what a screen shows of it.
-/

namespace TimedQuiz

/-- The stages of a round. -/
inductive Phase where
  | loading
  | active
  | completed
  deriving DecidableEq, Repr

/-- The name of a stage. -/
def Phase.name : Phase → String
  | .loading => "LOADING"
  | .active => "ACTIVE"
  | .completed => "COMPLETED"

/-- The state of one pass through a list of problems. -/
structure Round where
  problems : List Problem := []
  index : Int := 0
  elapsed : Int := 0
  completed : Bool := false
  result : Option Report := none
  generation : Int := 0
  deriving DecidableEq

namespace Round

variable (r : Round)

/-- The number of problems. -/
def size : Int := r.problems.length

/-- The position of the last problem. -/
def lastIndex : Int := r.size - 1

/-- The stage of the round. -/
def phase : Phase :=
  if r.completed then .completed else if r.problems.isEmpty then .loading else .active

/-- The problem on show. -/
def currentProblem : Option Problem :=
  if 0 ≤ r.index then r.problems[r.index.toNat]? else none

/-- There is a problem to go back to. -/
def canGoBack : Bool := decide (r.phase = .active ∧ 0 < r.index)

/-- There is a problem to go forward to. -/
def canGoForward : Bool := decide (r.phase = .active ∧ r.index < r.lastIndex)

/-- How far the round has come, in percent. -/
def progress : Except Binary64.Overflow Int :=
  if r.problems.isEmpty then .ok 0 else percentage (r.index + 1) r.size

/-- How many problems are answered. -/
def answeredCount : Nat := r.problems.countP (·.isAnswered)

end Round

end TimedQuiz
