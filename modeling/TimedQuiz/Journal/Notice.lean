import TimedQuiz.Expr.Rejection
import TimedQuiz.Journal.Severity
import TimedQuiz.Number.Shortest
import TimedQuiz.Text.Quoted

/-!
# Notices

What the quiz notes for its operator, as opposed to its user.

* `Notice` — the notices;
* `Notice.severity`, `Notice.part`, `Notice.text` — how each is reported.
-/

namespace TimedQuiz

/-- The part of the quiz that a notice comes from. -/
inductive Part where
  /-- Working out the correct answers. -/
  | resolution
  /-- Conducting a sitting. -/
  | conduct
  deriving DecidableEq, Repr

/-- Something worth noting. -/
inductive Notice where
  /-- The expression of a problem is not read. -/
  | unreadable (expression : String) (reason : Expr.Rejection)
  /-- The expression of a problem has an infinite value, or none. -/
  | notFinite (id : Int) (expression : String) (value : Float)
  /-- A quiz was completed. -/
  | completed (correct total score : Int) (grade : String)
  /-- An advance came due after its generation had passed. -/
  | staleAdvance (generation : Int)
  /-- A tick came due after its generation had passed. -/
  | staleTick (generation : Int)
  deriving DecidableEq

namespace Notice

/-- How much a notice matters. -/
def severity : Notice → Severity
  | .unreadable .. => .error
  | .notFinite .. => .warning
  | .completed .. => .info
  | .staleAdvance _ => .debug
  | .staleTick _ => .debug

/-- Where a notice comes from. -/
def part : Notice → Part
  | .unreadable .. => .resolution
  | .notFinite .. => .resolution
  | .completed .. => .conduct
  | .staleAdvance _ => .conduct
  | .staleTick _ => .conduct

/-- The wording of a notice. The integers that it names are taken to have no more digits than
`Number.maxDigits`; a log drops the line of a notice with a longer one. -/
def text : Notice → String
  | .unreadable expression reason =>
    "Error calculating answer for " ++ Text.quote expression ++ ": " ++ reason.message
  | .notFinite id expression value =>
    "Problem " ++ toString id ++ " has no finite answer (" ++ Text.quote expression ++
      " evaluates to " ++ Shortest.text value ++ ")"
  | .completed correct total score grade =>
    "Quiz completed: " ++ toString correct ++ "/" ++ toString total ++ " correct, score " ++
      toString score ++ " (" ++ grade ++ ")"
  | .staleAdvance generation =>
    "Dropping advance scheduled for generation " ++ toString generation
  | .staleTick generation => "Dropping tick for generation " ++ toString generation

end Notice

end TimedQuiz
