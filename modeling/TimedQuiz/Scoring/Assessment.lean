import TimedQuiz.Scoring.Grade
import TimedQuiz.Wording.Basic

/-!
# Assessment

* `correctCount` — the right answers in a list of problems;
* `assess` — the report on a list of problems, worded.
-/

namespace TimedQuiz

/-- The number of right answers; a problem without an answer has none. -/
def correctCount (ps : List Problem) : Nat := ps.countP (·.isCorrect)

/-- A score, or the fault of having none. -/
def scoreOf (ps : List Problem) : Recorded Int where
  outcome :=
    match score (correctCount ps) ps.length with
    | .ok n => .ok n
    | .error cause => .error (.scoring cause)

/-- The report on a list of problems: the score, then the wording of its grade, then that of the
feedback. -/
def assess (wording : Wording) (ps : List Problem) : Recorded Report := do
  let score ← scoreOf ps
  let grade := Grade.ofScore score
  let title ← wording.ask grade.titleKey
  let feedback ← wording.ask grade.feedbackKey
  return {
    total := ps.length
    correct := correctCount ps
    incorrect := (ps.length : Int) - correctCount ps
    score
    grade := title
    feedback }

end TimedQuiz
