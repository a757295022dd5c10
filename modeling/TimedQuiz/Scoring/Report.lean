/-!
# Reports

* `Report` — the summary of a completed quiz.
-/

namespace TimedQuiz

/-- The summary of a completed quiz. -/
structure Report where
  total : Int
  correct : Int
  incorrect : Int
  score : Int
  grade : String
  feedback : String
  deriving DecidableEq, Repr

end TimedQuiz
