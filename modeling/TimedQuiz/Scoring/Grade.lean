/-!
# Grades

* `Grade` — the grades, from the lowest to the highest;
* `Grade.ofScore` — the grade that a score reaches;
* `Grade.titleKey`, `Grade.feedbackKey` — the messages about a grade.
-/

namespace TimedQuiz

/-- A grade. -/
inductive Grade where
  | needsImprovement
  | passing
  | average
  | good
  | excellent
  deriving DecidableEq, Repr

namespace Grade

/-- The name of a grade. -/
def name : Grade → String
  | .needsImprovement => "needsImprovement"
  | .passing => "passing"
  | .average => "average"
  | .good => "good"
  | .excellent => "excellent"

/-- The grade that a score reaches. -/
def ofScore (score : Int) : Grade :=
  if 90 ≤ score then .excellent
  else if 80 ≤ score then .good
  else if 70 ≤ score then .average
  else if 60 ≤ score then .passing
  else .needsImprovement

/-- The key of the grade's title. -/
def titleKey (g : Grade) : String := "quiz.grades." ++ g.name

/-- The key of the feedback on a grade. -/
def feedbackKey (g : Grade) : String := "quiz.feedback." ++ g.name

end Grade

end TimedQuiz
