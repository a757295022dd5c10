import TimedQuiz.Wording.Template

/-!
# Message catalogs

* `Catalog` — templates by message key;
* `Catalog.builtIn` — the English messages;
* `Catalog.withMessages` — other messages over the built-in ones;
* `Catalog.template` — the template of a key, which is the key itself where the catalog has none;
* `Catalog.message` — the message of a key.
-/

namespace TimedQuiz

/-- Templates by message key. -/
structure Catalog where
  templates : Table String

namespace Catalog

/-- The English messages. -/
def builtInEntries : List (String × String) :=
  [("quiz.loading", "Loading quiz..."),
   ("quiz.problemNumber", "Problem \x7b\x7bnumber\x7d\x7d"),
   ("quiz.progress", "\x7b\x7bcurrent\x7d\x7d / \x7b\x7btotal\x7d\x7d"),
   ("quiz.completed", "Quiz Completed!"),
   ("quiz.score", "Score"),
   ("quiz.retry", "Try Again"),
   ("quiz.backToPractice", "Back to Practice"),
   ("quiz.stats.totalProblems", "Total Problems"),
   ("quiz.stats.correct", "Correct"),
   ("quiz.stats.incorrect", "Incorrect"),
   ("quiz.stats.timeUsed", "Time Used"),
   ("quiz.grades.excellent", "Excellent"),
   ("quiz.grades.good", "Good"),
   ("quiz.grades.average", "Average"),
   ("quiz.grades.passing", "Passing"),
   ("quiz.grades.needsImprovement", "Needs Improvement"),
   ("quiz.feedback.excellent", "Outstanding work! You have mastered these problems."),
   ("quiz.feedback.good", "Great job! Just a few more to perfect."),
   ("quiz.feedback.average", "Nice effort. Keep practicing to improve your accuracy."),
   ("quiz.feedback.passing", "You passed. Review the problems you missed and try again."),
   ("quiz.feedback.needsImprovement", "Keep going! Practice makes perfect.")]

/-- Other messages over the built-in ones. -/
def withMessages (messages : List (String × String)) : Catalog :=
  ⟨(Table.ofList builtInEntries).insertMany messages⟩

/-- The catalog of the English messages alone. -/
def builtIn : Catalog := withMessages []

/-- The catalog has a template for the key. -/
def hasKey (c : Catalog) (key : String) : Bool := c.templates.contains key

/-- The template of a key. -/
def template (c : Catalog) (key : String) : String := (c.templates.get? key).getD key

/-- The message of a key. -/
def message (c : Catalog) (key : String) (params : Table Datum) : Except Number.Unwritable String :=
  Template.interpolate (c.template key) params

end Catalog

end TimedQuiz
