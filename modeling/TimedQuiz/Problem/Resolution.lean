import TimedQuiz.Expr.Reader
import TimedQuiz.Journal.Notice
import TimedQuiz.Problem.Basic
import TimedQuiz.Problem.Display

/-!
# Working out the correct answers

* `Problem.worth` — the value of a problem's expression;
* `Problem.resolved` — the problem with its correct answer, zero if its expression is not read,
  and no answer of the user;
* `Problem.notice?` — what there is to note about it.
-/

namespace TimedQuiz.Problem

/-- The expression of the problem's text. -/
def expression (p : Problem) : String := String.ofList (expressionOf p.text.toList)

/-- The value of the problem's expression. -/
def worth (p : Problem) : Except Expr.Rejection Float := Expr.calculate (expressionOf p.text.toList)

/-- The problem with its correct answer and no answer of the user. -/
def resolved (p : Problem) : Problem :=
  { id := p.id
    text := p.text
    correct := some (match p.worth with | .ok x => x | .error _ => Float.ofBits 0) }

/-- An expression that is not read, or that has no finite value, is noted. -/
def notice? (p : Problem) : Option Notice :=
  match p.worth with
  | .ok x => if x.isFinite then none else some (.notFinite p.id p.expression x)
  | .error reason => some (.unreadable p.expression reason)

/-- The notices about a list of problems, in order. -/
def notices (ps : List Problem) : List Notice := ps.filterMap notice?

end TimedQuiz.Problem
