/-!
# Problems

* `Problem` — one exercise with its correct answer, once known, and the state of its answer;
* `Problem.withAnswer`, `Problem.withoutAnswer` — taking an answer and forgetting it.
-/

namespace TimedQuiz

/-- One arithmetic exercise; `correct` is absent until the text has been worked out. -/
structure Problem where
  id : Int
  text : String
  correct : Option Float := none
  user : Option Float := none
  isCorrect : Bool := false
  isAnswered : Bool := false
  deriving DecidableEq

namespace Problem

/-- An answer is right if it is nearer than the tolerance to the correct answer, an absent one
being zero. -/
def accepts (p : Problem) (answer tolerance : Float) : Bool :=
  decide ((answer - p.correct.getD (Float.ofBits 0)).abs < tolerance)

/-- The problem with an answer. -/
def withAnswer (p : Problem) (answer tolerance : Float) : Problem :=
  { p with user := some answer, isCorrect := p.accepts answer tolerance, isAnswered := true }

/-- The problem without an answer; the correct answer stays. -/
def withoutAnswer (p : Problem) : Problem :=
  { p with user := none, isCorrect := false, isAnswered := false }

end Problem

end TimedQuiz
