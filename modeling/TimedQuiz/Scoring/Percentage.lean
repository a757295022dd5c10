import TimedQuiz.Number.Binary64

/-!
# Percentages

* `percentage` — a share in percent, rounded half up after each step has been rounded to a double;
* `score` — the percentage of right answers in a set that is not empty.
-/

namespace TimedQuiz

open Binary64

/-- The share of `part` in `whole`, in percent: the quotient, its hundredfold and that plus a half
are each rounded to a double, and the integer below the last is taken. -/
def percentage (part whole : Int) : Except Overflow Int :=
  match nearest? ((part : Rat) / (whole : Rat)) with
  | none => .error .quotient
  | some share =>
    match nearest? (share * 100) with
    | none => .error .infinity
    | some percent =>
      match nearest? (percent + 1 / 2) with
      | none => .error .infinity
      | some shifted => .ok shifted.floor

/-- Why a set has no score. -/
inductive ScoreFault where
  | emptySet
  | overflow (cause : Overflow)
  deriving DecidableEq, Repr

/-- The wording of each cause. -/
def ScoreFault.message : ScoreFault → String
  | .emptySet => "Cannot score an empty problem set."
  | .overflow cause => cause.message

/-- The percentage of right answers. -/
def score (correct total : Int) : Except ScoreFault Int :=
  if total ≤ 0 then .error .emptySet
  else
    match percentage correct total with
    | .ok n => .ok n
    | .error cause => .error (.overflow cause)

end TimedQuiz
