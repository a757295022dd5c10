import TimedQuiz.Number.Decimal

/-!
# The clock of the quiz

* `clockFace` — seconds as minutes and seconds, the latter in two digits.
-/

namespace TimedQuiz

/-- Seconds in two digits. -/
def twoDigits (n : Nat) : List Char := [Nat.digitChar (n / 10 % 10), Nat.digitChar (n % 10)]

/-- Minutes and seconds; times before zero show as zero. Minutes with more digits than an integer
may have are not shown. -/
def clockFace (seconds : Int) : Except Number.Unwritable String := do
  let time := seconds.toNat
  let minutes ← Number.decimal (time / 60 : Nat)
  return minutes ++ ":" ++ String.ofList (twoDigits (time % 60))

end TimedQuiz
