/-!
# Writing integers

An integer is read and written with a limited number of digits; the sign does not count.

* `maxDigits` — the limit;
* `isWritable` — the integers within the limit;
* `decimal` — the decimal text of an integer.
-/

namespace TimedQuiz.Number

/-- The most digits that an integer may have. -/
def maxDigits : Nat := 4300

/-- Why an integer has no decimal text. -/
inductive Unwritable where
  /-- It has more digits than an integer may have. -/
  | tooLong
  deriving DecidableEq, Repr

/-- The wording of each cause. -/
def Unwritable.message : Unwritable → String
  | .tooLong =>
    "Exceeds the limit (" ++ toString maxDigits ++ " digits) for integer string conversion; " ++
      "use sys.set_int_max_str_digits() to increase the limit"

/-- The integer has no more digits than an integer may have. -/
def isWritable (n : Int) : Bool := decide ((Nat.toDigits 10 n.natAbs).length ≤ maxDigits)

/-- The decimal text of an integer. -/
def decimal (n : Int) : Except Unwritable String :=
  if isWritable n then .ok (toString n) else .error .tooLong

end TimedQuiz.Number
