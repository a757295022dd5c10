import TimedQuiz.Number.Binary64
import TimedQuiz.Number.Decimal
import TimedQuiz.Text.DecimalDigit

/-!
# Reading numbers

Numbers are written with decimal digits of any script, and a single underscore may stand between
two digits.

* `integer?` — a sign and at most `maxDigits` digits;
* `real?` — a sign and a decimal, possibly with an exponent, or the name of an infinity or of what
  is not a number.
-/

namespace TimedQuiz.Number

open Text Binary64

/-- The values of a run of digits, single underscores between them left out. -/
def digits? : List Char → Option (List Nat)
  | [] => none
  | [c] => (digitValue? c).map ([·])
  | c :: '_' :: cs => do return (← digitValue? c) :: (← digits? cs)
  | c :: cs => do return (← digitValue? c) :: (← digits? cs)

/-- The number that a run of digits denotes. -/
def ofDigits (ds : List Nat) : Nat := ds.foldl (fun n d => 10 * n + d) 0

/-- The sign, negative or not, and what follows it. -/
def splitSign : List Char → Bool × List Char
  | '-' :: cs => (true, cs)
  | '+' :: cs => (false, cs)
  | cs => (false, cs)

/-- The integer that a text denotes. -/
def integer? (s : List Char) : Option Int := do
  let (negative, body) := splitSign s
  let ds ← digits? body
  if ds.length ≤ maxDigits then
    return if negative then -(ofDigits ds : Int) else ofDigits ds
  else none

/-- Cuts at the first character that passes the test, which is left out; the second part is `none`
if there is no such character. -/
def cutAt (p : Char → Bool) : List Char → List Char × Option (List Char)
  | [] => ([], none)
  | c :: cs =>
    if p c then ([], some cs)
    else
      let (before, after) := cutAt p cs
      (c :: before, after)

/-- A run of digits that may be empty. -/
def optionalDigits? (s : List Char) : Option (List Nat) :=
  if s.isEmpty then some [] else digits? s

/-- The digits of a decimal and how many of them are places after the point; one digit at least. -/
def decimal? (s : List Char) : Option (List Nat × Nat) := do
  let (whole, rest) := cutAt (· == '.') s
  let whole ← optionalDigits? whole
  let places ← optionalDigits? (rest.getD [])
  if whole.isEmpty && places.isEmpty then none else return (whole ++ places, places.length)

/-- The exponent after its mark; zero without a mark. -/
def exponent? : Option (List Char) → Option Int
  | none => some 0
  | some s => do
    let (negative, body) := splitSign s
    let ds ← digits? body
    return if negative then -(ofDigits ds : Int) else ofDigits ds

/-- The magnitude that a text without a sign denotes. -/
def magnitude? (s : List Char) : Option Float :=
  let name := String.ofList (s.map Char.toLower)
  if name = "inf" ∨ name = "infinity" then some infinity
  else if name = "nan" then some nan
  else do
    let (body, power) := cutAt (fun c => c == 'e' || c == 'E') s
    let (ds, places) ← decimal? body
    let power ← exponent? power
    return scientific (ofDigits ds) (power - places)

/-- The double nearest to the number that a text denotes. -/
def real? (s : List Char) : Option Float := do
  let (negative, body) := splitSign s
  let x ← magnitude? body
  return if negative then -x else x

end TimedQuiz.Number
