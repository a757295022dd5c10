/-!
# Rationals and doubles

* `nearest?` — the double nearest to a rational, as a rational; none if it is out of range;
* `truncate` — the integer part of a double;
* `scientific` — the double nearest to a decimal.
-/

namespace TimedQuiz.Binary64

/-- A result that does not exist as the number asked for. -/
inductive Overflow where
  /-- The quotient of two integers is beyond every double. -/
  | quotient
  /-- An infinity has no integer part. -/
  | infinity
  /-- What is not a number has no integer part. -/
  | notANumber
  deriving DecidableEq, Repr

/-- The wording of each cause. -/
def Overflow.message : Overflow → String
  | .quotient => "integer division result too large for a float"
  | .infinity => "cannot convert float infinity to integer"
  | .notANumber => "cannot convert float NaN to integer"

/-- The power of two with an integer exponent. -/
def twoPow (e : Int) : Rat :=
  if 0 ≤ e then (Nat.pow 2 e.toNat : Rat) else 1 / (Nat.pow 2 (-e).toNat : Rat)

/-- The nearest integer; of two that are equally near, the even one. -/
def roundHalfEven (x : Rat) : Int :=
  let low := x.floor
  let rest := x - low
  if rest < 1 / 2 then low
  else if 1 / 2 < rest then low + 1
  else if low % 2 = 0 then low else low + 1

/-- The exponent `e` with `2 ^ e ≤ |x| < 2 ^ (e + 1)`, for `x` other than zero. -/
def binade (x : Rat) : Int :=
  let e : Int := (x.num.natAbs.log2 : Int) - (x.den.log2 : Int)
  if twoPow e * (x.den : Rat) ≤ (x.num.natAbs : Rat) then e else e - 1

/-- The distance of neighbouring doubles in the binade of `x`: 53 significant bits, and none below
the least subnormal number. -/
def spacing (x : Rat) : Rat := twoPow (max (binade x - 52) (-1074))

/-- The double nearest to `x`, a tie going to the even significand. -/
def nearest? (x : Rat) : Option Rat :=
  let y := (roundHalfEven (x / spacing x) : Rat) * spacing x
  if -twoPow 1024 < y ∧ y < twoPow 1024 then some y else none

/-- The integer part of a double, toward zero. -/
def truncate (x : Float) : Except Overflow Int :=
  match x.toModel.unpack with
  | .notANumber => .error .notANumber
  | .infinity _ => .error .infinity
  | .zero _ => .ok 0
  | .finite sign m e _ =>
    let n : Nat := if 0 ≤ e then m * Nat.pow 2 e.toNat else m / Nat.pow 2 (-e).toNat
    .ok (match sign with | .positive => n | .negative => -(n : Int))

/-- The double nearest to `m * 10 ^ e`. -/
def scientific (m : Nat) (e : Int) : Float :=
  if e < 0 then Float.ofScientific m true (-e).toNat else Float.ofScientific m false e.toNat

/-- What is not a number. -/
def nan : Float := Float.ofBits 0x7FF8000000000000

/-- The positive infinity. -/
def infinity : Float := Float.ofBits 0x7FF0000000000000

end TimedQuiz.Binary64
