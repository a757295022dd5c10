import TimedQuiz.Number.Binary64

/-!
# The shortest decimal of a double

Of the decimals that read back as a given double the one with the fewest digits is written, of
several the nearest, and of two equally near the even one.

* `shortest` — digits and exponent of a positive double;
* `text` — the written form of any double: positional from `0.0001` to below `10 ^ 16`, with an
  exponent outside.
-/

namespace TimedQuiz.Shortest

open Binary64

/-- A positive finite double as a quotient of naturals. -/
def quotient (x : Float) : Nat × Nat :=
  match x.toModel.unpack with
  | .finite _ m e _ => if 0 ≤ e then (m * Nat.pow 2 e.toNat, 1) else (m, Nat.pow 2 (-e).toNat)
  | _ => (0, 1)

/-- The exponent `e` with `10 ^ (e - 1) ≤ num / den < 10 ^ e`, for quotients above `10 ^ -400`. -/
def magnitude (num den : Nat) : Int :=
  ((Nat.toDigits 10 (num * Nat.pow 10 400 / den)).length : Int) - 400

/-- The two neighbours of `num / den` among the multiples of `10 ^ e`, the nearer one first, and
of two equally near the even one first. -/
def neighbours (num den : Nat) (e : Int) : List Nat :=
  let (num, den) :=
    if 0 ≤ e then (num, den * Nat.pow 10 e.toNat) else (num * Nat.pow 10 (-e).toNat, den)
  let low := num / den
  let rest := num % den
  if 2 * rest < den ∨ (2 * rest = den ∧ low % 2 = 0) then [low, low + 1] else [low + 1, low]

/-- The decimal `m * 10 ^ e` with `count` digits that reads back as `x`, if there is one. -/
def withDigits? (x : Float) (count : Nat) : Option (Nat × Int) :=
  let (num, den) := quotient x
  let e := magnitude num den - count
  ((neighbours num den e).find? fun m => scientific m e == x).map (·, e)

/-- The shortest decimal of a positive finite double; seventeen digits always suffice. -/
def shortest (x : Float) : Nat × Int :=
  ((List.range' 1 17).findSome? (withDigits? x)).getD (0, 0)

/-- The digits without the zeros at their end, and how many there were with them. -/
def significant (m : Nat) : List Char × Nat :=
  let digits := Nat.toDigits 10 m
  ((digits.reverse.dropWhile (· == '0')).reverse, digits.length)

/-- Exponents that are written positionally. -/
def isPositional (exponent : Int) : Bool := decide (-4 ≤ exponent ∧ exponent < 16)

/-- Digits with the point after the first `place` of them. -/
def positional (digits : List Char) (place : Int) : List Char :=
  if place ≤ 0 then '0' :: '.' :: (List.replicate (-place).toNat '0' ++ digits)
  else
    let whole := digits.take place.toNat
    let places := digits.drop place.toNat
    whole ++ List.replicate (place.toNat - whole.length) '0' ++
      '.' :: (if places.isEmpty then ['0'] else places)

/-- Digits with the point after the first of them and an exponent of at least two digits. -/
def exponential (digits : List Char) (exponent : Int) : List Char :=
  let sign := if exponent < 0 then '-' else '+'
  let power := Nat.toDigits 10 exponent.natAbs
  let places := if digits.length ≤ 1 then [] else '.' :: digits.drop 1
  digits.take 1 ++ places ++ 'e' :: sign :: (List.replicate (2 - power.length) '0' ++ power)

/-- The written form of a positive finite double. -/
def positiveChars (x : Float) : List Char :=
  let (m, e) := shortest x
  let (digits, count) := significant m
  let place := e + count
  if isPositional (place - 1) then positional digits place else exponential digits (place - 1)

/-- The written form of a double. -/
def chars (x : Float) : List Char :=
  match x.toModel.unpack with
  | .notANumber => ['n', 'a', 'n']
  | .infinity .positive => ['i', 'n', 'f']
  | .infinity .negative => ['-', 'i', 'n', 'f']
  | .zero .positive => ['0', '.', '0']
  | .zero .negative => ['-', '0', '.', '0']
  | .finite .positive .. => positiveChars x
  | .finite .negative .. => '-' :: positiveChars x.abs

/-- The written form of a double as a string. -/
def text (x : Float) : String := String.ofList (chars x)

end TimedQuiz.Shortest
