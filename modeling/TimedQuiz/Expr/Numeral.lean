/-!
# Numerals of arithmetic expressions

A numeral is a run of ASCII digits, then possibly a point and more digits: `12`, `12.`, `12.50`.

* `Numeral` — the numerals, by their digits;
* `Numeral.chars` — the written form;
* `Numeral.value` — the nearest double.
-/

namespace TimedQuiz.Expr

/-- A decimal digit. -/
abbrev Digit := Fin 10

/-- The ASCII character of a digit. -/
def Digit.char (d : Digit) : Char := Nat.digitChar d

/-- The digit of an ASCII character. -/
def Digit.ofChar? (c : Char) : Option Digit :=
  if c.isDigit then some (Fin.ofNat 10 (c.toNat - 48)) else none

theorem Digit.ofChar?_char (d : Digit) : Digit.ofChar? d.char = some d := by
  revert d; decide

/-- A numeral; `fraction` is `none` without a point, and may be empty with one. -/
structure Numeral where
  first : Digit
  more : List Digit := []
  fraction : Option (List Digit) := none
  deriving DecidableEq, Repr

namespace Numeral

/-- The written form. -/
def chars (n : Numeral) : List Char :=
  (n.first :: n.more).map Digit.char ++
    match n.fraction with
    | none => []
    | some ds => '.' :: ds.map Digit.char

/-- One more digit at the end. -/
def snoc (n : Numeral) (d : Digit) : Numeral :=
  match n.fraction with
  | none => { n with more := n.more ++ [d] }
  | some ds => { n with fraction := some (ds ++ [d]) }

theorem chars_snoc (n : Numeral) (d : Digit) : (n.snoc d).chars = n.chars ++ [d.char] := by
  obtain ⟨first, more, _ | ds⟩ := n <;> simp [snoc, chars]

/-- The number that a run of digits denotes. -/
def ofDigits (ds : List Digit) : Nat := ds.foldl (fun n d => 10 * n + d.val) 0

/-- The double nearest to the numeral, a tie going to the even significand. -/
def value (n : Numeral) : Float :=
  let places := n.fraction.getD []
  Float.ofScientific (ofDigits (n.first :: n.more ++ places)) true places.length

end Numeral

end TimedQuiz.Expr
