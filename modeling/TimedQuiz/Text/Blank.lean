import TimedQuiz.Text.CodePoints

/-!
# Blank characters

One notion of white space serves display text and settings alike: the Unicode spaces and line ends,
and the control characters that separate fields.

* `isBlank` — the blank characters;
* `removeBlanks` — a text without any of them;
* `trim` — a text without those at its two ends.
-/

namespace TimedQuiz.Text

/-- The blank code points. -/
def blankRanges : List (Nat × Nat) :=
  [(0x09, 0x0D), (0x1C, 0x20), (0x85, 0x85), (0xA0, 0xA0), (0x1680, 0x1680), (0x2000, 0x200A),
   (0x2028, 0x2029), (0x202F, 0x202F), (0x205F, 0x205F), (0x3000, 0x3000)]

/-- A blank character. -/
def isBlank (c : Char) : Bool := inRanges blankRanges c

/-- Every blank is dropped, wherever it stands. -/
def removeBlanks (s : List Char) : List Char := s.filter fun c => !isBlank c

/-- Blanks at the end are dropped. -/
def trimEnd (s : List Char) : List Char := (s.reverse.dropWhile isBlank).reverse

/-- Blanks at both ends are dropped. -/
def trim (s : List Char) : List Char := trimEnd (s.dropWhile isBlank)

end TimedQuiz.Text
