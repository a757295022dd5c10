import TimedQuiz.Text.Blank

/-!
# The text of a problem and its expression

A problem shows its operators as glyphs and may end in an answer marker: an equals sign, possibly
followed by a question mark, with blanks anywhere around them.

* `withoutMarker` — a text without the marker at its end;
* `plainOperator` — the operator that a glyph shows;
* `expressionOf` — the arithmetic expression of a text.
-/

namespace TimedQuiz.Problem

open Text

/-- The text before the marker at the end, without the blanks there; the whole text if it has no
marker. -/
def withoutMarker (s : List Char) : List Char :=
  let ending := s.reverse.dropWhile isBlank
  let ending := if ending.head? = some '?' then ending.tail else ending
  match ending.dropWhile isBlank with
  | '=' :: before => (before.dropWhile isBlank).reverse
  | _ => s

/-- The operator that a glyph shows; any other character shows itself. -/
def plainOperator : Char → Char
  | '×' => '*'
  | '✖' => '*'
  | '÷' => '/'
  | '➗' => '/'
  | c => c

/-- The arithmetic expression of a text. -/
def expressionOf (s : List Char) : List Char := (withoutMarker s).map plainOperator

end TimedQuiz.Problem
