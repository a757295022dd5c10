import TimedQuiz.Number.Decimal
import TimedQuiz.Number.Shortest
import TimedQuiz.Text.Quoted

/-!
# Plain data

Values that come from outside the quiz: parameters of messages, and whatever is handed over in
place of an event.

* `Datum` — the values;
* `Datum.isWritable` — the values whose integers have a decimal text;
* `Datum.literal` — the form that names such a value, with texts quoted;
* `Datum.plain` — the form shown in a message, a text as it is.
-/

namespace TimedQuiz

/-- A value from outside. -/
inductive Datum where
  | none
  | flag (b : Bool)
  | integer (n : Int)
  | real (x : Float)
  | text (s : String)
  | list (xs : List Datum)
  | record (fields : List (String × Datum))

namespace Datum

/-- Parts with a comma between them. -/
def commaSeparated (parts : List String) : String := ", ".intercalate parts

mutual

/-- No integer in the value has more digits than an integer may have. -/
def isWritable : Datum → Bool
  | .integer n => Number.isWritable n
  | .list xs => areWritable xs
  | .record fields => areWritableFields fields
  | _ => true

/-- The members of a list can be written. -/
def areWritable : List Datum → Bool
  | [] => true
  | x :: xs => x.isWritable && areWritable xs

/-- The fields of a record can be written. -/
def areWritableFields : List (String × Datum) → Bool
  | [] => true
  | (_, x) :: fields => x.isWritable && areWritableFields fields

end

mutual

/-- The form that names the value, if it can be written. -/
def literal : Datum → String
  | .none => "None"
  | .flag true => "True"
  | .flag false => "False"
  | .integer n => toString n
  | .real x => Shortest.text x
  | .text s => Text.quote s
  | .list xs => "[" ++ commaSeparated (literals xs) ++ "]"
  | .record fields => "\x7b" ++ commaSeparated (fieldLiterals fields) ++ "\x7d"

/-- The forms of the members of a list. -/
def literals : List Datum → List String
  | [] => []
  | x :: xs => x.literal :: literals xs

/-- The forms of the fields of a record. -/
def fieldLiterals : List (String × Datum) → List String
  | [] => []
  | (name, x) :: fields => (Text.quote name ++ ": " ++ x.literal) :: fieldLiterals fields

end

/-- The form shown in a message, if the value can be written. -/
def plain : Datum → String
  | .text s => s
  | d => d.literal

end Datum

end TimedQuiz
