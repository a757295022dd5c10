import TimedQuiz.Datum
import TimedQuiz.Table
import TimedQuiz.Text.Replace

/-!
# Templates

A template holds placeholders, names between double braces.

* `placeholder` — how a name is held;
* `fill` — puts in the parameters one after the other, in their order;
* `interpolate` — the same where each parameter can be written.
-/

namespace TimedQuiz.Template

/-- A name between double braces. -/
def placeholder (name : String) : List Char :=
  '\x7b' :: '\x7b' :: (name.toList ++ ['\x7d', '\x7d'])

/-- Puts one parameter in. -/
def fillOne (template : List Char) (param : String × Datum) : List Char :=
  Text.replaceAll (placeholder param.1) param.2.plain.toList template

/-- Puts all parameters in, each into what the earlier ones have left. -/
def fill (template : String) (params : Table Datum) : String :=
  String.ofList (params.entries.foldl fillOne template.toList)

/-- Puts all parameters in, unless one of them cannot be written. -/
def interpolate (template : String) (params : Table Datum) : Except Number.Unwritable String :=
  if params.entries.all fun param => param.2.isWritable then .ok (fill template params)
  else .error .tooLong

end TimedQuiz.Template
