import TimedQuiz.Journal.Entry
import TimedQuiz.Wording.Catalog

/-!
# Wording

* `Wording` — the text of each message key, or a refusal;
* `Wording.ask` — asks for a text, on record if the wording is traced;
* `Wording.ofCatalog`, `Wording.echo`, `Wording.echoExcept` — the kinds in use.
-/

namespace TimedQuiz

/-- The text of each message key; a refusal comes with its reason. -/
structure Wording where
  say : String → Except String String
  /-- Every question is put on record. -/
  traced : Bool := false

namespace Wording

/-- Asks for the text of a key. -/
def ask (w : Wording) (key : String) : Recorded String where
  entries := if w.traced then [.asked key] else []
  outcome :=
    match w.say key with
    | .ok text => .ok text
    | .error reason => .error (.wording reason)

/-- The messages of a catalog. Nothing is put in, so they are the templates themselves. -/
def ofCatalog (c : Catalog) : Wording where
  say key := .ok (c.template key)

/-- Every key in angle brackets. -/
def echo : Wording where
  say key := .ok ("<" ++ key ++ ">")
  traced := true

/-- Every key in angle brackets but one, which is refused. -/
def echoExcept (missing : String) : Wording where
  say key := if key = missing then .error ("no translation for " ++ key) else echo.say key
  traced := true

end Wording

end TimedQuiz
