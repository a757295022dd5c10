import TimedQuiz.Journal.Severity
import TimedQuiz.Text.Quoted

/-!
# Which notices are kept

A log keeps the notices whose severity reaches its threshold; a log without a threshold of its own
takes that of the root log.

* `LevelChoice` — a threshold by number or by name;
* `RootLog.prepare` — a root log that has no outlet yet gets one, and the threshold;
* `configure` — the log of the quiz with a threshold.
-/

namespace TimedQuiz

/-- A threshold, by number or by name. -/
inductive LevelChoice where
  | number (n : Int)
  | named (name : String)
  deriving DecidableEq, Repr

/-- The name of no level. -/
structure UnknownLevel where
  name : String
  deriving DecidableEq, Repr

/-- The wording. -/
def UnknownLevel.message (u : UnknownLevel) : String := "Unknown level: " ++ Text.quote u.name

/-- The level names. -/
def levelNames : List (String × Int) :=
  Severity.all.map (fun s => (s.name, s.level)) ++ [("FATAL", 50), ("WARN", 30), ("NOTSET", 0)]

/-- The number of a level. -/
def LevelChoice.level : LevelChoice → Except UnknownLevel Int
  | .number n => .ok n
  | .named name =>
    match levelNames.find? fun l => l.1 == name with
    | some l => .ok l.2
    | none => .error ⟨name⟩

/-- The log that all others end in: its threshold and the line formats of its outlets. -/
structure RootLog where
  level : Int := 30
  formats : List (Option String) := []
  deriving DecidableEq, Repr

/-- The lines of the quiz's log. -/
def lineFormat : String := "%(asctime)s | %(levelname)s | %(name)s | %(message)s"

/-- A root log without outlets gets one, and the threshold; any other stays as it is. -/
def RootLog.prepare (root : RootLog) (level : Int) : RootLog :=
  if root.formats.isEmpty then { level := level, formats := [some lineFormat] } else root

/-- The log of the quiz. -/
structure QuizLog where
  name : String := "mathquiz"
  level : Int
  root : RootLog
  deriving DecidableEq, Repr

namespace QuizLog

/-- The threshold in force; zero counts as none. -/
def threshold (log : QuizLog) : Int := if log.level = 0 then log.root.level else log.level

/-- Notices of the severity are kept. -/
def keeps (log : QuizLog) (severity : Severity) : Bool := decide (log.threshold ≤ severity.level)

/-- The log of the quiz with a threshold. -/
def configure (root : RootLog) (choice : LevelChoice) : Except UnknownLevel QuizLog := do
  let level ← choice.level
  return { level := level, root := root.prepare level }

end QuizLog

end TimedQuiz
