import TimedQuiz.Datum
import TimedQuiz.Journal.Notice
import TimedQuiz.Round.Basic

/-!
# The journal

* `Entry` — what is put on record while a quiz runs;
* `Fault` — why an action breaks off;
* `Recorded` — a computation that puts entries on record and yields a value or a fault; the
  entries made before a fault stay.
-/

namespace TimedQuiz

/-- Something put on record. -/
inductive Entry where
  /-- A notice for the operator. -/
  | notice (n : Notice)
  /-- The wording of a message was asked for. -/
  | asked (key : String)
  /-- The report was given to the listener for results. -/
  | result (report : Report)
  /-- The round was shown to the listener for changes. -/
  | shown (round : Round)
  deriving DecidableEq

/-- Why an action breaks off. -/
inductive Fault where
  /-- There is no score. -/
  | scoring (cause : ScoreFault)
  /-- A message has no wording. -/
  | wording (message : String)
  /-- A listener gave up. -/
  | listener (message : String)
  /-- What came is not an event. -/
  | notAnEvent (value : Datum)
  /-- What came is not an event, and cannot be named either. -/
  | unwritable (cause : Number.Unwritable)

/-- The wording of each cause. -/
def Fault.message : Fault → String
  | .scoring cause => cause.message
  | .wording message => message
  | .listener message => message
  | .notAnEvent value => "Unsupported quiz event: " ++ value.literal
  | .unwritable cause => cause.message

/-- Entries in the order in which they were made, and a value or a fault. -/
structure Recorded (α : Type) where
  entries : List Entry := []
  outcome : Except Fault α

namespace Recorded

variable {α β : Type}

/-- A fault. -/
def fail (f : Fault) : Recorded α := { outcome := .error f }

/-- Goes on with the value, if there is one. -/
def andThen (x : Recorded α) (f : α → Recorded β) : Recorded β :=
  match x.outcome with
  | .ok a => { entries := x.entries ++ (f a).entries, outcome := (f a).outcome }
  | .error fault => { entries := x.entries, outcome := .error fault }

instance : Monad Recorded where
  pure a := { outcome := .ok a }
  bind := andThen

end Recorded

end TimedQuiz
