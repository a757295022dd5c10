import TimedQuiz.Round.Transition
import TimedQuiz.Table
import TimedQuiz.Timing.Clock

/-!
# Sittings

A sitting is a quiz under way: a round, the alarms that drive it, the sheets of problems its
client holds, and two listeners, one for results and one for changes. A listener may act on the
sitting from inside its call, and so may a traced wording whenever it is asked; what each will do
in its first call, its second call and so on is part of the sitting.

* `Move` — what a client does;
* `Setup` — what stays the same during a sitting;
* `Sitting` — all that changes;
* `Sitting.opening` — a sitting in which nothing has happened yet.
-/

namespace TimedQuiz

/-- A move of a client. -/
inductive Move where
  /-- Hands in a sheet, or a copy of it. -/
  | present (sheet : String) (copied : Bool)
  /-- Adds a problem to a sheet, which the sitting does not notice. -/
  | extend (sheet : String) (problem : Problem)
  | submit (id : Int) (answer : Float)
  | back
  | forward
  | finish
  | retry
  | dispose
  | enable (value : Bool)
  /-- Lets time pass. -/
  | wait (milliseconds : Int)
  /-- Gives up, which ends everything under way. -/
  | giveUp (message : String)

/-- What an alarm of a sitting is for. -/
inductive Purpose where
  | advance (number : Nat) (order : Advance)
  | tick (generation : Int)
  deriving DecidableEq, Repr

/-- The identity of a list of problems: a sheet, or one of the copies made. -/
inductive Source where
  | sheet (name : String)
  | copy (serial : Nat)
  deriving DecidableEq, Repr

/-- What stays the same during a sitting. -/
structure Setup where
  rules : HouseRules := {}
  wording : Wording := .ofCatalog .builtIn
  /-- Alarms that are cancelled do not ring. -/
  honoursCancel : Bool := true
  /-- There is a listener for results. -/
  tellsResults : Bool := true
  /-- There is a listener for changes. -/
  tellsChanges : Bool := true

/-- A quiz under way. -/
structure Sitting where
  round : Round := {}
  /-- What was handed in last. -/
  source : Option Source := none
  /-- Answers are taken. -/
  enabled : Bool := true
  /-- Nothing has an effect any more. -/
  disposed : Bool := false
  /-- The alarms of the advances not yet delivered, by the number of the advance. -/
  pending : List (Nat × Nat) := []
  nextAdvance : Nat := 0
  /-- The alarm that ticks. -/
  ticker : Option Nat := none
  clock : Clock Purpose := {}
  sheets : Table (List Problem) := {}
  copies : Nat := 0
  /-- What the listener for results will do, call by call. -/
  onResult : List (List Move) := []
  /-- What the listener for changes will do, call by call. -/
  onChange : List (List Move) := []
  /-- What a traced wording will do, question by question. -/
  onWording : List (List Move) := []
  /-- What was put on record, the latest first. -/
  journal : List Entry := []

namespace Sitting

/-- A sitting in which nothing has happened yet: the sheets of its client, and what the listeners
and the wording will do. Without a script of its own the wording does not act on the sitting. -/
def opening (sheets : Table (List Problem)) (onResult onChange : List (List Move))
    (onWording : List (List Move) := []) : Sitting :=
  { sheets, onResult, onChange, onWording }

variable (setup : Setup)

/-- Puts entries on record, in their order. -/
def record (s : Sitting) (entries : List Entry) : Sitting :=
  { s with journal := entries.reverse ++ s.journal }

/-- The problems on a sheet. -/
def sheet (s : Sitting) (name : String) : List Problem := (s.sheets.get? name).getD []

/-- Gives an alarm up, which has no effect if the alarms do not honour it. -/
def cancelAlarm (clock : Clock Purpose) (handle : Nat) : Clock Purpose :=
  if setup.honoursCancel then clock.cancel handle else clock

/-- The advances not yet delivered are given up. -/
def cancelAdvances (s : Sitting) : Sitting :=
  { s with
    clock := s.pending.foldl (fun clock p => cancelAlarm setup clock p.2) s.clock
    pending := [] }

/-- The ticking alarm is given up. -/
def stopTicker (s : Sitting) : Sitting :=
  match s.ticker with
  | none => s
  | some handle => { s with clock := cancelAlarm setup s.clock handle, ticker := none }

/-- A ticking alarm is set in place of the one there was. -/
def startTicker (s : Sitting) (generation : Int) : Sitting :=
  let s := s.stopTicker setup
  { s with
    clock := s.clock.set .repeating setup.rules.tickInterval (.tick generation)
    ticker := some s.clock.nextHandle }

/-- An alarm is set for an advance. -/
def scheduleAdvance (s : Sitting) (order : Advance) : Sitting :=
  { s with
    clock := s.clock.set .once setup.rules.advanceDelay (.advance s.nextAdvance order)
    pending := s.pending ++ [(s.nextAdvance, s.clock.nextHandle)]
    nextAdvance := s.nextAdvance + 1 }

/-- Carries out what a round asks of the timers. -/
def carryOut (s : Sitting) : TimerOrder → Sitting
  | .scheduleAdvance order => s.scheduleAdvance setup order
  | .cancelAdvances => s.cancelAdvances setup
  | .startTicker generation => s.startTicker setup generation
  | .stopTicker => s.stopTicker setup

end Sitting

end TimedQuiz
