import TimedQuiz.Table
import TimedQuiz.Timing.Agenda
import TimedQuiz.Timing.Clock

/-!
# Routines of a clock

A routine sets and cancels named alarms, waits, and makes alarms ring out of turn. Every alarm
comes with a routine of its own, which is followed each time it rings.

* `Instruction` — the steps of a routine;
* `Desk` — a clock, the newest alarm of each name, and the ringing heard so far;
* `Desk.perform` — following one instruction.
-/

namespace TimedQuiz

/-- A step of a routine. -/
inductive Instruction where
  /-- An alarm of a name, due after an interval, with its routine. -/
  | set (recurrence : Recurrence) (name : String) (interval : Int) (routine : List Instruction)
  /-- The newest alarm of a name is given up. -/
  | cancel (name : String)
  /-- Time passes. -/
  | wait (milliseconds : Int)
  /-- The newest alarm of a name rings now. -/
  | signal (name : String)

/-- What an alarm is for: its name and its routine. -/
structure Call where
  name : String
  routine : List Instruction

/-- An alarm that was heard, and when. -/
structure Ringing where
  handle : Nat
  name : String
  time : Int
  deriving DecidableEq, Repr

/-- Something to do at the desk. -/
inductive DeskTask where
  | instruction (i : Instruction)
  /-- Time moves on to a moment, alarm by alarm. -/
  | elapse (target : Int)

/-- A clock, the newest alarm of each name, and what was heard, the latest first. -/
structure Desk where
  clock : Clock Call := {}
  names : Table Nat := {}
  heard : List Ringing := []

namespace Desk

/-- Follows the routine of an alarm that was heard, and then goes on with the tasks given. -/
def answer (d : Desk) (handle : Nat) (ringing : Clock Call × Option Call) (next : List DeskTask) :
    Verdict Desk DeskTask Empty :=
  match ringing with
  | (clock, none) => .done { d with clock } next
  | (clock, some call) =>
    let ringing := { handle, name := call.name, time := clock.now }
    .done { d with clock, heard := ringing :: d.heard } (call.routine.map .instruction ++ next)

/-- Does one task. -/
def perform : DeskTask → Desk → Verdict Desk DeskTask Empty
  | .instruction (.set recurrence name interval routine), d =>
    .done { d with
      clock := d.clock.set recurrence interval { name, routine }
      names := d.names.insert name d.clock.nextHandle } []
  | .instruction (.cancel name), d =>
    match d.names.get? name with
    | none => .done d []
    | some handle => .done { d with clock := d.clock.cancel handle } []
  | .instruction (.wait milliseconds), d => .done d [.elapse (d.clock.now + milliseconds)]
  | .instruction (.signal name), d =>
    match d.names.get? name with
    | none => .done d []
    | some handle => d.answer handle (d.clock.signal handle) []
  | .elapse target, d =>
    match d.clock.earliest? target with
    | none => .done { d with clock := { d.clock with now := target } } []
    | some (handle, due) => d.answer handle (d.clock.ring handle due) [.elapse target]

/-- One instruction is to be followed. -/
def follow (d : Desk) (i : Instruction) : Agenda Desk DeskTask Empty :=
  { state := d, tasks := [.instruction i] }

/-- The names with whether their newest alarm is armed, by name. -/
def armedNames (d : Desk) : List (String × Bool) :=
  (d.names.entries.map fun e => (e.1, d.clock.isArmed e.2)).mergeSort fun a b => decide (a.1 ≤ b.1)

end Desk

end TimedQuiz
