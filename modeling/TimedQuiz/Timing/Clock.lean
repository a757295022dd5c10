/-!
# Alarms on a virtual clock

Time stands still unless it is moved. An alarm is due an interval after it was set, and a
repeating one an interval after it was last due. The clock stops and restarts alarms; whoever set
one holds it armed or has released it, and an alarm that is no longer armed rings unheard.

* `Clock.set`, `Clock.cancel` — setting an alarm and giving it up;
* `Clock.signal` — an alarm rings;
* `Clock.earliest?` — the alarm that rings next;
* `Clock.ring` — time moves on to that alarm and it rings.

Alarms are never taken off the clock, so the position of an alarm identifies it for good.
-/

namespace TimedQuiz

variable {α : Type}

/-- How often an alarm rings. -/
inductive Recurrence where
  | once
  | repeating
  deriving DecidableEq, Repr

/-- An alarm, with what it is for. -/
structure Alarm (α : Type) where
  recurrence : Recurrence
  interval : Int
  due : Int
  /-- The clock watches the alarm. -/
  running : Bool := true
  /-- Its holder still listens. -/
  armed : Bool := true
  /-- How often its holder has given it up. -/
  releases : Nat := 0
  payload : α
  deriving DecidableEq, Repr

namespace Alarm

/-- The holder stops the alarm and gives it up. -/
def release (a : Alarm α) : Alarm α :=
  { a with running := false, armed := false, releases := a.releases + 1 }

/-- The holder gives the alarm up unless that has happened before. -/
def cancel (a : Alarm α) : Alarm α := if a.armed then a.release else a

/-- The alarm rings: one that rings once is given up. -/
def signal (a : Alarm α) : Alarm α :=
  match a.recurrence with
  | .once => a.cancel
  | .repeating => a

/-- What the holder hears of the ringing. -/
def heard (a : Alarm α) : Option α := if a.armed then some a.payload else none

/-- The due time is reached: an alarm that rings once stops, another is due again an interval
later. -/
def elapse (a : Alarm α) : Alarm α :=
  match a.recurrence with
  | .once => { a with running := false }
  | .repeating => { a with due := a.due + a.interval }

end Alarm

/-- A virtual clock in milliseconds and its alarms, in the order in which they were set. -/
structure Clock (α : Type) where
  now : Int := 0
  alarms : List (Alarm α) := []

namespace Clock

/-- The position that the next alarm will have. -/
def nextHandle (c : Clock α) : Nat := c.alarms.length

/-- Sets an alarm. -/
def set (c : Clock α) (recurrence : Recurrence) (interval : Int) (payload : α) : Clock α :=
  { c with alarms := c.alarms ++ [{ recurrence, interval, due := c.now + interval, payload }] }

/-- Gives an alarm up. -/
def cancel (c : Clock α) (handle : Nat) : Clock α :=
  { c with alarms := c.alarms.modify handle Alarm.cancel }

/-- An alarm rings; with what its holder hears. -/
def signal (c : Clock α) (handle : Nat) : Clock α × Option α :=
  ({ c with alarms := c.alarms.modify handle Alarm.signal }, c.alarms[handle]?.bind Alarm.heard)

/-- Of the running alarms due by the target, position and due time of the one that is due first,
and of several the one set first. -/
def earliestOf (target : Int) : List (Alarm α) → Option (Nat × Int)
  | [] => none
  | a :: as =>
    let isDue := a.running && decide (a.due ≤ target)
    match earliestOf target as with
    | none => if isDue then some (0, a.due) else none
    | some (i, due) => if isDue && decide (a.due ≤ due) then some (0, a.due) else some (i + 1, due)

/-- The alarm that rings next on the way to the target. -/
def earliest? (c : Clock α) (target : Int) : Option (Nat × Int) := earliestOf target c.alarms

/-- Time moves on to an alarm's due time and the alarm rings. -/
def ring (c : Clock α) (handle : Nat) (due : Int) : Clock α × Option α :=
  signal { now := due, alarms := c.alarms.modify handle Alarm.elapse } handle

/-- The running alarms, in the order in which they were set. -/
def running (c : Clock α) : List (Alarm α) := c.alarms.filter (·.running)

/-- The holder of an alarm still listens. -/
def isArmed (c : Clock α) (handle : Nat) : Bool := c.alarms[handle]?.any (·.armed)

end Clock

end TimedQuiz
