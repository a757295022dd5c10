import TimedQuiz.Journal.Entry

/-!
# Events and orders

* `Event` — what happens to a round;
* `Advance` — a move to the next problem that comes due later;
* `TimerOrder` — what a round asks of the timers;
* `Transition` — what an event does.
-/

namespace TimedQuiz

/-- A move past a position once the delay is over, tagged with the round it was ordered for. -/
structure Advance where
  generation : Int
  index : Int
  count : Int
  deriving DecidableEq, Repr

/-- What happens to a round. -/
inductive Event where
  /-- Other problems replace the present ones. -/
  | load (problems : List Problem)
  /-- An answer to the problem with an identity. -/
  | submit (id : Int) (answer : Float)
  /-- An advance comes due. -/
  | advance (order : Advance)
  /-- The round ends, with the problems as they are or as given. -/
  | finish (problems : Option (List Problem))
  /-- The same problems once more. -/
  | retry
  /-- To the problem before. -/
  | back
  /-- To the problem after. -/
  | forward
  /-- A second of a generation has gone by. -/
  | tick (generation : Int)
  /-- Whatever is scheduled shall have no effect. -/
  | teardown

/-- What a round asks of the timers. -/
inductive TimerOrder where
  /-- Deliver the advance after the delay. -/
  | scheduleAdvance (order : Advance)
  /-- Forget all advances not yet delivered. -/
  | cancelAdvances
  /-- Tick for a generation, and for no other. -/
  | startTicker (generation : Int)
  /-- Tick no more. -/
  | stopTicker
  deriving DecidableEq, Repr

/-- What an event does: nothing, or a new round, orders to the timers, and possibly a report to
hand out after they have been carried out. -/
inductive Transition where
  | ignored
  | moved (round : Round) (orders : List TimerOrder) (report : Option Report)
  deriving DecidableEq

end TimedQuiz
