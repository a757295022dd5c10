import TimedQuiz.HouseRules
import TimedQuiz.Problem.Resolution
import TimedQuiz.Round.Event
import TimedQuiz.Scoring.Assessment

/-!
# The transitions of a round

* `Round.load`, `Round.submit`, … — one transition per kind of event;
* `Round.next` — the transition of any event;
* `Round.receive` — the same for whatever comes in place of an event.

Events that make no sense in the present stage are ignored.
-/

namespace TimedQuiz

/-- Only a round of the given stage is moved. -/
def Transition.during (stage : Phase) (r : Round) (t : Transition) : Transition :=
  if r.phase = stage then t else .ignored

namespace Round

variable (rules : HouseRules) (wording : Wording) (r : Round)

/-- The orders that end whatever runs for the present round. -/
def stopAll : List TimerOrder := [.cancelAdvances, .stopTicker]

/-- Fresh problems under a new generation; the clock ticks if there are any. -/
def load (problems : List Problem) : Recorded Transition where
  entries := (Problem.notices problems).map .notice
  outcome :=
    let generation := r.generation + 1
    .ok (.moved { problems := problems.map Problem.resolved, generation }
      (stopAll ++ if problems.isEmpty then [] else [.startTicker generation]) none)

/-- Gives the first problem with the identity an answer. -/
def answerFirst (id : Int) (answer tolerance : Float) : List Problem → List Problem
  | [] => []
  | p :: ps =>
    if p.id = id then p.withAnswer answer tolerance :: ps
    else p :: answerFirst id answer tolerance ps

/-- An answer to the first problem with the identity, unless that one has its answer already. -/
def submit (id : Int) (answer : Float) : Transition :=
  match r.problems.find? fun p => decide (p.id = id) with
  | none => .ignored
  | some p =>
    if p.isAnswered then .ignored
    else
      .moved { r with problems := answerFirst id answer rules.tolerance r.problems }
        [.scheduleAdvance { generation := r.generation, index := r.index, count := r.size }] none

/-- The end of the round, with the given problems; without any problem there is nothing to end. -/
def finishWith (problems : List Problem) : Recorded Transition :=
  if r.phase ≠ .active ∨ problems.isEmpty then pure .ignored
  else do
    let report ← assess wording problems
    return .moved { r with problems, completed := true, result := some report } stopAll (some report)

/-- An advance of this generation: past the last problem the round ends, before it the next one
shows. -/
def advance (order : Advance) : Recorded Transition :=
  if order.generation ≠ r.generation ∨ r.phase ≠ .active then pure .ignored
  else if order.count - 1 ≤ order.index then r.finishWith wording r.problems
  else pure (.moved { r with index := min (order.index + 1) r.lastIndex } [] none)

/-- The same problems once more, without their answers, under a new generation. -/
def retry : Transition :=
  let generation := r.generation + 1
  .moved { problems := r.problems.map Problem.withoutAnswer, generation }
    (stopAll ++ [.startTicker generation]) none

/-- The problem before, except at the first. -/
def back : Transition :=
  if r.index = 0 then .ignored else .moved { r with index := r.index - 1 } [] none

/-- The problem after, except at the last. -/
def forward : Transition :=
  if r.lastIndex ≤ r.index then .ignored else .moved { r with index := r.index + 1 } [] none

/-- One more second, if it is one of this generation. -/
def tick (generation : Int) : Transition :=
  if generation ≠ r.generation then .ignored else .moved { r with elapsed := r.elapsed + 1 } [] none

/-- A new generation, so that nothing scheduled has an effect; all else stays. -/
def teardown : Transition := .moved { r with generation := r.generation + 1 } stopAll none

/-- What an event does. -/
def next : Event → Recorded Transition
  | .load problems => r.load problems
  | .submit id answer => pure (.during .active r (r.submit rules id answer))
  | .advance order => r.advance wording order
  | .finish problems => r.finishWith wording (problems.getD r.problems)
  | .retry => pure (.during .completed r r.retry)
  | .back => pure (.during .active r r.back)
  | .forward => pure (.during .active r r.forward)
  | .tick generation => pure (.during .active r (r.tick generation))
  | .teardown => pure r.teardown

/-- What an event does; anything else is refused. -/
def receive : Event ⊕ Datum → Recorded Transition
  | .inl event => r.next rules wording event
  | .inr value =>
    .fail (if value.isWritable then .notAnEvent value else .unwritable .tooLong)

end Round

end TimedQuiz
