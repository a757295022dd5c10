import TimedQuiz.Sitting.Basic
import TimedQuiz.Timing.Agenda

/-!
# Conducting a sitting

Most tasks bring an event to the round. What the event does is worked out first, and the wording
may be asked for it; then the event moves the round, the timers are set right, the result is handed
out, and last the listener for changes is shown the round, as it is by then. What a listener or the
wording does inside its call is done before the event goes on. A fault ends all that is under way;
what was done before it stays.

* `Sitting.make`, `Sitting.elapse` — what a move, and time, bring to the round;
* `Sitting.react`, `Sitting.conclude` — an event reaches the round, and takes effect;
* `Sitting.perform` — any task.
-/

namespace TimedQuiz

/-- Something to do in a sitting. -/
inductive Task where
  | move (m : Move)
  /-- The listener for changes is shown the round. -/
  | announce
  /-- The sitting ends for good. -/
  | retire
  /-- Time moves on to a moment, alarm by alarm. -/
  | elapse (target : Int)
  /-- An alarm rings out of turn. -/
  | ring (handle : Nat)
  /-- An event takes effect, once the entries that it still has to make are made. -/
  | conclude (outcome : Except Fault Transition) (entries : List Entry)

/-- What a task comes to: an event for the round, with the sitting that it finds and the tasks that
follow, or the rest of an event, or something that leaves the round alone. -/
inductive Intake where
  | event (s : Sitting) (e : Event) (after : List Task)
  | rest (s : Sitting) (outcome : Except Fault Transition) (entries : List Entry)
  | aside (s : Sitting) (after : List Task)
  | failed (s : Sitting) (fault : Fault)

namespace Sitting

variable (setup : Setup)

/-- The result goes to its listener, which acts, after a notice. -/
def handOut (s : Sitting) (report : Report) : Sitting × List Task :=
  let s := s.record [.notice (.completed report.correct report.total report.score report.grade)]
  if setup.tellsResults then
    ({ s.record [.result report] with onResult := s.onResult.tail },
      (s.onResult.head?.getD []).map .move)
  else (s, [])

/-- The listener for changes is shown the round, and acts. -/
def announce (s : Sitting) : Sitting × List Task :=
  ({ s.record [.shown s.round] with onChange := s.onChange.tail },
    (s.onChange.head?.getD []).map .move)

/-- A moved round takes its place, its orders are carried out, and its report is handed out. -/
def settle (s : Sitting) (round : Round) (orders : List TimerOrder) (report : Option Report) :
    Sitting × List Task :=
  let s := orders.foldl (carryOut setup) { s with round }
  match report with
  | none => (s, [])
  | some report => s.handOut setup report

/-- What an event comes to takes effect. -/
def effect (s : Sitting) : Except Fault Transition → Verdict Sitting Task Fault
  | .error fault => .failed s fault
  | .ok .ignored => .done s []
  | .ok (.moved round orders report) =>
    let settled := s.settle setup round orders report
    .done settled.1 (settled.2 ++ if setup.tellsChanges then [.announce] else [])

/-- The entries of an event go on record, and then it takes effect. The wording acts after each
question, and the event goes on when that is done. -/
def conclude (outcome : Except Fault Transition) :
    List Entry → Sitting → Verdict Sitting Task Fault
  | [], s => s.effect setup outcome
  | entry :: entries, s =>
    let s := s.record [entry]
    match entry, s.onWording with
    | .asked _, moves :: later =>
      .done { s with onWording := later } (moves.map .move ++ [.conclude outcome entries])
    | _, _ => conclude outcome entries s

/-- An event reaches the round, unless the sitting is over. -/
def react (s : Sitting) (event : Event) : Verdict Sitting Task Fault :=
  if s.disposed then .done s []
  else
    let reply := s.round.next setup.rules setup.wording event
    s.conclude setup reply.outcome reply.entries

/-- A list of problems is handed in; the one handed in last is not taken again. -/
def present (s : Sitting) (source : Source) (problems : List Problem) : Intake :=
  if s.disposed ∨ s.source = some source then .aside s []
  else .event { s with source := some source } (.load problems) []

/-- A client makes a move. -/
def make (s : Sitting) : Move → Intake
  | .present name false => s.present (.sheet name) (s.sheet name)
  | .present name true =>
    { s with copies := s.copies + 1 }.present (.copy s.copies) (s.sheet name)
  | .extend name problem =>
    .aside { s with sheets := s.sheets.insert name (s.sheet name ++ [problem]) } []
  | .submit id answer => if s.enabled then .event s (.submit id answer) [] else .aside s []
  | .back => .event s .back []
  | .forward => .event s .forward []
  | .finish => .event s (.finish none) []
  | .retry => .event s .retry []
  | .dispose => if s.disposed then .aside s [] else .event s .teardown [.retire]
  | .enable value => .aside { s with enabled := value } []
  | .wait milliseconds => .aside s [.elapse (s.clock.now + milliseconds)]
  | .giveUp message => .failed s (.listener message)

/-- An alarm is heard; one set for an earlier generation is dropped. -/
def deliver (s : Sitting) (after : List Task) : Purpose → Intake
  | .advance number order =>
    let s := { s with pending := s.pending.filter fun p => p.1 != number }
    if order.generation ≠ s.round.generation then
      .aside (s.record [.notice (.staleAdvance order.generation)]) after
    else .event s (.advance order) after
  | .tick generation =>
    if generation ≠ s.round.generation then
      .aside (s.record [.notice (.staleTick generation)]) after
    else .event s (.tick generation) after

/-- A clock with what was heard of an alarm on it takes the place of the one there was. -/
def hear (s : Sitting) (after : List Task) : Clock Purpose × Option Purpose → Intake
  | (clock, none) => .aside { s with clock } after
  | (clock, some purpose) => { s with clock }.deliver after purpose

/-- Time moves on to the next alarm that is due by the target, or else to the target. -/
def elapse (s : Sitting) (target : Int) : Intake :=
  match s.clock.earliest? target with
  | none => .aside { s with clock := { s.clock with now := target } } []
  | some (handle, due) => s.hear [.elapse target] (s.clock.ring handle due)

/-- What a task comes to. -/
def intake (s : Sitting) : Task → Intake
  | .move m => s.make m
  | .announce => .aside s.announce.1 s.announce.2
  | .retire => .aside { s with disposed := true } []
  | .elapse target => s.elapse target
  | .ring handle => s.hear [] (s.clock.signal handle)
  | .conclude outcome entries => .rest s outcome entries

/-- What comes of it in the end. -/
def pursue : Intake → Verdict Sitting Task Fault
  | .event s event after => (s.react setup event).andThen after
  | .rest s outcome entries => s.conclude setup outcome entries
  | .aside s after => .done s after
  | .failed s fault => .failed s fault

/-- Does one task. -/
def perform (task : Task) (s : Sitting) : Verdict Sitting Task Fault :=
  pursue setup (s.intake task)

/-- One move is to be made. -/
def start (s : Sitting) (m : Move) : Agenda Sitting Task Fault := { state := s, tasks := [.move m] }

end Sitting

end TimedQuiz
