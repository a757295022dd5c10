import TimedQuiz.Sitting.Perform

/-!
# Runs of a sitting

* `Sitting.Completes` — one move is made, and all that it calls for is done;
* `Sitting.Conducts` — moves one after the other, with what each leaves behind;
* `Sitting.Reachable` — the agendas that a sitting goes through, with all that came before them;
* `accepted`, `lastAccepted` — the lists of problems that a sitting took on the way.

Between two moves any alarm may ring, due or not: `Reachable` leaves the order of the alarms open,
while `Conducts` keeps to the clock.
-/

namespace TimedQuiz

/-- The client does not give up. -/
def Move.Calm : Move → Prop
  | .giveUp _ => False
  | _ => True

namespace Sitting

variable (setup : Setup)

/-- A move is made and all that it calls for is done; the fault is the one that broke it off. -/
def Completes (s : Sitting) (m : Move) (t : Sitting) (fault : Option Fault) : Prop :=
  ∃ n, (s.start m).run (perform setup) n = { state := t, tasks := [], fault }

/-- Moves are made one after the other; with the sitting and the fault after each. -/
inductive Conducts : Sitting → List Move → List (Sitting × Option Fault) → Prop
  | nil {s : Sitting} : Conducts s [] []
  | cons {s t : Sitting} {m : Move} {fault : Option Fault} {moves : List Move}
      {outcomes : List (Sitting × Option Fault)} : Completes setup s m t fault →
      Conducts t moves outcomes → Conducts s (m :: moves) ((t, fault) :: outcomes)

/-- The agendas that a sitting goes through from its opening, with the earlier ones, the latest
first. A calm move is made, or an alarm rings, when nothing is under way. -/
inductive Reachable (opening : Sitting) :
    List (Agenda Sitting Task Fault) → Agenda Sitting Task Fault → Prop
  | start : Reachable opening [] { state := opening, tasks := [] }
  | call {past : List (Agenda Sitting Task Fault)} {a : Agenda Sitting Task Fault} {m : Move} :
      Reachable opening past a → a.tasks = [] → m.Calm →
      Reachable opening (a :: past) (a.state.start m)
  | ring {past : List (Agenda Sitting Task Fault)} {a : Agenda Sitting Task Fault} (handle : Nat) :
      Reachable opening past a → a.tasks = [] →
      Reachable opening (a :: past) { state := a.state, tasks := [.ring handle] }
  | step {past : List (Agenda Sitting Task Fault)} {a : Agenda Sitting Task Fault} :
      Reachable opening past a → Reachable opening (a :: past) (a.step (perform setup))

/-- The list of problems that the sitting is about to take: one handed in before the end of the
sitting, other than the one handed in last. A copy is never the one handed in last. -/
def accepted (a : Agenda Sitting Task Fault) : Option (List Problem) :=
  match a.tasks with
  | .move (.present name copied) :: _ =>
    if a.state.disposed ∨ (copied = false ∧ a.state.source = some (.sheet name)) then none
    else some (a.state.sheet name)
  | _ => none

/-- The list of problems that the sitting took last, none before the first. -/
def lastAccepted (past : List (Agenda Sitting Task Fault)) : List Problem :=
  (past.findSome? accepted).getD []

end Sitting

end TimedQuiz
