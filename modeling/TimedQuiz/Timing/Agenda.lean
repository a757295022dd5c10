/-!
# Agendas

Work that may call for more work before it is over. The tasks still to do stand in a list; doing
the first of them changes the state and may put further tasks before all others, or fail, and then
nothing more is done.

* `Verdict` — what doing one task comes to;
* `Agenda` — a state and what is left to do;
* `Verdict.agenda` — what is left to do after a verdict;
* `Agenda.step`, `Agenda.run` — doing one task, and up to a number of them;
* `Agenda.Reaches` — what is reached by doing some of them.
-/

namespace TimedQuiz

variable {σ τ ε : Type}

/-- What doing one task comes to: a state and tasks to do first, or a state and a fault. -/
inductive Verdict (σ τ ε : Type) where
  | done (state : σ) (first : List τ)
  | failed (state : σ) (fault : ε)

/-- Further tasks after those of the verdict. -/
def Verdict.andThen : Verdict σ τ ε → List τ → Verdict σ τ ε
  | .done state first, tasks => .done state (first ++ tasks)
  | .failed state fault, _ => .failed state fault

@[simp] theorem Verdict.andThen_nil (v : Verdict σ τ ε) : v.andThen [] = v := by
  cases v <;> simp [andThen]

/-- A state, the tasks left, and the fault that ended the work, if one did. -/
structure Agenda (σ τ ε : Type) where
  state : σ
  tasks : List τ
  fault : Option ε := none

/-- The tasks of the verdict come before those that were left; a fault drops them all. -/
def Verdict.agenda (rest : List τ) : Verdict σ τ ε → Agenda σ τ ε
  | .done state first => { state, tasks := first ++ rest }
  | .failed state fault => { state, tasks := [], fault := some fault }

namespace Agenda

variable (perform : τ → σ → Verdict σ τ ε)

/-- Nothing is left to do. -/
def isOver (a : Agenda σ τ ε) : Bool := a.tasks.isEmpty

/-- The first task is done. -/
def step (a : Agenda σ τ ε) : Agenda σ τ ε :=
  match a.tasks with
  | [] => a
  | task :: rest => (perform task a.state).agenda rest

/-- Tasks are done until none is left, but no more than a given number. -/
def run : Nat → Agenda σ τ ε → Agenda σ τ ε
  | 0, a => a
  | n + 1, a => if a.isOver then a else run n (a.step perform)

/-- What is reached by doing some of the tasks. -/
inductive Reaches (a : Agenda σ τ ε) : Agenda σ τ ε → Prop
  | start : Reaches a a
  | step {b : Agenda σ τ ε} : Reaches a b → Reaches a (b.step perform)

theorem run_reaches (n : Nat) (a : Agenda σ τ ε) : Reaches perform a (a.run perform n) := by
  suffices ∀ n b, Reaches perform a b → Reaches perform a (b.run perform n) from
    this n a .start
  intro n
  induction n with
  | zero => exact fun _ h => h
  | succ n ih =>
    intro b h
    unfold run
    split
    · exact h
    · exact ih _ h.step

/-- What every step keeps holds of all that is reached. -/
theorem Reaches.invariant {perform : τ → σ → Verdict σ τ ε} {Inv : Agenda σ τ ε → Prop}
    (keep : ∀ b, Inv b → Inv (b.step perform)) {a b : Agenda σ τ ε} (h : Reaches perform a b)
    (start : Inv a) : Inv b := by
  induction h with
  | start => exact start
  | step _ ih => exact keep _ ih

end Agenda

end TimedQuiz
