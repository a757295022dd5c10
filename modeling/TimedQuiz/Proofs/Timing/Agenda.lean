import TimedQuiz.Timing.Agenda

/-!
# Agendas that come to an end

* `EndsIn` — all tasks of an agenda are done in the end, with what they leave behind.

Main statements: `run_eq_of_isOver`, `EndsIn.unique` — an agenda has at most one end;
`exists_run_isOver` — it has one if every step lowers a measure; `exists_run_of_simulates` — it has
one if it goes along with another agenda that has.
-/

namespace TimedQuiz.Agenda

variable {σ τ ε σ' τ' ε' : Type} {perform : τ → σ → Verdict σ τ ε}
  {perform' : τ' → σ' → Verdict σ' τ' ε'} {a : Agenda σ τ ε}

@[simp] theorem isOver_iff : a.isOver = true ↔ a.tasks = [] := List.isEmpty_iff

theorem step_cons (state : σ) (task : τ) (rest : List τ) (fault : Option ε) :
    step perform { state, tasks := task :: rest, fault } = (perform task state).agenda rest := rfl

theorem step_of_idle (h : a.tasks = []) : a.step perform = a := by
  rw [step, h]

theorem step_of_tasks {task : τ} {rest : List τ} (h : a.tasks = task :: rest) :
    a.step perform = (perform task a.state).agenda rest := by
  rw [step, h]

theorem run_of_isOver (h : a.tasks = []) (n : Nat) : a.run perform n = a := by
  cases n with
  | zero => rfl
  | succ n => rw [run, if_pos (isOver_iff.mpr h)]

theorem run_succ_of_ne (h : a.tasks ≠ []) (n : Nat) :
    a.run perform (n + 1) = (a.step perform).run perform n := by
  rw [run, if_neg (mt isOver_iff.mp h)]

/-- **An agenda has at most one end.** -/
theorem run_eq_of_isOver {m n : Nat} (hm : (a.run perform m).tasks = [])
    (hn : (a.run perform n).tasks = []) : a.run perform m = a.run perform n := by
  induction m generalizing a n with
  | zero => exact (run_of_isOver hm n).symm
  | succ m ih =>
    by_cases hover : a.tasks = []
    · rw [run_of_isOver hover, run_of_isOver hover]
    · cases n with
      | zero => exact absurd hn hover
      | succ n =>
        rw [run_succ_of_ne hover] at hm hn ⊢
        rw [run_succ_of_ne hover]
        exact ih hm hn

variable (perform) in
/-- All tasks are done in the end; with the state that they leave behind, and the fault that broke
them off. -/
def EndsIn (a : Agenda σ τ ε) (state : σ) (fault : Option ε) : Prop :=
  ∃ n, a.run perform n = { state, tasks := [], fault }

theorem EndsIn.unique {s t : σ} {e f : Option ε} (h : a.EndsIn perform s e)
    (h' : a.EndsIn perform t f) : t = s ∧ f = e := by
  obtain ⟨n, hn⟩ := h
  obtain ⟨k, hk⟩ := h'
  have heq := run_eq_of_isOver (congrArg tasks hk) (congrArg tasks hn)
  rw [hn, hk] at heq
  cases heq
  exact ⟨rfl, rfl⟩

theorem endsIn_nil (s : σ) (fault : Option ε) :
    EndsIn perform { state := s, tasks := [], fault } s fault := ⟨0, rfl⟩

/-- An agenda ends where it ends after its first step. -/
theorem EndsIn.of_step {t : σ} {fault : Option ε} (hne : a.tasks ≠ [])
    (h : (a.step perform).EndsIn perform t fault) : a.EndsIn perform t fault := by
  obtain ⟨n, hn⟩ := h
  exact ⟨n + 1, by rw [run_succ_of_ne hne, hn]⟩

/-- **An agenda comes to an end if every step but the last lowers a measure** of two numbers, the
first of which counts before the second; what every step keeps still holds then. -/
theorem exists_run_isOver {Inv : Agenda σ τ ε → Prop} (major minor : Agenda σ τ ε → Nat)
    (keep : ∀ a, Inv a → Inv (a.step perform))
    (lower : ∀ a, Inv a → a.tasks ≠ [] → (a.step perform).tasks = [] ∨
      major (a.step perform) < major a ∨
      (major (a.step perform) = major a ∧ minor (a.step perform) < minor a))
    (h : Inv a) : ∃ n, (a.run perform n).tasks = [] ∧ Inv (a.run perform n) := by
  -- by induction on the first number, and for each on the second
  generalize hmajor : major a = k
  induction k using Nat.strongRecOn generalizing a with
  | ind k ihMajor =>
    generalize hminor : minor a = l
    induction l using Nat.strongRecOn generalizing a with
    | ind l ihMinor =>
      by_cases hover : a.tasks = []
      · exact ⟨0, hover, h⟩
      · have step : ∀ n, ((a.step perform).run perform n).tasks = [] ∧
            Inv ((a.step perform).run perform n) →
            (a.run perform (n + 1)).tasks = [] ∧ Inv (a.run perform (n + 1)) :=
          fun n hn => by rwa [run_succ_of_ne hover]
        have hinv := keep a h
        rcases lower a h hover with hend | hlt | ⟨heq, hlt⟩
        · exact ⟨1, step 0 ⟨hend, hinv⟩⟩
        · obtain ⟨n, hn⟩ := ihMajor _ (hmajor ▸ hlt) hinv rfl
          exact ⟨n + 1, step n hn⟩
        · obtain ⟨n, hn⟩ := ihMinor _ (hminor ▸ hlt) hinv (heq.trans hmajor) rfl
          exact ⟨n + 1, step n hn⟩

/-- **An agenda goes along with another**, which may make steps of its own: if the other comes to
an end, so does the first, and the two are related then. -/
theorem exists_run_of_simulates {Rel : Agenda σ τ ε → Agenda σ' τ' ε' → Prop}
    (ended : ∀ a b, Rel a b → b.tasks = [] → a.tasks = [])
    (step : ∀ a b, Rel a b → b.tasks ≠ [] →
      Rel a (b.step perform') ∨ (a.tasks ≠ [] ∧ Rel (a.step perform) (b.step perform')))
    {b : Agenda σ' τ' ε'} {n : Nat} (h : Rel a b) (hn : (b.run perform' n).tasks = []) :
    ∃ m, (a.run perform m).tasks = [] ∧ Rel (a.run perform m) (b.run perform' n) := by
  induction n generalizing a b with
  | zero => exact ⟨0, ended a b h hn, h⟩
  | succ n ih =>
    by_cases hover : b.tasks = []
    · rw [run_of_isOver hover]
      exact ⟨0, ended a b h hover, h⟩
    · rw [run_succ_of_ne hover] at hn ⊢
      rcases step a b h hover with hrel | ⟨hne, hrel⟩
      · exact ih hrel hn
      · obtain ⟨m, hm, hrel⟩ := ih hrel hn
        exact ⟨m + 1, by rwa [run_succ_of_ne hne], by rwa [run_succ_of_ne hne]⟩

end TimedQuiz.Agenda
