import TimedQuiz.Proofs.Scoring.Assessment
import TimedQuiz.Proofs.Sitting.Labels

/-!
# The round of a sitting is well formed at every moment

* `Mended` — what an event that is held up will do to the round is in order;
* `Steady` — the round is well formed, and so are the advances set and the events held up.

Main statements: `Reachable.steady`; `Reachable.round_wellFormed` — the same with the problems that
the round has; `round_put_back` — a wording that hands in another list while it is asked sees the
list before put back in the end.
-/

namespace TimedQuiz

namespace Sitting

variable {setup : Setup} {opening s s' : Sitting} {task : Task} {rest first : List Task}
  {past : List (Agenda Sitting Task Fault)} {a : Agenda Sitting Task Fault}

/-! ## The round and all that is still to reach it -/

variable (setup) in
/-- If this moves the round, then to a well-formed one, and advances start at a position that is
not before the first. -/
def Mended (outcome : Except Fault Transition) : Prop :=
  ∀ r orders report, outcome = .ok (.moved r orders report) →
    r.WellFormed setup.rules setup.wording ∧
      ∀ order, .scheduleAdvance order ∈ orders → 0 ≤ order.index

variable (setup) in
/-- The round is well formed, and whatever still comes to it leaves it so. -/
structure Steady (s : Sitting) (tasks : List Task) : Prop where
  round : s.round.WellFormed setup.rules setup.wording
  advances : ∀ number order, .advance number order ∈ s.clock.purposes → 0 ≤ order.index
  held : ∀ outcome entries, .conclude outcome entries ∈ tasks → Mended setup outcome

theorem Arrives.proper {e : Event} (h : s.Arrives e)
    (hadv : ∀ number order, .advance number order ∈ s.clock.purposes → 0 ≤ order.index) :
    e.Proper := by
  cases h with
  | finish => rfl
  | advance _ hmem _ => exact hadv _ _ hmem
  | load problems => trivial
  | submit id answer => trivial
  | back => trivial
  | forward => trivial
  | retry => trivial
  | teardown _ => trivial
  | tick => trivial

/-- What takes effect is in order, be it an event that has just arrived or one held up. -/
theorem Steady.mended {tasks after : List Task} {x : Recorded Transition}
    (h : Steady setup s tasks) (htask : task ∈ tasks) (ht : s.Taken s')
    (hdue : Due setup s' task after x) : Mended setup x.outcome := by
  cases hdue with
  | @event e he _ _ =>
    intro r orders report hx
    rw [ht.spared.round_eq] at hx
    have hm := Round.moves_of_next hx
    have hproper : e.Proper := he.proper (ht.spared.purposes_eq ▸ h.advances)
    refine ⟨hm.wellFormed hproper h.round, fun order hmem => ?_⟩
    rw [hm.eq_of_mem_orders hmem]
    exact h.round.index_nonneg
  | rest hx _ => exact h.held _ _ (hx ▸ htask)

theorem Steady.done (h : Steady setup s (task :: rest)) (hd : Does setup s task (.done s' first)) :
    Steady setup s' (first ++ rest) := by
  have held := hd.held_of (P := Mended setup) h.held
    fun _ _ _ _ _ ht hdue _ => h.mended List.mem_cons_self ht hdue
  cases hd with
  | aside ht _ _ => exact ⟨ht.spared.round_eq ▸ h.round, ht.spared.purposes_eq ▸ h.advances, held⟩
  | @moved t first after x r orders _ _ _ ht hdue hx _ _ =>
    have hmend := h.mended List.mem_cons_self ht hdue r orders _ hx
    obtain ⟨c, p, n, k, hm⟩ := moved_frame setup t r orders
    refine ⟨by rw [hm]; exact hmend.1, fun number order hmem => ?_, held⟩
    rcases mem_purposes_foldl hmem with hmem | ⟨number', order', heq, hmem⟩ | ⟨g, heq, -⟩
    · exact h.advances number order (ht.spared.purposes_eq ▸ hmem)
    · cases heq
      exact hmend.2 order hmem
    · cases heq
  | held ht _ _ _ _ =>
    exact ⟨ht.spared.round_eq ▸ h.round, ht.spared.purposes_eq ▸ h.advances, held⟩

theorem Steady.failed {fault : Fault} (h : Steady setup s (task :: rest))
    (hd : Does setup s task (.failed s' fault)) : Steady setup s' [] := by
  cases hd with
  | gaveUp _ => exact ⟨h.round, h.advances, fun _ _ hmem => absurd hmem List.not_mem_nil⟩
  | broken ht _ _ =>
    exact ⟨ht.spared.round_eq ▸ h.round, ht.spared.purposes_eq ▸ h.advances,
      fun _ _ hmem => absurd hmem List.not_mem_nil⟩

theorem steady_opening (sheets : Table (List Problem))
    (onResult onChange onWording : List (List Move)) :
    Steady setup (Sitting.opening sheets onResult onChange onWording) [] :=
  ⟨.fresh 0 fun _ h => absurd h List.not_mem_nil, fun _ _ h => absurd h List.not_mem_nil,
    fun _ _ h => absurd h List.not_mem_nil⟩

theorem Steady.call (h : Steady setup s []) (houter : task.Outer) : Steady setup s [task] := by
  refine ⟨h.round, h.advances, fun _ _ hmem => ?_⟩
  rw [← List.mem_singleton.mp hmem] at houter
  cases houter

theorem Reachable.steady (h : Reachable setup opening past a) (hs : Steady setup opening []) :
    Steady setup a.state a.tasks :=
  h.invariant hs (fun _ _ hs => hs.call) (fun _ _ _ _ _ hs hp => hs.done (does_of_perform hp))
    fun _ _ _ _ _ hs hp => hs.failed (does_of_perform hp)

/-! ## The result -/

/-- **The round of a sitting is well formed at every moment**, whatever its listeners and its
wording do, whoever gives up and whenever the alarms ring; the report of a completed one is that on
its own problems. These are, answers apart, the problems taken last, unless the wording has handed
them in while an event was held up, and such an event has taken effect since; and they are those of
a list that was taken at any rate, if there are any. -/
theorem Reachable.round_wellFormed {sheets : Table (List Problem)}
    {onResult onChange onWording : List (List Move)}
    (h : Reachable setup (Sitting.opening sheets onResult onChange onWording) past a) :
    a.state.round.WellFormed setup.rules setup.wording ∧
      (∀ report, a.state.round.result = some report →
        report.total = a.state.round.size ∧ report.correct = correctCount a.state.round.problems ∧
          report.correct + report.incorrect = report.total) ∧
      (¬ Superseded past → a.state.round.problems.map Problem.label =
        (lastAccepted past).map Problem.label) ∧
      (onWording = [] → ¬ Superseded past) ∧
      (a.state.round.problems = [] ∨ ∃ problems ∈ past.filterMap accepted,
        a.state.round.problems.map Problem.label = problems.map Problem.label) := by
  have hwf := (h.steady (steady_opening sheets onResult onChange onWording)).round
  refine ⟨hwf, fun report hres => ?_, h.labels_eq rfl copyMade_opening, h.not_superseded,
    (h.labels_taken rfl copyMade_opening).round.imp_left List.map_eq_nil_iff.mp⟩
  obtain ⟨htotal, hcorrect, hsum, -⟩ := report_of_assess (hwf.graded report hres).2
  exact ⟨htotal, hcorrect, hsum⟩

/-- One problem has been handed in. -/
theorem wellFormed_after_present :
    ∃ past a, Reachable {} (Sitting.opening (Table.insert {} "sums" [{ id := 1, text := "2 + 3" }])
        [] []) past a ∧
      (lastAccepted past).map Problem.label = [(1, "2 + 3")] ∧
      a.state.round.problems.map Problem.label = (lastAccepted past).map Problem.label ∧
      a.state.round.WellFormed {} (.ofCatalog .builtIn) := by
  have opened : Reachable {} (Sitting.opening
      (Table.insert {} "sums" [{ id := 1, text := "2 + 3" }]) [] []) [] _ := .start
  have taken := (opened.call (m := .present "sums" false) rfl trivial).step
  obtain ⟨hwf, -, hlabels, hsilent, -⟩ := taken.round_wellFormed
  exact ⟨_, _, taken, rfl, hlabels (hsilent rfl), hwf⟩

/-- **A list may be put back that was replaced**: the wording is asked for the title of a grade, and
hands in another list; then the round ends with the problems that it had before. -/
theorem round_put_back :
    ∃ past a, Reachable { wording := .echo } (Sitting.opening
        (Table.insert (Table.insert {} "first" [{ id := 1, text := "1 + 1" }])
          "second" [{ id := 2, text := "2 + 2" }]) [] [] [[.present "second" false]]) past a ∧
      a.tasks = [] ∧ a.state.disposed = false ∧ a.state.round.phase = .completed ∧
      (lastAccepted past).map Problem.label = [(2, "2 + 2")] ∧
      a.state.round.problems.map Problem.label = [(1, "1 + 1")] := by
  have opened : Reachable { wording := .echo } (Sitting.opening
      (Table.insert (Table.insert {} "first" [{ id := 1, text := "1 + 1" }])
        "second" [{ id := 2, text := "2 + 2" }]) [] [] [[.present "second" false]]) [] _ := .start
  have shown := (opened.call (m := .present "first" false) rfl trivial).step.step
  have asked := (shown.call (m := .finish) rfl trivial).step
  have ended := asked.step.step.step.step
  exact ⟨_, _, ended, List.isEmpty_iff.mp (by decide +kernel), by decide +kernel,
    by decide +kernel, by decide +kernel, by decide +kernel⟩

end Sitting

end TimedQuiz
