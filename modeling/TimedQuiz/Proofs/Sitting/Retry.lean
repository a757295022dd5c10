import TimedQuiz.Proofs.Sitting.WellFormed

/-!
# Trying again

Another try clears the answers of a round, while a load works every correct answer out from its
text. Both begin the same round, since nothing that happens to a round touches what was worked out,
and since working it out ignores the answers that a problem comes with.

* `Problem.Sound.withoutAnswer_eq` — a sound problem without its answer is as it was worked out;
* `Round.WellFormed.retry_outcome_eq` — the two ways to begin a round over, for a round by itself.

Main statement: `Reachable.retry_agrees_with_load`.
-/

namespace TimedQuiz

namespace Problem

variable {tolerance : Float} {p : Problem}

/-- A sound problem without its answer is as it was worked out. -/
theorem Sound.withoutAnswer_eq (h : p.Sound tolerance) : p.withoutAnswer = p.resolved := by
  have hcorrect : p.correct = p.resolved.correct := h.correct_eq
  unfold Problem.withoutAnswer
  rw [hcorrect]
  rfl

/-- What is worked out depends on identity and text alone. -/
theorem map_resolved_eq {ps qs : List Problem} (h : ps.map label = qs.map label) :
    ps.map resolved = qs.map resolved := by
  have hlabel : ∀ ps : List Problem,
      ps.map resolved = (ps.map label).map fun l => resolved { id := l.1, text := l.2 } := by
    intro ps
    rw [List.map_map]
    rfl
  rw [hlabel, hlabel, h]

end Problem

namespace Round

variable {rules : HouseRules} {wording : Wording} {r : Round}

/-- A completed round is begun over the same way by another try as by a load of its problems, even
if these come with answers. -/
theorem WellFormed.retry_outcome_eq (h : r.WellFormed rules wording) (hc : r.phase = .completed)
    {problems : List Problem}
    (hlabels : r.problems.map Problem.label = problems.map Problem.label) :
    (r.next rules wording .retry).outcome = (r.next rules wording (.load problems)).outcome := by
  have hne : r.problems ≠ [] := h.problems_ne_nil (phase_eq_completed_iff.mp hc)
  have hsome : ¬ problems.isEmpty = true := by
    intro hnil
    rw [List.isEmpty_iff.mp hnil] at hlabels
    exact hne (List.map_eq_nil_iff.mp hlabels)
  have hcleared : r.problems.map Problem.withoutAnswer = problems.map Problem.resolved := by
    rw [← Problem.map_resolved_eq hlabels]
    exact List.map_congr_left fun p hp => (h.sound p hp).withoutAnswer_eq
  have hretry : Moves rules wording r .retry _ _ none := .retry hc
  have hload : Moves rules wording r (.load problems) _ _ none := .load problems
  rw [hretry.outcome_eq, hload.outcome_eq, hcleared, if_neg hsome]

end Round

namespace Sitting

variable {setup : Setup} {past : List (Agenda Sitting Task Fault)} {a : Agenda Sitting Task Fault}

/-- **Another try begins the same round as a load of the problems taken last**, with the same orders
to the timers, whatever has happened to the round since; and it puts nothing on record, since it
works nothing out. The wording is one that does not act on the sitting. -/
theorem Reachable.retry_agrees_with_load {sheets : Table (List Problem)}
    {onResult onChange : List (List Move)}
    (h : Reachable setup (opening sheets onResult onChange) past a)
    (hcompleted : a.state.round.phase = .completed) :
    ∃ problems, past.findSome? accepted = some problems ∧
      (a.state.round.next setup.rules setup.wording .retry).outcome =
        (a.state.round.next setup.rules setup.wording (.load problems)).outcome ∧
      (a.state.round.next setup.rules setup.wording .retry).entries = [] := by
  have hwf : a.state.round.WellFormed setup.rules setup.wording :=
    (h.steady (steady_opening ..)).round
  have hlabels := h.labels_eq rfl copyMade_opening (h.not_superseded rfl)
  have htaken : lastAccepted past ≠ [] := by
    intro hnil
    rw [hnil] at hlabels
    exact hwf.problems_ne_nil (Round.phase_eq_completed_iff.mp hcompleted)
      (List.map_eq_nil_iff.mp hlabels)
  cases hlast : past.findSome? accepted with
  | none => exact absurd (by rw [lastAccepted, hlast]; rfl) htaken
  | some problems =>
    have heq : lastAccepted past = problems := by
      rw [lastAccepted, hlast]
      rfl
    rw [heq] at hlabels
    exact ⟨problems, rfl, hwf.retry_outcome_eq hcompleted hlabels, rfl⟩

/-- Two problems, one of which is not read and one of which comes with an answer, are handed in; the
other is answered, and the round is ended by hand. -/
theorem retry_agrees_with_load_after_finish :
    ∃ past a problems,
      Reachable {} (opening (Table.insert {} "sums" [{ id := 1, text := "2 + 3" },
        { id := 2, text := "?", isAnswered := true }]) [] []) past a ∧
      a.state.round.phase = .completed ∧ past.findSome? accepted = some problems ∧
      problems.map Problem.label = [(1, "2 + 3"), (2, "?")] ∧
      (a.state.round.next {} (.ofCatalog .builtIn) .retry).outcome =
        (a.state.round.next {} (.ofCatalog .builtIn) (.load problems)).outcome := by
  have opened : Reachable {} (opening (Table.insert {} "sums"
      [{ id := 1, text := "2 + 3" }, { id := 2, text := "?", isAnswered := true }]) [] []) [] _ :=
    .start
  have shown := (opened.call (m := .present "sums" false) rfl trivial).step.step
  have answered := (shown.call (m := .submit 1 5.0) rfl trivial).step.step
  have ended :=
    (answered.call (m := .finish) (List.isEmpty_iff.mp (by decide +kernel)) trivial).step
  obtain ⟨problems, hlast, heq, -⟩ := ended.retry_agrees_with_load (by decide +kernel)
  refine ⟨_, _, problems, ended, by decide +kernel, hlast, ?_, heq⟩
  have hproblems : some problems = some
      [{ id := 1, text := "2 + 3" }, { id := 2, text := "?", isAnswered := true }] := hlast.symm
  cases hproblems
  rfl

end Sitting

end TimedQuiz
