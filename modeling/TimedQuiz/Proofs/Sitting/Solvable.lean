import TimedQuiz.Proofs.Number.Nonfinite
import TimedQuiz.Proofs.Sitting.Ending
import TimedQuiz.Proofs.Sitting.Refusals
import TimedQuiz.Proofs.Sitting.WellFormed

/-!
# Only what has a finite answer can be answered right

* `Problem.isSolvable` — the correct answer is a finite number;
* `Candid` — what takes effect leaves the round with the result that it reports;
* `ReportsOn` — the listener for results is given nothing, or the result that the round then has;
* `Gives` — a step gives it a report.

Main statements: `Problem.Sound.isCorrect_of_unsolvable` — no answer to any other problem is right,
under any tolerance; `Reachable.reportsOn_step` — what a step reports;
`Reachable.right_only_if_solvable`.
-/

namespace TimedQuiz

namespace Problem

variable {p : Problem} {tolerance : Float}

/-- The correct answer is a finite number. -/
def isSolvable (p : Problem) : Bool := p.correct.any (·.isFinite)

/-- **Without a finite answer nothing is right.** -/
theorem Sound.isCorrect_of_unsolvable (h : p.Sound tolerance) (hp : p.isSolvable = false) :
    p.isCorrect = false := by
  cases hanswered : p.isAnswered with
  | false => exact (h.unanswered hanswered).2
  | true =>
    obtain ⟨x, c, -, hc, hcorrect⟩ := h.answered hanswered
    rw [isSolvable, hc] at hp
    rw [hcorrect, decide_eq_false (Binary64.not_distance_lt hp x tolerance)]

theorem correctCount_le_countP_isSolvable {ps : List Problem}
    (h : ∀ p ∈ ps, p.Sound tolerance) : correctCount ps ≤ ps.countP isSolvable := by
  apply List.countP_mono_left
  intro p hp hcorrect
  by_contra hunsolvable
  rw [(h p hp).isCorrect_of_unsolvable (by simpa using hunsolvable)] at hcorrect
  cases hcorrect

end Problem

namespace Sitting

variable {setup : Setup} {s s' t : Sitting} {task : Task} {rest after : List Task}
  {outcome : Except Fault Transition} {entries : List Entry}
  {past : List (Agenda Sitting Task Fault)} {a : Agenda Sitting Task Fault}

/-! ## What a step reports -/

/-- If this reports a result, the round that it leaves has this result. -/
def Candid (outcome : Except Fault Transition) : Prop :=
  ∀ r orders report, outcome = .ok (.moved r orders (some report)) → r.result = some report

theorem candid_next (rules : HouseRules) (wording : Wording) (r : Round) (e : Event) :
    Candid (r.next rules wording e).outcome := by
  intro r' orders report h
  cases Round.moves_of_next h with
  | finish given _ _ _ _ => rfl
  | advanceToEnd order _ _ _ _ _ _ => rfl

/-- The listener for results is given nothing, or the result that the round then has. -/
def ReportsOn (s t : Sitting) : Prop :=
  t.reports = s.reports ∨
    ∃ report, t.reports = report :: s.reports ∧ t.round.result = some report

theorem ReportsOn.of_calls (h : t.calls = s.calls) : s.ReportsOn t := .inl (reports_eq_of_calls h)

theorem ReportsOn.trans_calls (hcalls : s'.calls = s.calls) (h : s'.ReportsOn t) :
    s.ReportsOn t := by
  rwa [ReportsOn, ← reports_eq_of_calls hcalls]

/-- An event that takes effect, or is held up, reports on the round that it leaves. -/
theorem reportsOn_conclude (hcandid : Candid outcome)
    (hnone : ∀ entry ∈ entries, entry.isCall = false) (rest : List Task) :
    s.ReportsOn ((s.conclude setup outcome entries).agenda rest).state := by
  rcases conclude_eq_cases setup s outcome entries with heq | ⟨before, key, left, moves, later,
    hentries, -, heq⟩
  · have hcalls : (s.record entries).calls = s.calls := calls_record_of_none hnone s
    rw [heq]
    cases outcome with
    | error fault => exact .of_calls hcalls
    | ok transition =>
      cases transition with
      | ignored => exact .of_calls hcalls
      | moved round orders report =>
        rw [effect_moved_eq]
        refine .trans_calls hcalls ?_
        show (s.record entries).ReportsOn ((s.record entries).afterMove setup round orders report)
        unfold ReportsOn
        rw [reports_afterMove, afterMove_round]
        cases report with
        | none => exact .inl (by simp)
        | some report =>
          split
          · exact .inr ⟨report, rfl, hcandid round orders report rfl⟩
          · exact .inl rfl
  · rw [heq]
    refine .of_calls (calls_record_of_none (fun entry he => hnone entry ?_) s)
    rw [hentries]
    simp only [List.mem_append, List.mem_cons] at he ⊢
    tauto

theorem reportsOn_perform
    (hheld : ∀ outcome entries, task = .conclude outcome entries →
      Candid outcome ∧ ∀ entry ∈ entries, entry.isCall = false) (rest : List Task) :
    s.ReportsOn ((perform setup task s).agenda rest).state := by
  unfold perform
  cases hi : s.intake task with
  | event s' e after =>
    obtain ⟨-, hjournal, -⟩ := (takesUp_of_intake hi).taken_of_event
    refine .trans_calls (calls_eq_of_journal hjournal) ?_
    rw [pursue, react]
    split
    · exact .inl rfl
    · have hnone : ∀ entry ∈ (s'.round.next setup.rules setup.wording e).entries,
          entry.isCall = false := fun _ => Round.isCall_of_mem_entries
      have h : s'.ReportsOn ((s'.conclude setup (s'.round.next setup.rules setup.wording e).outcome
          (s'.round.next setup.rules setup.wording e).entries).agenda rest).state :=
        reportsOn_conclude (candid_next setup.rules setup.wording s'.round e) hnone rest
      revert h
      cases s'.conclude setup (s'.round.next setup.rules setup.wording e).outcome
        (s'.round.next setup.rules setup.wording e).entries <;> exact id
  | rest s' outcome entries =>
    cases takesUp_of_intake hi
    obtain ⟨hcandid, hnone⟩ := hheld outcome entries rfl
    exact reportsOn_conclude hcandid hnone rest
  | aside s' after =>
    have htakes := takesUp_of_intake hi
    by_cases hne : task = .announce
    · subst hne
      cases hi
      exact .inl rfl
    · exact .of_calls (htakes.calls_of_aside hne)
  | failed s' fault =>
    cases takesUp_of_intake hi
    exact .inl rfl

/-- **A step gives the listener for results nothing, or the result that the round then has.** -/
theorem Reachable.reportsOn_step {sheets : Table (List Problem)}
    {onResult onChange onWording : List (List Move)}
    (h : Reachable setup (opening sheets onResult onChange onWording) past a) :
    a.state.ReportsOn (a.step (perform setup)).state := by
  cases htasks : a.tasks with
  | nil =>
    rw [Agenda.step_of_idle htasks]
    exact .inl rfl
  | cons task rest =>
    rw [Agenda.step_of_tasks htasks]
    apply reportsOn_perform
    rintro outcome entries rfl
    obtain ⟨hnone, b, -, -, -, e, -, -, -, -, rfl, -⟩ :=
      h.heldUp outcome entries (by rw [htasks]; exact List.mem_cons_self)
    exact ⟨candid_next _ _ _ e, hnone⟩

/-! ## All that came before -/

/-- The step gives the report to the listener for results: it is the result that the round then has,
and counts no more right answers than the round has problems with a finite one. -/
structure Gives (setup : Setup) (b : Agenda Sitting Task Fault) (report : Report) : Prop where
  reports_eq : (b.step (perform setup)).state.reports = report :: b.state.reports
  result_eq : (b.step (perform setup)).state.round.result = some report
  correct_le : report.correct ≤
    (b.step (perform setup)).state.round.problems.countP Problem.isSolvable

/-- What a step gives counts right answers to problems with a finite one only. -/
theorem Reachable.gives {sheets : Table (List Problem)}
    {onResult onChange onWording : List (List Move)}
    (h : Reachable setup (opening sheets onResult onChange onWording) past a) {report : Report}
    (hmem : report ∈ (a.step (perform setup)).state.reports) :
    report ∈ a.state.reports ∨ Gives setup a report := by
  rcases h.reportsOn_step with heq | ⟨new, heq, hresult⟩
  · exact .inl (heq ▸ hmem)
  · rw [heq] at hmem
    rcases List.mem_cons.mp hmem with rfl | hold
    · have hafter := (h.step.steady (steady_opening sheets onResult onChange onWording)).round
      obtain ⟨-, hcorrect, -, -⟩ := report_of_assess (hafter.graded report hresult).2
      refine .inr ⟨heq, hresult, ?_⟩
      rw [hcorrect]
      exact Int.ofNat_le.mpr (Problem.correctCount_le_countP_isSolvable hafter.sound)
    · exact .inl hold

/-- **Only what has a finite answer can be answered right**, whatever the tolerance and the answers
are, whatever the listeners and the wording do, whoever gives up and whenever the alarms ring. At no
moment is another problem right; and each report that the listener for results was given was the
result of the round when a step gave it, and counts no more right answers than the round then had
problems with a finite one. -/
theorem Reachable.right_only_if_solvable {sheets : Table (List Problem)}
    {onResult onChange onWording : List (List Move)}
    (h : Reachable setup (opening sheets onResult onChange onWording) past a) :
    (∀ p ∈ a.state.round.problems, p.isSolvable = false → p.isCorrect = false) ∧
      ∀ report ∈ a.state.reports, ∃ b ∈ past, Gives setup b report := by
  have hwf := (h.steady (steady_opening sheets onResult onChange onWording)).round
  refine ⟨fun p hp => (hwf.sound p hp).isCorrect_of_unsolvable, ?_⟩
  apply h.along (P := fun past s => ∀ report ∈ s.reports, ∃ b ∈ past, Gives setup b report)
  · exact fun report hmem => absurd hmem List.not_mem_nil
  · intro past a hreach ih report hmem
    rcases hreach.gives hmem with hold | hgives
    · obtain ⟨b, hb, hgives⟩ := ih report hold
      exact ⟨b, List.mem_cons_of_mem a hb, hgives⟩
    · exact ⟨a, List.mem_cons_self, hgives⟩

/-- Every answer is near enough, and the quotient by zero is answered with its own value: only the
other problem counts. -/
theorem right_only_if_solvable_of_infinite :
    ∃ setup past a, Reachable setup (Sitting.opening
        (Table.insert {} "sums" [{ id := 1, text := "1 / 0" }, { id := 2, text := "1 + 1" }])
        [] []) past a ∧
      a.state.round.problems.map (·.isAnswered) = [true, true] ∧
      a.state.round.problems.map (·.isSolvable) = [false, true] ∧
      a.state.reports.map (·.correct) = [1] ∧
      ∀ p ∈ a.state.round.problems, p.isSolvable = false → p.isCorrect = false := by
  have opened : Reachable
      { rules := { tolerance := Binary64.infinity }, wording := .echo }
      (Sitting.opening
        (Table.insert {} "sums" [{ id := 1, text := "1 / 0" }, { id := 2, text := "1 + 1" }])
        [] []) [] _ := .start
  have shown := (opened.call (m := .present "sums" false) rfl trivial).step.step
  have answered := (shown.call (m := .submit 1 Binary64.infinity)
    (List.isEmpty_iff.mp (by decide +kernel)) trivial).step.step
  have both := (answered.call (m := .submit 2 1.0e308)
    (List.isEmpty_iff.mp (by decide +kernel)) trivial).step.step
  have ended := (both.call (m := .finish) (List.isEmpty_iff.mp (by decide +kernel))
    trivial).step.step
  exact ⟨_, _, _, ended, by decide +kernel, by decide +kernel, by decide +kernel,
    ended.right_only_if_solvable.1⟩

end Sitting

end TimedQuiz
