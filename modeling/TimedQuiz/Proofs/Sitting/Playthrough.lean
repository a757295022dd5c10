import TimedQuiz.Proofs.Round.Answering
import TimedQuiz.Proofs.Sitting.Course

/-!
# A quiz from the first problem to the last

A list of problems is handed in to a new sitting whose listeners do nothing. Then, time and again,
the problem on show is answered and the delay goes by.

* `Plays` — the problems on show are answered, one after the other.

Main statements: `Course.plays_take` — what holds as long as problems are left; `Course.plays_all` —
what holds in the end; `plays_through`.
-/

namespace TimedQuiz.Sitting

variable (setup : Setup)

/-- Time and again, the problem on show is answered and the delay goes by. -/
inductive Plays : Sitting → List Float → Sitting → Prop
  | nil {s : Sitting} : Plays s [] s
  | cons {s t u v : Sitting} {p : Problem} {x : Float} {xs : List Float} :
      s.round.currentProblem = some p → Completes setup s (.submit p.id x) t none →
      Completes setup t (.wait setup.rules.advanceDelay) u none → Plays u xs v →
      Plays s (x :: xs) v

variable {setup} {s t t' : Sitting} {now : Int} {spent : List (Alarm Purpose)}

theorem Plays.unique {xs : List Float} (h : Plays setup s xs t) (h' : Plays setup s xs t') :
    t' = t := by
  induction h with
  | nil =>
    cases h'
    rfl
  | cons hp hsubmit hwait _ ih =>
    cases h' with
    | cons hp' hsubmit' hwait' hrest' =>
      rw [hp] at hp'
      cases hp'
      obtain ⟨rfl, -⟩ := Agenda.EndsIn.unique hsubmit hsubmit'
      obtain ⟨rfl, -⟩ := Agenda.EndsIn.unique hwait hwait'
      exact ih hrest'

/-- One more answer. -/
theorem Plays.snoc {u : Sitting} {p : Problem} {x : Float} {xs : List Float}
    (h : Plays setup s xs t) (hp : t.round.currentProblem = some p)
    (hsubmit : Completes setup t (.submit p.id x) t' none)
    (hwait : Completes setup t' (.wait setup.rules.advanceDelay) u none) :
    Plays setup s (xs ++ [x]) u := by
  induction h with
  | nil => exact .cons hp hsubmit hwait .nil
  | cons hp₁ hsubmit₁ hwait₁ _ ih => exact .cons hp₁ hsubmit₁ hwait₁ (ih hp hsubmit)

/-! ## From the first problem to the last -/

variable {problems : List Problem} {answers : List Float} {begun : Sitting}

/-- A list of problems that is handed in to a new sitting starts the first round. -/
theorem course_present {sheets : Table (List Problem)} {name : String}
    (hsheet : sheets.get? name = some problems) (hne : problems ≠ []) (copied : Bool) :
    ∃ t, Course setup t 0 [] [] ∧ t.round = Round.midway setup.rules.tolerance problems [] 0 0 ∧
      Completes setup (opening sheets [] []) (.present name copied) t none := by
  have hgiven : (opening sheets [] []).sheet name = problems := by
    show (sheets.get? name).getD [] = problems
    rw [hsheet]
    rfl
  obtain ⟨source, copies, hi⟩ : ∃ source copies,
      (opening sheets [] []).intake (.move (.present name copied)) =
        .event { opening sheets [] [] with source, copies } (.load problems) [] := by
    rw [← hgiven]
    cases copied with
    | false => exact ⟨some (.sheet name), 0, rfl⟩
    | true => exact ⟨some (.copy 0), 1, rfl⟩
  have hm : Round.Moves setup.rules setup.wording (opening sheets [] []).round (.load problems)
      { problems := problems.map Problem.resolved, generation := 1 }
      (Round.stopAll ++ [.startTicker 1]) none := by
    have hsome : ¬problems.isEmpty = true := by simpa using hne
    have hload : Round.Moves setup.rules setup.wording (opening sheets [] []).round
      (.load problems) _ _ none := .load problems
    rw [if_neg hsome] at hload
    exact hload
  have hround : Round.midway setup.rules.tolerance problems [] 0 0 =
      { problems := problems.map Problem.resolved, generation := 1 } := by
    simp only [Round.midway, Round.answerAll_nil]
  obtain ⟨journal, hleads, hreports⟩ := (passive_opening sheets).leadsTo hi hm.outcome_eq
  refine ⟨_, ?_, hround.symm, hleads.completes⟩
  exact {
    toPassive := ((passive_opening sheets).of_event hi).moved setup _ _ journal
    enabled_eq := rfl
    phase_eq := hround ▸ Round.phase_midway hne
    generation_eq := rfl
    ticker_eq := rfl
    clock_eq := by
      show Clock.mk 0 [tickAlarm setup.rules (0 + setup.rules.tickInterval)] =
        { now := 0, alarms := [tickAlarm setup.rules ((0 + 1) * setup.rules.tickInterval)] }
      rw [Int.zero_add, Int.zero_add, Int.one_mul]
    pending_eq := rfl
    not_running := fun _ h => absurd h List.not_mem_nil
    reports_eq := by
      rw [reports, hreports]
      simp [reports, opening] }

/-- The answer to the problem on show is taken. -/
theorem Course.answer (hc : Course setup s now spent []) (hids : (problems.map (·.id)).Nodup)
    (hlen : answers.length = problems.length) {i : Nat} (hi : i < problems.length) {elapsed : Int}
    (hround : s.round =
      Round.midway setup.rules.tolerance problems (answers.take i) i elapsed) :
    ∃ t number p x, Course setup t now spent [(number, now + setup.rules.advanceDelay)] ∧
      t.round = Round.midway setup.rules.tolerance problems (answers.take (i + 1)) i elapsed ∧
      answers.take (i + 1) = answers.take i ++ [x] ∧ s.round.currentProblem = some p ∧
      Completes setup s (.submit p.id x) t none := by
  have htake : (answers.take i).length = i := List.length_take_of_le (by omega)
  have hp : problems[i]? = some problems[i] := List.getElem?_eq_getElem hi
  have hmore : answers.take i ++ [answers[i]] = answers.take (i + 1) :=
    List.take_append_getElem (by omega)
  have ho := Round.submit_midway setup.rules setup.wording elapsed hids htake hp answers[i]
  rw [← hround, hmore] at ho
  obtain ⟨t, number, ht, hround', hleads⟩ := hc.submit ho
  refine ⟨t, number, problems[i].resolved, answers[i], ht, hround', hmore.symm, ?_,
    hleads.completes⟩
  rw [hround]
  exact Round.currentProblem_midway htake hp

/-- What holds whenever the delay is over, as long as problems are left. -/
theorem Course.plays_take (hc : Course setup begun 0 [] [])
    (hround : begun.round = Round.midway setup.rules.tolerance problems [] 0 0)
    (hids : (problems.map (·.id)).Nodup) (hdelay : 0 ≤ setup.rules.advanceDelay)
    (htick : 1 ≤ setup.rules.tickInterval) (hlen : answers.length = problems.length) {i : Nat}
    (hi : i < problems.length) :
    ∃ s spent, Plays setup begun (answers.take i) s ∧
      Course setup s (i * setup.rules.advanceDelay) spent [] ∧
      s.round = Round.midway setup.rules.tolerance problems (answers.take i) i
        (i * setup.rules.advanceDelay / setup.rules.tickInterval) := by
  induction i with
  | zero =>
    refine ⟨begun, [], .nil, ?_, ?_⟩
    · simpa using hc
    · simpa using hround
  | succ i ih =>
    obtain ⟨s, spent, hplays, hs, hround⟩ := ih (by omega)
    obtain ⟨t, number, p, x, ht, hround', hmore, hshown, hsubmit⟩ :=
      hs.answer hids hlen (by omega) hround
    have hlast : t.round.index < t.round.lastIndex := by
      rw [hround', Round.lastIndex, Round.size_midway]
      show (i : Int) < _
      omega
    obtain ⟨u, spent, hu, hround'', hwait⟩ :=
      ht.showsNext hdelay htick (by rw [hround']; rfl) hlast
    have hend := hplays.snoc hshown hsubmit hwait
    rw [← hmore] at hend
    rw [Int.natCast_succ, Int.add_mul, Int.one_mul]
    refine ⟨u, spent, hend, hu, ?_⟩
    rw [hround'', hround']
    rfl

/-- What holds once the delay after the last answer is over. -/
theorem Course.plays_all (hc : Course setup begun 0 [] [])
    (hround : begun.round = Round.midway setup.rules.tolerance problems [] 0 0)
    (hne : problems ≠ []) (hids : (problems.map (·.id)).Nodup)
    (hdelay : 0 ≤ setup.rules.advanceDelay) (htick : 1 ≤ setup.rules.tickInterval)
    (hcancel : setup.honoursCancel = true) (hresults : setup.tellsResults = true)
    (hwording : setup.wording.Willing) (hlen : answers.length = problems.length) :
    ∃ s report, Plays setup begun answers s ∧ s.round.phase = .completed ∧ s.reports = [report] ∧
      s.round.elapsed = problems.length * setup.rules.advanceDelay / setup.rules.tickInterval ∧
      (assess setup.wording (Round.answerAll setup.rules.tolerance
        (problems.map Problem.resolved) answers)).outcome = .ok report := by
  obtain ⟨i, hi⟩ := Nat.exists_eq_succ_of_ne_zero (mt List.length_eq_zero_iff.mp hne)
  have hall : answers.take (i + 1) = answers := List.take_of_length_le (by omega)
  obtain ⟨s, spent, hplays, hs, hround⟩ :=
    hc.plays_take hround hids hdelay htick hlen (hi ▸ Nat.lt_succ_self i)
  obtain ⟨t, number, p, x, ht, hround', hmore, hshown, hsubmit⟩ :=
    hs.answer hids hlen (hi ▸ Nat.lt_succ_self i) hround
  rw [hall] at hround' hmore
  have hlast : t.round.lastIndex ≤ t.round.index := by
    rw [hround', Round.lastIndex, Round.size_midway]
    show _ ≤ (i : Int)
    omega
  obtain ⟨u, report, hreport, hphase, hreports, helapsed, hwait⟩ :=
    ht.closes hdelay htick (by rw [hround']; rfl) hlast hcancel hresults hwording
  have hend := hplays.snoc hshown hsubmit hwait
  rw [← hmore] at hend
  rw [hround'] at hreport
  refine ⟨u, report, hend, hphase, hreports, ?_, hreport⟩
  rw [helapsed, hi, Int.natCast_succ, Int.add_mul, Int.one_mul]

/-- **A quiz from the first problem to the last.** After each answer and the delay that follows, the
next problem is on show and exactly those before it are answered; after the last one the round is
completed, and the listener for results has been given one report, which counts the answers that are
near enough to the solutions. -/
theorem plays_through (hcancel : setup.honoursCancel = true) (hresults : setup.tellsResults = true)
    (hwording : setup.wording.Willing) (hdelay : 0 ≤ setup.rules.advanceDelay)
    (htick : 1 ≤ setup.rules.tickInterval) {sheets : Table (List Problem)} {name : String}
    (hsheet : sheets.get? name = some problems) (hne : problems ≠ [])
    (hids : (problems.map (·.id)).Nodup) (copied : Bool)
    (hlen : answers.length = problems.length) :
    ∃ begun,
      (∀ t fault, Completes setup (opening sheets [] []) (.present name copied) t fault ↔
        t = begun ∧ fault = none) ∧
      (∀ i < problems.length, ∃ s, (∀ t, Plays setup begun (answers.take i) t ↔ t = s) ∧
        s.round.phase = .active ∧ s.round.index = i ∧
        s.round.problems.map (·.id) = problems.map (·.id) ∧
        ∀ j p, s.round.problems[j]? = some p → (p.isAnswered = true ↔ j < i)) ∧
      ∃ s report, (∀ t, Plays setup begun answers t ↔ t = s) ∧ s.round.phase = .completed ∧
        s.reports = [report] ∧ report.total = problems.length ∧
        report.correct = (problems.zip answers).countP
          (fun q => decide ((q.2 - q.1.solution).abs < setup.rules.tolerance)) ∧
        score report.correct problems.length = .ok report.score ∧
        s.round.elapsed =
          problems.length * setup.rules.advanceDelay / setup.rules.tickInterval := by
  obtain ⟨begun, hc, hround, hbegun⟩ := course_present hsheet hne copied
  refine ⟨begun, fun t fault => ⟨Agenda.EndsIn.unique hbegun, ?_⟩, fun i hi => ?_, ?_⟩
  · rintro ⟨rfl, rfl⟩
    exact hbegun
  · obtain ⟨s, spent, hplays, hs, hround⟩ := hc.plays_take hround hids hdelay htick hlen hi
    refine ⟨s, fun t => ⟨hplays.unique, fun h => h ▸ hplays⟩, hs.phase_eq, ?_, ?_, ?_⟩
    · rw [hround]
      rfl
    · rw [hround, Round.midway, Round.map_id_answerAll, List.map_map]
      rfl
    · intro j p hp
      rw [hround] at hp
      have hopen : ∀ q ∈ problems.map Problem.resolved, q.isAnswered = false := by
        simp [Problem.resolved]
      rw [Round.isAnswered_answerAll hopen hp, List.length_take_of_le (by omega)]
  · obtain ⟨s, report, hplays, hphase, hreports, helapsed, hreport⟩ :=
      hc.plays_all hround hne hids hdelay htick hcancel hresults hwording hlen
    obtain ⟨htotal, hcorrect, -, hscore⟩ := report_of_assess hreport
    rw [Round.length_answerAll, List.length_map] at htotal hscore
    rw [← hcorrect] at hscore
    refine ⟨s, report, fun t => ⟨hplays.unique, fun h => h ▸ hplays⟩, hphase, hreports, htotal, ?_,
      hscore, helapsed⟩
    rw [hcorrect, Round.correctCount_answerAll _ hlen]

/-- Two problems, one of which is not read, are answered in three seconds. -/
theorem plays_through_two :
    ∃ begun s report,
      Completes {} (opening (Table.insert {} "sums" [{ id := 1, text := "2 + 3" },
        { id := 2, text := "?" }]) [] []) (.present "sums" false) begun none ∧
      Plays {} begun [5.0, 1.0] s ∧ s.round.phase = .completed ∧ s.reports = [report] ∧
      report.total = 2 ∧ s.round.elapsed = 3 := by
  have hwording : ({} : Setup).wording.Willing := fun _ => ⟨_, rfl⟩
  have hsheet : (Table.insert {} "sums" [{ id := 1, text := "2 + 3" },
      { id := 2, text := "?" }]).get? "sums" =
    some [({ id := 1, text := "2 + 3" } : Problem), { id := 2, text := "?" }] := rfl
  obtain ⟨begun, hbegun, -, s, report, hplays, hphase, hreports, htotal, -, -, helapsed⟩ :=
    plays_through rfl rfl hwording (by decide) (by decide) hsheet (List.cons_ne_nil _ _) (by decide)
      false (show [5.0, 1.0].length = _ from rfl)
  exact ⟨begun, s, report, (hbegun begun none).mpr ⟨rfl, rfl⟩, (hplays s).mpr rfl, hphase, hreports,
    htotal, helapsed⟩

end TimedQuiz.Sitting
