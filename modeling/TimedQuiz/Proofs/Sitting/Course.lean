import TimedQuiz.Proofs.Scoring.Assessment
import TimedQuiz.Proofs.Sitting.Passive

/-!
# The course of a first round on which nobody acts but to answer

* `Course` — one alarm ticks, the alarms of past advances are spent, and those of others wait.

Main statements: `Course.submit` — an answer sets an alarm for an advance; `Course.ticks` — all
ticks that are due by then come before the advance; `Course.showsNext`, `Course.closes` — once the
delay is over, the next problem is on show, or the round is completed and reported.
-/

namespace TimedQuiz.Sitting

variable {setup : Setup} {s : Sitting}

/-- The alarm that ticks in the first round, due next at a time. -/
def tickAlarm (rules : HouseRules) (due : Int) : Alarm Purpose where
  recurrence := .repeating
  interval := rules.tickInterval
  due
  payload := .tick 1

theorem rung_tickAlarm (rules : HouseRules) (due : Int) :
    (tickAlarm rules due).elapse.signal = tickAlarm rules (due + rules.tickInterval) := rfl

/-- The alarm of an advance that waits for its time. -/
def advanceAlarm (rules : HouseRules) (number : Nat) (due : Int) (order : Advance) :
    Alarm Purpose where
  recurrence := .once
  interval := rules.advanceDelay
  due
  payload := .advance number order

variable (setup) in
/-- The first round is under way at a time: one alarm ticks, those of the advances that have come
are spent, and others may wait, known by their numbers and their times. -/
structure Course (s : Sitting) (now : Int) (spent : List (Alarm Purpose))
    (waiting : List (Nat × Int)) : Prop extends Passive s where
  enabled_eq : s.enabled = true
  phase_eq : s.round.phase = .active
  generation_eq : s.round.generation = 1
  ticker_eq : s.ticker = some 0
  clock_eq : s.clock =
    { now
      alarms := tickAlarm setup.rules ((s.round.elapsed + 1) * setup.rules.tickInterval) ::
        (spent ++ waiting.map fun w => advanceAlarm setup.rules w.1 w.2 s.round.nextAdvance) }
  pending_eq : s.pending = waiting.map fun w => (w.1, spent.length + 1)
  not_running : ∀ a ∈ spent, a.running = false
  reports_eq : s.reports = []

variable {now target due : Int} {spent : List (Alarm Purpose)} {waiting : List (Nat × Int)}

/-- An answer to a problem sets an alarm for an advance. -/
theorem Course.submit (hc : Course setup s now spent []) {id : Int} {x : Float} {r : Round}
    (hm : Round.Moves setup.rules setup.wording s.round (.submit id x) r
      [.scheduleAdvance s.round.nextAdvance] none) :
    ∃ t number, Course setup t now spent [(number, now + setup.rules.advanceDelay)] ∧
      t.round = r ∧ LeadsTo setup s (.move (.submit id x)) t [] := by
  have hi : s.intake (.move (.submit id x)) = .event s (.submit id x) [] := by
    simp [intake, make, hc.enabled_eq]
  obtain ⟨journal, hleads, hreports⟩ := hc.toPassive.leadsTo hi hm.outcome_eq
  cases hm with
  | submit id x p hphase hfind hopen =>
    refine ⟨_, s.nextAdvance, ?_, ?_, hleads⟩
    · exact {
        toPassive := hc.toPassive.moved setup _ _ journal
        enabled_eq := hc.enabled_eq
        phase_eq := by
          have hactive := Round.phase_eq_active_iff.mp hc.phase_eq
          refine Round.phase_eq_active_iff.mpr ⟨hactive.1, ?_⟩
          exact mt Round.answerFirst_eq_nil_iff.mp hactive.2
        generation_eq := hc.generation_eq
        ticker_eq := hc.ticker_eq
        clock_eq := by
          show s.clock.set .once _ _ = Clock.mk now (tickAlarm setup.rules
            ((s.round.elapsed + 1) * setup.rules.tickInterval) :: (spent ++ [advanceAlarm _ _ _
              { s.round.nextAdvance with count := (Round.answerFirst _ _ _ _).length }]))
          rw [hc.clock_eq, Round.length_answerFirst]
          simp [Clock.set, advanceAlarm, Round.nextAdvance, Round.size]
        pending_eq := by
          show s.pending ++ [(s.nextAdvance, s.clock.nextHandle)] = _
          rw [hc.pending_eq, hc.clock_eq]
          simp [Clock.nextHandle]
        not_running := hc.not_running
        reports_eq := by
          rw [reports, hreports, hc.reports_eq]
          simp }
    · rfl

/-- No alarm runs but the one that ticks and those of the advances that wait. -/
theorem Course.runs_cases (hc : Course setup s now spent waiting) {j : Nat} {b : Alarm Purpose}
    (hb : s.clock.alarms[j]? = some b) (hrun : b.running = true) :
    b.due = (s.round.elapsed + 1) * setup.rules.tickInterval ∨
      ∃ w ∈ waiting, b.due = w.2 ∧ spent.length + 1 ≤ j := by
  rw [hc.clock_eq] at hb
  cases j with
  | zero =>
    cases hb
    exact .inl rfl
  | succ j =>
    right
    simp only [List.getElem?_cons_succ, List.getElem?_append] at hb
    split at hb
    · have hover := hc.not_running b (List.mem_of_getElem? hb)
      rw [hrun] at hover
      cases hover
    · obtain ⟨w, hw, rfl⟩ := List.mem_map.mp (List.mem_of_getElem? hb)
      exact ⟨w, hw, rfl, by omega⟩

/-- A second goes by. -/
theorem Course.tick (hc : Course setup s now spent waiting)
    (hdue : (s.round.elapsed + 1) * setup.rules.tickInterval ≤ target)
    (hwait : ∀ w ∈ waiting, target ≤ w.2) :
    ∃ t, Course setup t ((s.round.elapsed + 1) * setup.rules.tickInterval) spent waiting ∧
      t.round = { s.round with elapsed := s.round.elapsed + 1 } ∧
      LeadsTo setup s (.elapse target) t [.elapse target] := by
  have halarm : s.clock.alarms[0]? = some
      (tickAlarm setup.rules ((s.round.elapsed + 1) * setup.rules.tickInterval)) := by
    rw [hc.clock_eq]
    rfl
  have hnext : s.clock.earliest? target =
      some (0, (s.round.elapsed + 1) * setup.rules.tickInterval) := by
    refine Clock.earliest?_eq_some_iff.mpr ⟨_, halarm, rfl, rfl, hdue, fun j b hb hrun => ?_⟩
    rcases hc.runs_cases hb hrun with heq | ⟨w, hw, heq, -⟩
    · exact .inr ⟨heq.symm, Nat.zero_le j⟩
    · -- an advance may be due at the same time, but the ticking alarm was set first
      have hle := hwait w hw
      omega
  have hi := intake_elapse hnext halarm rfl
  simp only [tickAlarm, deliver, hc.generation_eq] at hi
  rw [if_neg (not_not_intro rfl)] at hi
  have hm : Round.Moves setup.rules setup.wording s.round (.tick 1)
      { s.round with elapsed := s.round.elapsed + 1 } [] none := by
    have hsame : Event.tick 1 = .tick s.round.generation := by rw [hc.generation_eq]
    rw [hsame]
    exact .tick hc.phase_eq
  have hlater : (s.round.elapsed + 1 + 1) * setup.rules.tickInterval =
      (s.round.elapsed + 1) * setup.rules.tickInterval + setup.rules.tickInterval := by
    rw [Int.add_mul (s.round.elapsed + 1), Int.one_mul]
  obtain ⟨journal, hleads, hreports⟩ := hc.toPassive.leadsTo hi hm.outcome_eq
  refine ⟨_, ?_, ?_, hleads⟩
  · exact {
      toPassive := (hc.toPassive.of_event hi).moved setup _ _ journal
      enabled_eq := hc.enabled_eq
      phase_eq := hc.phase_eq
      generation_eq := hc.generation_eq
      ticker_eq := hc.ticker_eq
      clock_eq := by
        show (s.clock.ring 0 _).1 = _
        rw [hc.clock_eq, Clock.ring_head, rung_tickAlarm, ← hlater]
        rfl
      pending_eq := hc.pending_eq
      not_running := hc.not_running
      reports_eq := by
        rw [reports, hreports, hc.reports_eq]
        simp }
  · rfl

/-- **All ticks due by the target come first**, if no advance is due before it. -/
theorem Course.ticks (hc : Course setup s now spent waiting) (htick : 1 ≤ setup.rules.tickInterval)
    (helapsed : s.round.elapsed ≤ target / setup.rules.tickInterval)
    (hwait : ∀ w ∈ waiting, target ≤ w.2) :
    ∃ t now, Course setup t now spent waiting ∧
      t.round = { s.round with elapsed := target / setup.rules.tickInterval } ∧
      LeadsTo setup s (.elapse target) t [.elapse target] := by
  obtain ⟨k, hk⟩ := Int.le.dest helapsed
  -- by induction on the ticks to come
  induction k generalizing s now with
  | zero =>
    refine ⟨s, now, hc, ?_, .refl s _⟩
    rw [← hk, Int.natCast_zero, Int.add_zero]
  | succ k ih =>
    have hdue : (s.round.elapsed + 1) * setup.rules.tickInterval ≤ target :=
      Int.mul_le_of_le_ediv (by omega) (by omega)
    obtain ⟨t, ht, hround, hleads⟩ := hc.tick hdue hwait
    have hseconds : t.round.elapsed = s.round.elapsed + 1 := by rw [hround]
    obtain ⟨u, later, hu, hround', hleads'⟩ := ih ht (by omega) (by omega)
    refine ⟨u, later, hu, ?_, hleads.trans hleads'⟩
    rw [hround', hround]

/-- The next alarm is that of the advance, which is heard. -/
theorem Course.intake_advance {number : Nat} (hc : Course setup s now spent [(number, due)])
    (hle : due ≤ target) (hlt : due < (s.round.elapsed + 1) * setup.rules.tickInterval) :
    ∃ a : Alarm Purpose, a.running = false ∧ s.intake (.elapse target) =
      .event { s with
        clock :=
          { now := due
            alarms := tickAlarm setup.rules
              ((s.round.elapsed + 1) * setup.rules.tickInterval) :: (spent ++ [a]) }
        pending := [] } (.advance s.round.nextAdvance) [.elapse target] := by
  have hclock := hc.clock_eq
  rw [List.map_singleton, ← List.cons_append] at hclock
  have halarm : s.clock.alarms[spent.length + 1]? =
      some (advanceAlarm setup.rules number due s.round.nextAdvance) := by
    rw [hclock]
    exact List.getElem?_concat_length
  have hnext : s.clock.earliest? target = some (spent.length + 1, due) := by
    refine Clock.earliest?_eq_some_iff.mpr ⟨_, halarm, rfl, rfl, hle, fun j b hb hrun => ?_⟩
    rcases hc.runs_cases hb hrun with heq | ⟨w, hw, heq, hj⟩
    · exact .inl (heq ▸ hlt)
    · rw [List.mem_singleton.mp hw] at heq
      exact .inr ⟨heq.symm, hj⟩
  refine ⟨(advanceAlarm setup.rules number due s.round.nextAdvance).elapse.signal, rfl, ?_⟩
  have hring : (s.clock.ring (spent.length + 1) due).1 =
      { now := due
        alarms := tickAlarm setup.rules ((s.round.elapsed + 1) * setup.rules.tickInterval) ::
          spent ++ [(advanceAlarm setup.rules number due s.round.nextAdvance).elapse.signal] } := by
    rw [hclock]
    exact Clock.ring_last now due (_ :: spent) _
  have hpending : s.pending.filter (fun w => w.1 != number) = [] := by
    rw [hc.pending_eq]
    simp
  rw [intake_elapse hnext halarm rfl, hring]
  simp only [advanceAlarm, deliver, hpending]
  exact if_neg (not_not_intro rfl)

/-- An advance before the last problem shows the next one. -/
theorem Course.advance {number : Nat} (hc : Course setup s now spent [(number, due)])
    (hle : due ≤ target) (hlt : due < (s.round.elapsed + 1) * setup.rules.tickInterval)
    (hlast : s.round.index < s.round.lastIndex) :
    ∃ t spent, Course setup t due spent [] ∧
      t.round = { s.round with index := s.round.index + 1 } ∧
      LeadsTo setup s (.elapse target) t [.elapse target] := by
  obtain ⟨a, ha, hi⟩ := hc.intake_advance hle hlt
  have hm : Round.Moves setup.rules setup.wording s.round (.advance s.round.nextAdvance)
      { s.round with index := s.round.index + 1 } [] none := by
    have hmin : min (s.round.index + 1) s.round.lastIndex = s.round.index + 1 :=
      Int.min_eq_left hlast
    exact hmin ▸ .advance s.round.nextAdvance hc.phase_eq rfl hlast
  obtain ⟨journal, hleads, hreports⟩ := hc.toPassive.leadsTo hi hm.outcome_eq
  refine ⟨_, spent ++ [a], ?_, ?_, hleads⟩
  · exact {
      toPassive := (hc.toPassive.of_event hi).moved setup _ _ journal
      enabled_eq := hc.enabled_eq
      phase_eq := hc.phase_eq
      generation_eq := hc.generation_eq
      ticker_eq := hc.ticker_eq
      clock_eq := by
        rw [List.map_nil, List.append_nil]
        rfl
      pending_eq := rfl
      not_running := by
        intro b hb
        rcases List.mem_append.mp hb with hb | hb
        · exact hc.not_running b hb
        · exact List.mem_singleton.mp hb ▸ ha
      reports_eq := by
        rw [reports, hreports, hc.reports_eq]
        simp }
  · rfl

/-- **An advance past the last problem ends the round**: the listener for results is given the
report, and no alarm runs any more. -/
theorem Course.finish {number : Nat} (hc : Course setup s now spent [(number, due)])
    (hle : due ≤ target) (hlt : due < (s.round.elapsed + 1) * setup.rules.tickInterval)
    (hlast : s.round.lastIndex ≤ s.round.index) (hcancel : setup.honoursCancel = true)
    (hresults : setup.tellsResults = true) (hwording : setup.wording.Willing) :
    ∃ t report, (assess setup.wording s.round.problems).outcome = .ok report ∧
      t.round = s.round.finished s.round.problems report ∧ t.reports = [report] ∧
      (∀ i, ¬t.clock.Runs i) ∧ LeadsTo setup s (.elapse target) t [.elapse target] := by
  obtain ⟨a, ha, hi⟩ := hc.intake_advance hle hlt
  have hne : s.round.problems ≠ [] := (Round.phase_eq_active_iff.mp hc.phase_eq).2
  obtain ⟨report, hreport⟩ := assess_ok hwording hne
  have hm : Round.Moves setup.rules setup.wording s.round (.advance s.round.nextAdvance)
      (s.round.finished s.round.problems report) Round.stopAll (some report) :=
    .advanceToEnd s.round.nextAdvance report hc.phase_eq rfl hlast hne hreport
  obtain ⟨journal, hleads, hreports⟩ := hc.toPassive.leadsTo hi hm.outcome_eq
  rw [moved_stopAll_eq hcancel _ hc.ticker_eq] at hleads
  refine ⟨_, report, hreport, rfl, ?_, ?_, hleads⟩
  · rw [reports, hreports, hc.reports_eq, hresults]
    rfl
  · rintro i ⟨b, hb, hrun⟩
    cases i with
    | zero =>
      -- the ticking alarm has been given up
      cases hb
      cases hrun
    | succ i =>
      rcases List.mem_append.mp (List.mem_of_getElem? hb) with hmem | hmem
      · rw [hc.not_running b hmem] at hrun
        cases hrun
      · rw [List.mem_singleton.mp hmem, ha] at hrun
        cases hrun

/-- Time moves on before the next second is over. -/
theorem Course.arrive (hc : Course setup s now spent [])
    (hlt : target < (s.round.elapsed + 1) * setup.rules.tickInterval) :
    ∃ t, Course setup t target spent [] ∧ t.round = s.round ∧
      LeadsTo setup s (.elapse target) t [] := by
  refine ⟨{ s with clock := { s.clock with now := target } }, ?_, rfl,
    leadsTo_arrive fun j b hb hrun => ?_⟩
  · refine { hc with clock_eq := ?_ }
    show Clock.mk target s.clock.alarms = _
    rw [hc.clock_eq]
  · rcases hc.runs_cases hb hrun with heq | ⟨w, hw, -⟩
    · exact heq ▸ hlt
    · cases hw

/-- The delay goes by, up to the moment when the advance is due and all ticks have come. -/
theorem Course.wait {number : Nat}
    (hc : Course setup s now spent [(number, now + setup.rules.advanceDelay)])
    (hdelay : 0 ≤ setup.rules.advanceDelay) (htick : 1 ≤ setup.rules.tickInterval)
    (helapsed : s.round.elapsed = now / setup.rules.tickInterval) :
    ∃ t earlier, Course setup t earlier spent [(number, now + setup.rules.advanceDelay)] ∧
      t.round = { s.round with
        elapsed := (now + setup.rules.advanceDelay) / setup.rules.tickInterval } ∧
      now + setup.rules.advanceDelay < (t.round.elapsed + 1) * setup.rules.tickInterval ∧
      LeadsTo setup s (.move (.wait setup.rules.advanceDelay)) t
        [.elapse (now + setup.rules.advanceDelay)] := by
  have hstart : LeadsTo setup s (.move (.wait setup.rules.advanceDelay)) s
      [.elapse (now + setup.rules.advanceDelay)] := by
    have hnow : s.clock.now = now := by rw [hc.clock_eq]
    exact hnow ▸ leadsTo_wait
  have hgrows : s.round.elapsed ≤
      (now + setup.rules.advanceDelay) / setup.rules.tickInterval := by
    rw [helapsed]
    exact Int.ediv_le_ediv (by omega) (by omega)
  obtain ⟨t, earlier, ht, hround, hleads⟩ := hc.ticks htick hgrows (by simp)
  refine ⟨t, earlier, ht, hround, ?_, hstart.trans hleads⟩
  rw [hround]
  exact Int.lt_ediv_add_one_mul_self _ (by omega)

/-- **Once the delay is over, the next problem is on show.** -/
theorem Course.showsNext {number : Nat}
    (hc : Course setup s now spent [(number, now + setup.rules.advanceDelay)])
    (hdelay : 0 ≤ setup.rules.advanceDelay) (htick : 1 ≤ setup.rules.tickInterval)
    (helapsed : s.round.elapsed = now / setup.rules.tickInterval)
    (hlast : s.round.index < s.round.lastIndex) :
    ∃ t spent, Course setup t (now + setup.rules.advanceDelay) spent [] ∧
      t.round = { s.round with
        index := s.round.index + 1
        elapsed := (now + setup.rules.advanceDelay) / setup.rules.tickInterval } ∧
      Completes setup s (.wait setup.rules.advanceDelay) t none := by
  obtain ⟨t, earlier, ht, hround, hlt, hwait⟩ := hc.wait hdelay htick helapsed
  obtain ⟨u, spent, hu, hround', hadvance⟩ :=
    ht.advance (Int.le_refl _) hlt (by rw [hround]; exact hlast)
  obtain ⟨v, hv, hround'', harrive⟩ := hu.arrive (by rw [hround']; exact hlt)
  refine ⟨v, spent, hv, ?_, ((hwait.trans hadvance).trans harrive).completes⟩
  rw [hround'', hround', hround]

/-- **Once the last delay is over, the round is completed and reported.** -/
theorem Course.closes {number : Nat}
    (hc : Course setup s now spent [(number, now + setup.rules.advanceDelay)])
    (hdelay : 0 ≤ setup.rules.advanceDelay) (htick : 1 ≤ setup.rules.tickInterval)
    (helapsed : s.round.elapsed = now / setup.rules.tickInterval)
    (hlast : s.round.lastIndex ≤ s.round.index) (hcancel : setup.honoursCancel = true)
    (hresults : setup.tellsResults = true) (hwording : setup.wording.Willing) :
    ∃ t report, (assess setup.wording s.round.problems).outcome = .ok report ∧
      t.round.phase = .completed ∧ t.reports = [report] ∧
      t.round.elapsed = (now + setup.rules.advanceDelay) / setup.rules.tickInterval ∧
      Completes setup s (.wait setup.rules.advanceDelay) t none := by
  obtain ⟨t, earlier, ht, hround, hlt, hwait⟩ := hc.wait hdelay htick helapsed
  obtain ⟨u, report, hreport, hround', hreports, hover, hfinish⟩ :=
    ht.finish (Int.le_refl _) hlt (by rw [hround]; exact hlast) hcancel hresults hwording
  have harrive : LeadsTo setup u (.elapse (now + setup.rules.advanceDelay))
      { u with clock := { u.clock with now := now + setup.rules.advanceDelay } } [] :=
    leadsTo_arrive fun j b hb hrun => absurd ⟨b, hb, hrun⟩ (hover j)
  rw [hround] at hreport
  refine ⟨_, report, hreport, ?_, ?_, ?_, ((hwait.trans hfinish).trans harrive).completes⟩
  · show u.round.phase = _
    rw [hround']
    rfl
  · exact hreports
  · show u.round.elapsed = _
    rw [hround', hround]
    rfl

end TimedQuiz.Sitting
