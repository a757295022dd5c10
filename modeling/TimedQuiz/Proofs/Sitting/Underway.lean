import TimedQuiz.Proofs.Scoring.Assessment
import TimedQuiz.Proofs.Sitting.Effects
import TimedQuiz.Proofs.Sitting.Passive
import TimedQuiz.Proofs.Sitting.Termination

/-!
# Rounds under way on which nobody acts but to answer

What such a round still expects is a queue: for each alarm of an advance that runs, when it is due
and which position it moves past. Time takes the advances out of the queue as they come, an answer
puts one at its end.

* `awaited` — the queue;
* `Reliable` — what is asked of the setup;
* `Settled` — nobody acts, and the round and its timers are in order;
* `Underway`, `Ended` — the round is active; it is completed and reported;
* `Keeps`, `LetsEnd` — what the advances that come by a moment do to a condition on the position
  and the queue;
* `Conveys` — what a list of moves leaves behind in the end.

Main statements: `Underway.submit` — what an answer does; `Underway.ring`, `Underway.elapse`,
`Underway.waits` — what time does, alarm by alarm, up to a moment, and wait by wait.
-/

namespace TimedQuiz

/-- When the alarm is due and which position its advance moves past, if it runs for one. -/
def Alarm.awaited? (a : Alarm Purpose) : Option (Int × Int) :=
  match a.payload with
  | .advance _ order => if a.running then some (a.due, order.index) else none
  | .tick _ => none

namespace Sitting

/-- The advances that are still to come: when each is due, and which position it moves past. -/
def awaited (s : Sitting) : List (Int × Int) := s.clock.alarms.filterMap Alarm.awaited?

/-- Alarms that are cancelled do not ring, there is a listener for results, the wording never
refuses, and neither ticks nor advances are due before they are ordered. -/
structure Reliable (setup : Setup) : Prop where
  honoursCancel : setup.honoursCancel = true
  tellsResults : setup.tellsResults = true
  willing : setup.wording.Willing
  one_le_interval : 1 ≤ setup.rules.tickInterval
  delay_nonneg : 0 ≤ setup.rules.advanceDelay

variable {setup : Setup} {s t : Sitting} {task : Task} {after : List Task} {e : Event}
  {problems : List Problem} {reports : List Report} {handle : Nat} {alarm : Alarm Purpose}
  {target due : Int}

/-! ## The queue -/

/-- An alarm that waits has its entry in the queue. -/
theorem Linked.exists_awaited (h : Linked s) {i : Nat} (ha : s.clock.alarms[i]? = some alarm)
    (hw : alarm.Waits) : ∃ x, (alarm.due, x) ∈ s.awaited := by
  obtain ⟨n, order, -, hpay⟩ := h.pending_of_waits ha hw
  refine ⟨order.index, List.mem_filterMap.mpr ⟨alarm, List.mem_of_getElem? ha, ?_⟩⟩
  simp [Alarm.awaited?, hpay, hw.2]

/-- Every entry of the queue is that of an alarm that runs. -/
theorem exists_runs_of_mem_awaited {w : Int × Int} (hw : w ∈ s.awaited) :
    ∃ (i : Nat) (alarm : Alarm Purpose), s.clock.alarms[i]? = some alarm ∧
      alarm.running = true ∧ alarm.due = w.1 := by
  obtain ⟨alarm, hmem, hsome⟩ := List.mem_filterMap.mp hw
  obtain ⟨i, hi⟩ := List.mem_iff_getElem?.mp hmem
  unfold Alarm.awaited? at hsome
  split at hsome
  · split at hsome
    · rename_i hrun
      cases hsome
      exact ⟨i, alarm, hi, hrun, rfl⟩
    · cases hsome
  · cases hsome

theorem Linked.awaited_eq_nil (h : Linked s) (hpending : s.pending = []) : s.awaited = [] := by
  refine List.filterMap_eq_nil_iff.mpr fun alarm hmem => ?_
  obtain ⟨i, hi⟩ := List.mem_iff_getElem?.mp hmem
  unfold Alarm.awaited?
  split
  · rename_i n order hpay
    refine if_neg fun hrun => ?_
    have hmem := (h.pending_iff n i).mpr ⟨alarm, order, hi, ⟨h.once_of_advance hi hpay, hrun⟩, hpay⟩
    rw [hpending] at hmem
    cases hmem
  · rfl

/-- A ringing changes the entry of the alarm that rings, and no other. -/
theorem awaited_ring (ha : s.clock.alarms[handle]? = some alarm) (due : Int) :
    ∃ before after, s.awaited = before ++ alarm.awaited?.toList ++ after ∧
      (s.clock.ring handle due).1.alarms.filterMap Alarm.awaited? =
        before ++ alarm.elapse.signal.awaited?.toList ++ after := by
  obtain ⟨hlt, -⟩ := List.getElem?_eq_some_iff.mp ha
  obtain ⟨l, b, l', hl, hlen, hmodify⟩ :=
    List.exists_of_modify (fun a : Alarm Purpose => a.elapse.signal) hlt
  have hb : s.clock.alarms[handle]? = some b := by
    rw [hl, ← hlen]
    simp
  cases ha.symm.trans hb
  refine ⟨l.filterMap Alarm.awaited?, l'.filterMap Alarm.awaited?, ?_, ?_⟩
  · rw [awaited, hl, List.filterMap_append, List.filterMap_cons]
    cases alarm.awaited? <;> simp
  · rw [Clock.alarms_ring, hmodify, List.filterMap_append, List.filterMap_cons]
    cases alarm.elapse.signal.awaited? <;> simp

/-- A tick leaves the queue alone. -/
theorem awaited_ring_of_tick (ha : s.clock.alarms[handle]? = some alarm) {generation : Int}
    (hpay : alarm.payload = .tick generation) (due : Int) :
    (s.clock.ring handle due).1.alarms.filterMap Alarm.awaited? = s.awaited := by
  obtain ⟨before, after, hbefore, hafter⟩ := awaited_ring ha due
  have hnone : alarm.awaited? = none := by simp [Alarm.awaited?, hpay]
  have hnone' : alarm.elapse.signal.awaited? = none := by simp [Alarm.awaited?, hpay]
  rw [hafter, hbefore, hnone, hnone']

/-- An advance that comes is taken out of the queue. -/
theorem awaited_ring_of_advance (ha : s.clock.alarms[handle]? = some alarm) {n : Nat}
    {order : Advance} (hpay : alarm.payload = .advance n order) (hw : alarm.Waits)
    (hlevel : alarm.Level) (due : Int) :
    ∃ before after, s.awaited = before ++ (alarm.due, order.index) :: after ∧
      (s.clock.ring handle due).1.alarms.filterMap Alarm.awaited? = before ++ after := by
  obtain ⟨before, after, hbefore, hafter⟩ := awaited_ring ha due
  have hsome : alarm.awaited? = some (alarm.due, order.index) := by
    simp [Alarm.awaited?, hpay, hw.2]
  have hnone : alarm.elapse.signal.awaited? = none := by
    have hstopped : alarm.elapse.signal.running = false := by
      have honce : alarm.elapse.signal.recurrence = .once := by simpa using hw.1
      by_contra hrun
      exact hlevel.elapse_signal.2.2 ⟨honce, by simpa using hrun⟩
    simp [Alarm.awaited?, hpay, hstopped]
  refine ⟨before, after, ?_, ?_⟩
  · rw [hbefore, hsome, List.append_assoc]
    rfl
  · rw [hafter, hnone, List.append_assoc]
    rfl

theorem Alike.awaited_eq (h : s.Alike t) : t.awaited = s.awaited := by
  rw [awaited, awaited, h.clock_eq]

/-! ## Sittings in order on which nobody acts -/

variable (setup) in
/-- Nobody acts on the sitting, and its round and its timers are in order. -/
structure Settled (s : Sitting) : Prop extends Passive s where
  linked : Linked s
  disciplined : Disciplined s
  wellFormed : s.round.WellFormed setup.rules setup.wording
  beats : s.clock.Beats

/-- An event that moves the round leads to a sitting in order, unless it is a teardown. -/
theorem Settled.event (h : Settled setup s) (hr : Reliable setup)
    (hi : s.intake task = .event t e after) {round : Round} {orders : List TimerOrder}
    {report : Option Report}
    (hm : Round.Moves setup.rules setup.wording s.round e round orders report)
    (hproper : e.Proper) (hend : e ≠ .teardown) :
    ∃ u, LeadsTo setup s task u after ∧ Settled setup u ∧ (t.moved setup round orders).Alike u ∧
      u.enabled = t.enabled ∧ u.reports = report.toList ++ s.reports := by
  obtain ⟨journal, hleads, hreports⟩ := h.toPassive.leadsTo hi hm.outcome_eq
  obtain ⟨ht, -, -⟩ := (takesUp_of_intake hi).taken_of_event
  have hround : t.round = s.round := ht.spared.round_eq
  rw [if_pos hr.tellsResults] at hreports
  have hdisciplined : Disciplined (t.moved setup round orders) :=
    (h.disciplined.taken ht).moved (hround ▸ h.wellFormed) (hround ▸ hm) hend
  have hsettled : Settled setup { t.moved setup round orders with journal } := {
    toPassive := (h.toPassive.of_event hi).moved setup round orders journal
    linked := ((h.linked.taken ht).moved hr.honoursCancel round orders).of_eq rfl rfl rfl rfl
    disciplined := hdisciplined.of_eq rfl rfl (fun _ => id) rfl rfl rfl
    wellFormed := by
      show (t.moved setup round orders).round.WellFormed _ _
      rw [moved_round]
      exact hm.wellFormed hproper h.wellFormed
    beats := beats_moved (beats_taken h.beats ht) hr.one_le_interval round orders }
  refine ⟨_, hleads, hsettled, ⟨rfl, rfl, rfl, rfl⟩, ?_, hreports⟩
  obtain ⟨c, p, n, k, hm⟩ := moved_frame setup t round orders
  rw [hm]

/-- A round that begins sets the timers in order, whatever they were before. -/
theorem Passive.restarted (hs : s.Passive) (hr : Reliable setup) (hl : Linked s)
    (hb : s.clock.Beats) {round : Round} (hphase : round.phase = .active)
    (hround : round.WellFormed setup.rules setup.wording) (journal : List Entry) :
    Settled setup
      { s.moved setup round (Round.stopAll ++ [.startTicker round.generation]) with journal } where
  toPassive := hs.moved setup round _ journal
  linked := (hl.moved hr.honoursCancel round _).of_eq rfl rfl rfl rfl
  disciplined :=
    (Disciplined.restarted s hphase : Disciplined (s.moved setup _ _)).of_eq rfl rfl
      (fun _ => id) rfl rfl rfl
  wellFormed := by
    show (s.moved setup _ _).round.WellFormed _ _
    rw [moved_round]
    exact hround
  beats := beats_moved hb hr.one_le_interval round _

variable (setup) in
/-- A round of these problems is active, answers to which are taken; and the listener for results
has been given these reports. -/
structure Underway (s : Sitting) (problems : List Problem) (reports : List Report) : Prop
    extends Settled setup s where
  enabled_eq : s.enabled = true
  phase_eq : s.round.phase = .active
  problems_eq : s.round.problems = problems
  reports_eq : s.reports = reports

/-- The round is completed, and the listener for results has been given one more report. -/
structure Ended (s : Sitting) (reports : List Report) : Prop extends Passive s where
  phase_eq : s.round.phase = .completed
  not_runs : ∀ i, ¬ s.clock.Runs i
  reports_eq : ∃ report, s.reports = report :: reports

theorem Underway.problems_ne_nil (h : Underway setup s problems reports) : problems ≠ [] :=
  h.problems_eq ▸ (Round.phase_eq_active_iff.mp h.phase_eq).2

theorem Underway.index_lt (h : Underway setup s problems reports) :
    s.round.index < problems.length := by
  have hlt := h.wellFormed.index_lt (Round.phase_eq_active_iff.mp h.phase_eq).2
  rw [Round.size, h.problems_eq] at hlt
  exact hlt

/-- **A list of problems that is accepted** starts a round that awaits nothing yet. -/
theorem underway_of_accepted {m : Move} (hr : Reliable setup) (hs : s.Passive) (hl : Linked s)
    (hb : s.clock.Beats) (hc : s.CopyMade) (henabled : s.enabled = true)
    (haccepted : accepted (s.start m) = some problems) (hne : problems ≠ []) :
    ∃ t, Completes setup s m t none ∧
      Underway setup t (problems.map Problem.resolved) s.reports ∧ t.awaited = [] ∧
      t.round.index = 0 := by
  obtain ⟨-, u, hi, -, henabled'⟩ := intake_of_accepted (a := s.start m) hc rfl haccepted
  replace hi : s.intake (.move m) = .event u (.load problems) [] := hi
  obtain ⟨ht, -, -⟩ := (takesUp_of_intake hi).taken_of_event
  have hm : Round.Moves setup.rules setup.wording s.round (.load problems) _ _ none :=
    .load problems
  rw [if_neg (by simpa using hne)] at hm
  obtain ⟨journal, hleads, hreports⟩ := hs.leadsTo hi hm.outcome_eq
  have hsound : ∀ p ∈ problems.map Problem.resolved, p.Sound setup.rules.tolerance := by
    intro p hp
    obtain ⟨q, -, rfl⟩ := List.mem_map.mp hp
    exact q.resolved_sound
  have hphase : ({
      problems := problems.map Problem.resolved
      generation := s.round.generation + 1 } : Round).phase = .active :=
    Round.phase_eq_active_iff.mpr ⟨rfl, by simpa using hne⟩
  have hsettled := (hs.of_event hi).restarted hr (hl.taken ht) (beats_taken hb ht) hphase
    (.fresh (s.round.generation + 1) hsound) journal
  obtain ⟨clock, hmoved, -⟩ := moved_restart setup u _ (s.round.generation + 1)
  refine ⟨_, hleads.completes, { hsettled with
    enabled_eq := ?_, phase_eq := ?_, problems_eq := ?_, reports_eq := ?_ },
    hsettled.linked.awaited_eq_nil ?_, ?_⟩
  · rw [hmoved]
    exact henabled'.trans henabled
  · rw [hmoved]
    exact hphase
  · rw [hmoved]
  · exact hreports.trans (by simp)
  · rw [hmoved]
  · rw [hmoved]

/-- Once nothing is awaited, no alarm waits any more. -/
theorem Underway.not_waits (h : Underway setup s problems reports) (hnone : s.awaited = [])
    {i : Nat} (ha : s.clock.alarms[i]? = some alarm) : ¬ alarm.Waits := by
  intro hw
  obtain ⟨x, hmem⟩ := h.linked.exists_awaited ha hw
  rw [hnone] at hmem
  cases hmem

/-- A move of the round that leaves it active and its problems as they are. -/
theorem Underway.event (h : Underway setup s problems reports) (hr : Reliable setup)
    (hi : s.intake task = .event t e after) (henabled : t.enabled = s.enabled) {round : Round}
    {orders : List TimerOrder}
    (hm : Round.Moves setup.rules setup.wording s.round e round orders none) (hproper : e.Proper)
    (hend : e ≠ .teardown) (hphase : round.phase = .active) :
    ∃ u, LeadsTo setup s task u after ∧ Underway setup u round.problems reports ∧
      (t.moved setup round orders).Alike u := by
  obtain ⟨u, hleads, hsettled, halike, henabled', hreports⟩ :=
    h.toSettled.event hr hi hm hproper hend
  have hround : u.round = round := halike.round_eq.trans (moved_round setup t round orders)
  exact ⟨u, hleads, { hsettled with
    enabled_eq := henabled'.trans (henabled.trans h.enabled_eq)
    phase_eq := hround ▸ hphase
    problems_eq := hround ▸ rfl
    reports_eq := hreports.trans h.reports_eq }, halike⟩

/-- **An answer to a problem that has none is taken**, and puts an advance past the position of the
round at the end of the queue. -/
theorem Underway.submit (h : Underway setup s problems reports) (hr : Reliable setup) {id : Int}
    {p : Problem} (hfind : problems.find? (fun p => decide (p.id = id)) = some p)
    (hopen : p.isAnswered = false) (x : Float) :
    ∃ t, Completes setup s (.submit id x) t none ∧
      Underway setup t (Round.answerFirst id x setup.rules.tolerance problems) reports ∧
      t.round.index = s.round.index ∧ t.clock.now = s.clock.now ∧
      t.awaited = s.awaited ++ [(s.clock.now + setup.rules.advanceDelay, s.round.index)] := by
  have hi : s.intake (.move (.submit id x)) = .event s (.submit id x) [] := by
    simp [intake, make, h.enabled_eq]
  have hm : Round.Moves setup.rules setup.wording s.round (.submit id x) _ _ none :=
    .submit id x p h.phase_eq (h.problems_eq ▸ hfind) hopen
  rw [h.problems_eq] at hm
  obtain ⟨hc, -⟩ := Round.phase_eq_active_iff.mp h.phase_eq
  obtain ⟨t, hleads, ht, halike⟩ := h.event hr hi rfl hm trivial (by rintro ⟨⟩)
    (Round.phase_eq_active_iff.mpr ⟨hc, mt Round.answerFirst_eq_nil_iff.mp h.problems_ne_nil⟩)
  refine ⟨t, hleads.completes, ht, ?_, ?_, ?_⟩
  · rw [halike.round_eq]
    rfl
  · rw [halike.clock_eq]
    rfl
  · rw [halike.awaited_eq]
    show (s.clock.alarms ++ [_]).filterMap Alarm.awaited? = _
    rw [List.filterMap_append]
    rfl

/-! ## Time -/

/-- The advance that comes next moves past its position: the round shows the next problem, or
ends. -/
theorem Underway.advance (h : Underway setup s problems reports) (hr : Reliable setup)
    {clock : Clock Purpose} {n : Nat} {order : Advance}
    (hi : s.intake task = .event (s.withHeard clock (.advance n order)) (.advance order) after)
    (hmem : (n, handle) ∈ s.pending)
    (hpurpose : s.clock.purposes[handle]? = some (.advance n order)) :
    ∃ t : Sitting, LeadsTo setup s task t after ∧
      ((Underway setup t problems reports ∧ t.clock = clock ∧ order.index + 1 < problems.length ∧
          t.round.index = order.index + 1) ∨
        (Ended t reports ∧ problems.length ≤ order.index + 1)) := by
  obtain ⟨order', ho, hgen, hcount, hnonneg, -⟩ := h.disciplined.orders n handle hmem
  rw [hpurpose] at ho
  cases ho
  rw [Round.size, h.problems_eq] at hcount
  by_cases hlast : order.index < order.count - 1
  · obtain ⟨t, hleads, ht, halike⟩ :=
      h.event hr hi rfl (.advance order h.phase_eq hgen hlast) hnonneg (by rintro ⟨⟩) h.phase_eq
    refine ⟨t, hleads, .inl ⟨h.problems_eq ▸ ht, halike.clock_eq, by omega, ?_⟩⟩
    have hmin : t.round.index = min (order.index + 1) s.round.lastIndex := by
      rw [halike.round_eq]
      rfl
    rw [hmin, Round.lastIndex, Round.size, h.problems_eq]
    omega
  · obtain ⟨report, hreport⟩ := assess_ok hr.willing h.problems_ne_nil
    rw [← h.problems_eq] at hreport
    obtain ⟨t, hleads, hsettled, halike, -, hreports⟩ := h.toSettled.event hr hi
      (.advanceToEnd order report h.phase_eq hgen (by omega) (h.problems_eq ▸ h.problems_ne_nil)
        hreport) hnonneg (by rintro ⟨⟩)
    have hphase : t.round.phase = .completed := by
      rw [halike.round_eq, moved_round]
      exact Round.phase_eq_completed_iff.mpr rfl
    obtain ⟨hticker, hpending⟩ := hsettled.disciplined.idle (by rw [hphase]; decide)
    refine ⟨t, hleads, .inr ⟨⟨hsettled.toPassive, hphase, hsettled.linked.not_runs hticker hpending,
      report, ?_⟩, by omega⟩⟩
    rw [hreports, h.reports_eq]
    rfl

/-- **The alarm that rings next** makes a second go by, or its advance comes. -/
theorem Underway.ring (h : Underway setup s problems reports) (hr : Reliable setup)
    (hnext : s.clock.earliest? target = some (handle, due)) :
    ∃ t : Sitting, LeadsTo setup s (.elapse target) t [.elapse target] ∧
      ((Underway setup t problems reports ∧ t.clock = (s.clock.ring handle due).1 ∧
        ((t.round.index = s.round.index ∧ t.awaited = s.awaited) ∨
          ∃ (before after : List (Int × Int)) (x : Int), s.awaited = before ++ (due, x) :: after ∧
            t.awaited = before ++ after ∧ x + 1 < problems.length ∧ t.round.index = x + 1)) ∨
      (Ended t reports ∧ ∃ x : Int, (due, x) ∈ s.awaited ∧ problems.length ≤ x + 1)) := by
  obtain ⟨alarm, hfirst⟩ := Clock.earliest?_eq_some_iff.mp hnext
  have ha := hfirst.at_position
  have hbrings := h.disciplined.brings h.linked (.inTurn hnext)
  generalize hi : s.intake (.elapse target) = taken at hbrings
  cases hbrings with
  | nothing hnot => exact absurd ⟨alarm, ha, hfirst.running⟩ hnot
  | tick _ hticker =>
    obtain ⟨b, hb, hticks⟩ := (h.linked.ticker_iff handle).mp hticker
    cases ha.symm.trans hb
    obtain ⟨generation, hpay⟩ := (h.linked.repeats_iff handle alarm ha).mp hticks.1
    obtain ⟨t, hleads, ht, halike⟩ :=
      h.event hr hi rfl (.tick h.phase_eq) trivial (by rintro ⟨⟩) h.phase_eq
    refine ⟨t, hleads, .inl ⟨h.problems_eq ▸ ht, halike.clock_eq, .inl ⟨?_, ?_⟩⟩⟩
    · rw [halike.round_eq]
      rfl
    · rw [halike.awaited_eq]
      exact awaited_ring_of_tick ha hpay due
  | @advance n order _ hmem hpurpose _ _ =>
    obtain ⟨b, order', hb, hw, hpay⟩ := (h.linked.pending_iff n handle).mp hmem
    cases ha.symm.trans hb
    have horder : order' = order :=
      (Purpose.advance.inj (hpay.symm.trans (Clock.payload_eq hpurpose ha))).2
    subst horder
    obtain ⟨before, after, hbefore, hafter⟩ :=
      awaited_ring_of_advance ha hpay hw (h.linked.level handle alarm ha) due
    rw [hfirst.due_eq] at hbefore
    obtain ⟨t, hleads, ⟨ht, hclock, hlt, hindex⟩ | ⟨ht, hlast⟩⟩ := h.advance hr hi hmem hpurpose
    · refine ⟨t, hleads, .inl ⟨ht, hclock, .inr ⟨before, after, order'.index, hbefore, ?_, hlt,
        hindex⟩⟩⟩
      rw [awaited, hclock]
      exact hafter
    · refine ⟨t, hleads, .inr ⟨ht, order'.index, ?_, hlast⟩⟩
      rw [hbefore]
      exact List.mem_append_right before List.mem_cons_self

/-- No advance that comes by a moment breaks the condition on the position of the round and on the
queue, unless it ends a round of that size. -/
def Keeps (I : Int → List (Int × Int) → Prop) (size moment : Int) : Prop :=
  ∀ index before after due x, I index (before ++ (due, x) :: after) → due ≤ moment → x + 1 < size →
    I (x + 1) (before ++ after)

/-- As far as the condition on the position of the round and on the queue goes, an advance that ends
a round of that size may come by a moment. -/
def LetsEnd (I : Int → List (Int × Int) → Prop) (size moment : Int) : Prop :=
  ∃ index waiting due x, I index waiting ∧ (due, x) ∈ waiting ∧ due ≤ moment ∧ size ≤ x + 1

section Time

variable {I : Int → List (Int × Int) → Prop} {size moment moment' : Int}

theorem Keeps.mono (h : Keeps I size moment) (hle : moment' ≤ moment) : Keeps I size moment' :=
  fun index before after due x hI hdue hx =>
    h index before after due x hI (Int.le_trans hdue hle) hx

theorem LetsEnd.mono (h : LetsEnd I size moment) (hle : moment ≤ moment') :
    LetsEnd I size moment' := by
  obtain ⟨index, waiting, due, x, hI, hmem, hdue, hx⟩ := h
  exact ⟨index, waiting, due, x, hI, hmem, Int.le_trans hdue hle, hx⟩

theorem Underway.arrive (h : Underway setup s problems reports) (target : Int) :
    Underway setup { s with clock := { s.clock with now := target } } problems reports where
  toPassive := ⟨h.onResult_eq, h.onChange_eq, h.onWording_eq, h.disposed_eq⟩
  linked := h.linked.of_eq rfl rfl rfl rfl
  disciplined := h.disciplined.of_eq rfl rfl (fun _ => id) rfl rfl rfl
  wellFormed := h.wellFormed
  beats := h.beats
  enabled_eq := h.enabled_eq
  phase_eq := h.phase_eq
  problems_eq := h.problems_eq
  reports_eq := h.reports_eq

variable (setup) in
/-- Once the round has ended, time passes and nothing else happens. -/
theorem Ended.elapse (h : Ended s reports) (target : Int) :
    ∃ t, LeadsTo setup s (.elapse target) t [] ∧ t.clock.now = target ∧ Ended t reports := by
  have harrive : LeadsTo setup s (.elapse target)
      { s with clock := { s.clock with now := target } } [] :=
    leadsTo_arrive fun i alarm ha hrun => absurd ⟨alarm, ha, hrun⟩ (h.not_runs i)
  exact ⟨_, harrive, rfl, ⟨h.onResult_eq, h.onChange_eq, h.onWording_eq, h.disposed_eq⟩, h.phase_eq,
    h.not_runs, h.reports_eq⟩

/-- **Time moves on to a moment.** What no advance breaks that comes by then still holds, and
nothing is awaited by then any more; or the round has ended. -/
theorem Underway.elapse (h : Underway setup s problems reports) (hr : Reliable setup)
    (hI : I s.round.index s.awaited) (hkeep : Keeps I problems.length target) :
    ∃ t, LeadsTo setup s (.elapse target) t [] ∧ t.clock.now = target ∧
      ((Underway setup t problems reports ∧ I t.round.index t.awaited ∧
          ∀ w ∈ t.awaited, target < w.1) ∨
        (Ended t reports ∧ LetsEnd I problems.length target)) := by
  -- by induction on the ringings to come
  generalize hrings : s.clock.ringsUntil target = k
  induction k using Nat.strongRecOn generalizing s with
  | ind k ih =>
    cases hnext : s.clock.earliest? target with
    | none =>
      have hlater := Clock.earliest?_eq_none_iff.mp hnext
      refine ⟨_, leadsTo_arrive hlater, rfl, .inl ⟨h.arrive target, hI, fun w hw => ?_⟩⟩
      obtain ⟨i, alarm, ha, hrun, hdue⟩ := exists_runs_of_mem_awaited (s := s) hw
      exact hdue ▸ hlater i alarm ha hrun
    | some next =>
      obtain ⟨handle, due⟩ := next
      obtain ⟨alarm, hfirst⟩ := Clock.earliest?_eq_some_iff.mp hnext
      obtain ⟨t, hleads, ⟨ht, hclock, hstep⟩ | ⟨ht, x, hmem, hlast⟩⟩ := h.ring hr hnext
      · have hI' : I t.round.index t.awaited := by
          rcases hstep with ⟨hindex, hawaited⟩ | ⟨before, after, x, hbefore, hafter, hlt, hindex⟩
          · rw [hindex, hawaited]
            exact hI
          · rw [hindex, hafter]
            exact hkeep _ before after due x (hbefore ▸ hI) hfirst.due_le hlt
        have hless : t.clock.ringsUntil target < k := by
          rw [hclock, ← hrings]
          exact Clock.ringsUntil_ring_lt h.beats hnext (Int.le_refl target)
        obtain ⟨u, hleads', hnow, hcases⟩ := ih _ hless ht hI' rfl
        exact ⟨u, hleads.trans hleads', hnow, hcases⟩
      · obtain ⟨u, hleads', hnow, hu⟩ := ht.elapse setup target
        exact ⟨u, hleads.trans hleads', hnow,
          .inr ⟨hu, _, _, due, x, hI, hmem, hfirst.due_le, hlast⟩⟩

variable (setup) in
/-- Moves are made one after the other, and none is broken off; with what they leave behind. -/
inductive Conveys : Sitting → List Move → Sitting → Prop
  | nil {s : Sitting} : Conveys s [] s
  | cons {s t u : Sitting} {m : Move} {moves : List Move} : Completes setup s m t none →
      Conveys t moves u → Conveys s (m :: moves) u

theorem Conveys.append {u : Sitting} {moves more : List Move} (h : Conveys setup s moves t)
    (h' : Conveys setup t more u) : Conveys setup s (moves ++ more) u := by
  induction h with
  | nil => exact h'
  | cons hm _ ih => exact .cons hm (ih h')

theorem Conveys.conducts {moves : List Move} (h : Conveys setup s moves t) (hne : moves ≠ []) :
    ∃ outcomes, Conducts setup s moves (outcomes ++ [(t, none)]) := by
  induction h with
  | nil => exact absurd rfl hne
  | @cons s u t m moves hm hrest ih =>
    cases hrest with
    | nil => exact ⟨[], .cons hm .nil⟩
    | cons hm' hrest' =>
      obtain ⟨outcomes, hall⟩ := ih (List.cons_ne_nil _ _)
      exact ⟨(u, none) :: outcomes, .cons hm hall⟩

variable (setup) in
theorem Ended.waits (h : Ended s reports) (waits : List Int) :
    ∃ t, Conveys setup s (waits.map .wait) t ∧ t.clock.now = s.clock.now + waits.sum ∧
      Ended t reports := by
  induction waits generalizing s with
  | nil => exact ⟨s, .nil, (Int.add_zero _).symm, h⟩
  | cons w ws ih =>
    obtain ⟨t, hleads, hnow, ht⟩ := h.elapse setup (s.clock.now + w)
    obtain ⟨u, hconveys, hnow', hu⟩ := ih ht
    refine ⟨u, .cons (leadsTo_wait.trans hleads).completes hconveys, ?_, hu⟩
    rw [hnow', hnow, List.sum_cons, Int.add_assoc]

/-- **Time passes wait by wait.** What no advance breaks that comes by the end still holds, and if
time has passed at all, nothing is awaited by then any more; or the round has ended. -/
theorem Underway.waits (h : Underway setup s problems reports) (hr : Reliable setup)
    (hI : I s.round.index s.awaited) {waits : List Int} (hnonneg : ∀ w ∈ waits, 0 ≤ w)
    (hkeep : Keeps I problems.length (s.clock.now + waits.sum)) :
    ∃ t, Conveys setup s (waits.map .wait) t ∧ t.clock.now = s.clock.now + waits.sum ∧
      ((Underway setup t problems reports ∧ I t.round.index t.awaited ∧
          (waits ≠ [] → ∀ w ∈ t.awaited, t.clock.now < w.1)) ∨
        (Ended t reports ∧ LetsEnd I problems.length (s.clock.now + waits.sum))) := by
  induction waits generalizing s with
  | nil => exact ⟨s, .nil, (Int.add_zero _).symm, .inl ⟨h, hI, fun hne => absurd rfl hne⟩⟩
  | cons w ws ih =>
    obtain ⟨hw, hws⟩ := List.forall_mem_cons.mp hnonneg
    have hsum : 0 ≤ ws.sum := List.sum_nonneg hws
    rw [List.sum_cons] at hkeep ⊢
    have hle : s.clock.now + w ≤ s.clock.now + (w + ws.sum) := by omega
    obtain ⟨t, hleads, hnow, ⟨ht, hI', hlater⟩ | ⟨ht, hends⟩⟩ := h.elapse hr hI (hkeep.mono hle)
    · have hall : t.clock.now + ws.sum = s.clock.now + (w + ws.sum) := by omega
      obtain ⟨u, hconveys, hnow', hcases⟩ := ih ht hI' hws (hall ▸ hkeep)
      refine ⟨u, .cons (leadsTo_wait.trans hleads).completes hconveys, by omega, ?_⟩
      rw [hall] at hcases
      refine hcases.imp_left fun ⟨hu, hI'', hafter⟩ => ⟨hu, hI'', fun _ => ?_⟩
      by_cases hnil : ws = []
      · subst hnil
        cases hconveys
        rw [hnow]
        exact hlater
      · exact hafter hnil
    · obtain ⟨u, hconveys, hnow', hu⟩ := ht.waits setup ws
      exact ⟨u, .cons (leadsTo_wait.trans hleads).completes hconveys, by omega,
        .inr ⟨hu, hends.mono hle⟩⟩

end Time

end Sitting

end TimedQuiz
