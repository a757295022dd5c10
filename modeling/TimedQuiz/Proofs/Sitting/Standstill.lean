import TimedQuiz.Proofs.Sitting.Effects
import TimedQuiz.Proofs.Sitting.Time
import TimedQuiz.Proofs.Sitting.Unattended

/-!
# Where time stands still

A ticker without an interval is due again as soon as it has rung. It is older than every advance
that is pending, so that nothing else ever rings while the round is played.

* `Clock.Stalls` — the alarm that rings next takes no time, and rings next for ever;
* `Standstill` — the ticker of a round that is played stops the clock, and without a round that is
  played no timer is set;
* `Standstill.moved`, `AtStandstill.step` — what an event and a task leave of that.

Main statement: `Reachable.atStandstill`. It is about sittings that are left to themselves, whose
ticker has no interval.
-/

namespace TimedQuiz

/-! ## Alarms that stop a clock -/

namespace Clock

variable {α : Type} {c : Clock α} {i : Nat} {a : Alarm α} {target : Int}

/-- The alarm at a position stops the clock: it repeats without an interval, is due now, and rings
before every other. -/
structure Stalls (c : Clock α) (i : Nat) (a : Alarm α) : Prop where
  at_position : c.alarms[i]? = some a
  ticks : a.Ticks
  interval_eq : a.interval = 0
  due_eq : a.due = c.now
  first : ∀ (j : Nat) (b : Alarm α), c.alarms[j]? = some b → b.running = true →
    i ≤ j ∧ c.now ≤ b.due

namespace Stalls

theorem earliest?_eq (h : c.Stalls i a) (hle : c.now ≤ target) :
    c.earliest? target = some (i, c.now) := by
  refine Clock.earliest?_eq_some_iff.mpr ⟨a, h.at_position, h.ticks.2, h.due_eq, hle,
    fun j b hb hrun => ?_⟩
  obtain ⟨hij, hdue⟩ := h.first j b hb hrun
  rcases Int.lt_or_eq_of_le hdue with hlt | heq
  · exact .inl hlt
  · exact .inr ⟨heq, hij⟩

theorem signal_eq (h : c.Stalls i a) : a.signal = a := by
  simp only [Alarm.signal, h.ticks.1]

/-- **Its ringing changes nothing.** -/
theorem ring_eq (h : c.Stalls i a) : (c.ring i c.now).1 = c := by
  have hdue : a.due + a.interval = a.due := by rw [h.interval_eq, Int.add_zero]
  have helapse : a.elapse = a := by
    calc a.elapse
        = { a with due := a.due + a.interval } := by simp only [Alarm.elapse, h.ticks.1]
      _ = a := by rw [hdue]
  have halarms : (c.ring i c.now).1.alarms = c.alarms := by
    apply List.ext_getElem?
    intro j
    rw [getElem?_ring]
    split
    · rename_i heq
      rw [← heq, h.at_position, Option.map_some, helapse, h.signal_eq]
    · rfl
  calc (c.ring i c.now).1
      = { now := c.now, alarms := (c.ring i c.now).1.alarms } := rfl
    _ = c := by rw [halarms]

/-- It still stops the clock when some alarm rings out of turn. -/
theorem signal (h : c.Stalls i a) (handle : Nat) : (c.signal handle).1.Stalls i a := by
  refine ⟨?_, h.ticks, h.interval_eq, h.due_eq, fun j b hb hrun => ?_⟩
  · rw [getElem?_signal, h.at_position]
    split
    · rw [Option.map_some, h.signal_eq]
    · rfl
  · rw [getElem?_signal] at hb
    split at hb
    · obtain ⟨b', hb', rfl⟩ := Option.map_eq_some_iff.mp hb
      have hsame := Alarm.signal_eq_of_running hrun
      rw [hsame] at hrun ⊢
      exact h.first j b' hb' hrun
    · exact h.first j b hb hrun

/-- It still stops the clock when another alarm is set. -/
theorem set (h : c.Stalls i a) {interval : Int} (hnonneg : 0 ≤ interval) (rec : Recurrence)
    (x : α) : (c.set rec interval x).Stalls i a := by
  refine ⟨getElem?_set_eq_some_iff.mpr (.inl h.at_position), h.ticks, h.interval_eq, h.due_eq,
    fun j b hb hrun => ?_⟩
  rcases getElem?_set_eq_some_iff.mp hb with hb | ⟨rfl, rfl⟩
  · exact h.first j b hb hrun
  · refine ⟨Nat.le_of_lt (List.getElem?_eq_some_iff.mp h.at_position).1, ?_⟩
    show c.now ≤ c.now + interval
    omega

end Stalls

end Clock

namespace Sitting

variable {setup : Setup} {s s' t : Sitting} {task : Task} {tasks rest after : List Task}
  {past : List (Agenda Sitting Task Fault)} {a : Agenda Sitting Task Fault} {e : Event}
  {moments more : List Int} {played played' : Prop}

/-! ## Time stands still while a round is played -/

/-- Time is on its way to no moment that is over; it stands still at the ticker of a round that is
played, and without one no alarm runs. -/
structure Standstill (s : Sitting) (moments : List Int) (played : Prop) : Prop where
  to_come : (s.clock.now :: moments).Pairwise (· ≤ ·)
  stalls : played → ∃ i alarm, s.clock.Stalls i alarm ∧ alarm.payload = .tick s.round.generation
  at_rest : ¬ played → s.ticker = none ∧ s.pending = []

namespace Standstill

theorem opening (sheets : Table (List Problem)) (onResult onChange onWording : List (List Move)) :
    Standstill (Sitting.opening sheets onResult onChange onWording) [] False :=
  ⟨List.pairwise_singleton _ _, nofun, fun _ => ⟨rfl, rfl⟩⟩

theorem congr (h : Standstill s moments played) (hiff : played ↔ played') :
    Standstill s moments played' :=
  ⟨h.to_come, fun hp => h.stalls (hiff.mpr hp), fun hp => h.at_rest (mt hiff.mp hp)⟩

theorem of_sublist (h : Standstill s moments played) (hsub : more.Sublist moments) :
    Standstill s more played :=
  { h with to_come := h.to_come.sublist (hsub.cons_cons _) }

theorem of_alike (h : Standstill s moments played) (heq : s.Alike s') :
    Standstill s' moments played := by
  refine ⟨?_, ?_, ?_⟩
  · rw [heq.clock_eq]; exact h.to_come
  · rw [heq.clock_eq, heq.round_eq]; exact h.stalls
  · rw [heq.ticker_eq, heq.pending_eq]; exact h.at_rest

theorem not_runs (h : Standstill s moments played) (hl : Linked s) (hp : ¬ played) (i : Nat) :
    ¬ s.clock.Runs i :=
  hl.not_runs (h.at_rest hp).1 (h.at_rest hp).2 i

/-- What a task does to the clock before an event takes effect leaves it standing where it does,
or no alarm runs and it moves on. -/
theorem passage (h : Standstill s (targets (task :: rest)) played) (hl : Linked s)
    {clock : Clock Purpose} (hp : s.Passage task clock moments)
    (hwait : ∀ ms, task = .move (.wait ms) → 0 ≤ ms ∧ rest = []) :
    (clock.now :: (moments ++ targets rest)).Pairwise (· ≤ ·) ∧
      ∀ i alarm, s.clock.Stalls i alarm → clock.Stalls i alarm := by
  have hcome := h.to_come
  cases hp with
  | still hne =>
    rw [targets_cons_of_ne hne] at hcome
    exact ⟨hcome, fun _ _ => id⟩
  | setsOut ms =>
    obtain ⟨hms, rfl⟩ := hwait ms rfl
    refine ⟨List.pairwise_pair.mpr ?_, fun _ _ => id⟩
    omega
  | @arrives target hnone =>
    replace hcome : (s.clock.now :: target :: targets rest).Pairwise (· ≤ ·) := hcome
    obtain ⟨hnow, hrest⟩ := List.pairwise_cons.mp hcome
    refine ⟨hrest, fun i alarm hs => ?_⟩
    rw [hs.earliest?_eq (hnow target List.mem_cons_self)] at hnone
    cases hnone
  | @rings target due handle hnext =>
    replace hcome : (s.clock.now :: target :: targets rest).Pairwise (· ≤ ·) := hcome
    have hnow := (List.pairwise_cons.mp hcome).1 target List.mem_cons_self
    have stands : ∀ i alarm, s.clock.Stalls i alarm → (s.clock.ring handle due).1 = s.clock := by
      intro i alarm hs
      rw [hs.earliest?_eq hnow] at hnext
      cases hnext
      exact hs.ring_eq
    refine ⟨?_, fun i alarm hs => (stands i alarm hs).symm ▸ hs⟩
    by_cases hplayed : played
    · obtain ⟨i, alarm, hs, -⟩ := h.stalls hplayed
      rw [stands i alarm hs]
      exact hcome
    · obtain ⟨b, hb⟩ := Clock.earliest?_eq_some_iff.mp hnext
      exact absurd ⟨b, hb.at_position, hb.running⟩ (h.not_runs hl hplayed handle)
  | struck handle => exact ⟨hcome, fun i alarm hs => hs.signal handle⟩

theorem taken (h : Standstill s (targets (task :: rest)) played) (hl : Linked s)
    (ht : s.Taken t) (hp : s.Passage task t.clock moments)
    (hwait : ∀ ms, task = .move (.wait ms) → 0 ≤ ms ∧ rest = []) :
    Standstill t (moments ++ targets rest) played := by
  obtain ⟨hcome, hstalls⟩ := h.passage hl hp hwait
  refine ⟨hcome, fun hplayed => ?_, fun hplayed => ⟨?_, ?_⟩⟩
  · obtain ⟨i, alarm, hs, hpay⟩ := h.stalls hplayed
    exact ⟨i, alarm, hstalls i alarm hs, ht.spared.round_eq ▸ hpay⟩
  · rw [ht.spared.ticker_eq]
    exact (h.at_rest hplayed).1
  · refine List.eq_nil_iff_forall_not_mem.mpr fun p hmem => ?_
    have hold := ht.spared.pending_subset p hmem
    rw [(h.at_rest hplayed).2] at hold
    cases hold

/-- All is stopped. -/
theorem stopped (h : Standstill t moments played) (round : Round) (hidle : ¬ played') :
    Standstill (t.moved setup round Round.stopAll) moments played' := by
  have hnow : (t.moved setup round Round.stopAll).clock.now = t.clock.now :=
    (renews_moved t round Round.stopAll).now_eq
  refine ⟨hnow ▸ h.to_come, fun hplayed => absurd hplayed hidle, fun _ => ?_⟩
  obtain ⟨clock, hs, -⟩ := moved_stopAll setup t round
  rw [hs]
  exact ⟨rfl, rfl⟩

/-- All is stopped, and the ticker that is set stops the clock. -/
theorem restarted (h : Standstill t moments played) (hl : Linked t)
    (hcancel : setup.honoursCancel = true) (htick : setup.rules.tickInterval = 0) (round : Round)
    (hplayed : played') :
    Standstill (t.moved setup round (Round.stopAll ++ [.startTicker round.generation])) moments
      played' := by
  have hnow : (t.moved setup round
      (Round.stopAll ++ [.startTicker round.generation])).clock.now = t.clock.now :=
    (renews_moved t round _).now_eq
  have hl' := hl.moved hcancel round (Round.stopAll ++ [.startTicker round.generation])
  refine ⟨hnow ▸ h.to_come, fun _ => ?_, fun hnot => absurd hplayed hnot⟩
  obtain ⟨clock, hs, -⟩ := moved_restart setup t round round.generation
  rw [hs] at hl' ⊢
  have hset : (clock.set .repeating setup.rules.tickInterval
      (.tick round.generation)).alarms[clock.nextHandle]? = some _ :=
    Clock.getElem?_set_eq_some_iff.mpr (.inr ⟨rfl, rfl⟩)
  have hdue : clock.now + setup.rules.tickInterval = clock.now := by rw [htick, Int.add_zero]
  refine ⟨clock.nextHandle, _, ⟨hset, ⟨rfl, rfl⟩, htick, hdue, fun j b hb hrun => ?_⟩, rfl⟩
  -- no other alarm runs
  have hj : clock.nextHandle = j := by
    cases hrec : b.recurrence with
    | repeating => exact Option.some.inj ((hl'.ticker_iff j).mpr ⟨b, hb, hrec, hrun⟩)
    | once =>
      obtain ⟨n, order, hmem, -⟩ := hl'.pending_of_waits hb ⟨hrec, hrun⟩
      cases hmem
  subst hj
  cases Option.some.inj (hset.symm.trans hb)
  exact ⟨Nat.le_refl _, Int.le_of_eq hdue.symm⟩

/-- **Every move of the round but a teardown** leaves time standing still at the ticker of an active
round, and no timer for any other. -/
theorem moved (h : Standstill t moments (t.round.phase = .active)) (hl : Linked t)
    (hcancel : setup.honoursCancel = true) (htick : setup.rules.tickInterval = 0)
    (hdelay : 0 ≤ setup.rules.advanceDelay)
    (hwf : t.round.WellFormed setup.rules setup.wording) {round : Round}
    {orders : List TimerOrder} {report : Option Report}
    (hm : Round.Moves setup.rules setup.wording t.round e round orders report)
    (he : e ≠ .teardown) :
    Standstill (t.moved setup round orders) moments (round.phase = .active) := by
  have completed : ∀ (problems : List Problem) (report : Report),
      (t.round.finished problems report).phase ≠ .active :=
    fun _ _ hactive => absurd (Round.phase_eq_active_iff.mp hactive).1 nofun
  -- a round that stays active keeps its generation, and with it its ticker
  have unordered : ∀ round : Round, t.round.phase = .active → round.phase = .active →
      round.generation = t.round.generation →
      Standstill (t.moved setup round []) moments (round.phase = .active) := by
    intro round hactive hphase hgen
    refine ⟨h.to_come, fun _ => ?_, fun hnot => absurd hphase hnot⟩
    obtain ⟨i, alarm, hs, hpay⟩ := h.stalls hactive
    exact ⟨i, alarm, hs, hpay.trans (congrArg _ hgen.symm)⟩
  cases hm with
  | load problems =>
    by_cases hnil : problems = []
    · subst hnil
      exact h.stopped _ fun hactive => absurd rfl (Round.phase_eq_active_iff.mp hactive).2
    · rw [if_neg (by simpa using hnil)]
      exact h.restarted hl hcancel htick _
        (Round.phase_eq_active_iff.mpr ⟨rfl, by simpa using hnil⟩)
  | retry hphase =>
    have hne := hwf.problems_ne_nil (Round.phase_eq_completed_iff.mp hphase)
    exact h.restarted hl hcancel htick _ (Round.phase_eq_active_iff.mpr ⟨rfl, by simpa using hne⟩)
  | submit id answer p hactive _ _ =>
    obtain ⟨hc, hne⟩ := Round.phase_eq_active_iff.mp hactive
    refine ⟨h.to_come, fun _ => ?_, fun hnot => absurd ?_ hnot⟩
    · obtain ⟨i, alarm, hs, hpay⟩ := h.stalls hactive
      exact ⟨i, alarm, hs.set hdelay .once _, hpay⟩
    · exact Round.phase_eq_active_iff.mpr ⟨hc, mt Round.answerFirst_eq_nil_iff.mp hne⟩
  | finish given report _ _ _ => exact h.stopped _ (completed _ _)
  | advanceToEnd order report _ _ _ _ _ => exact h.stopped _ (completed _ _)
  | advance order hactive _ _ => exact unordered _ hactive hactive rfl
  | back hactive _ => exact unordered _ hactive hactive rfl
  | forward hactive _ => exact unordered _ hactive hactive rfl
  | tick hactive => exact unordered _ hactive hactive rfl
  | teardown => exact absurd rfl he

end Standstill

/-! ## At every moment -/

/-- A round is played, and the sitting is neither over nor ending. -/
def Played (s : Sitting) (tasks : List Task) : Prop :=
  s.round.phase = .active ∧ s.disposed = false ∧ .retire ∉ tasks

/-- Time stands still if a round is played, and no timer is set otherwise. -/
def AtStandstill (a : Agenda Sitting Task Fault) : Prop :=
  Standstill a.state (targets a.tasks) (Played a.state a.tasks)

theorem played_iff (h : .retire ∉ tasks) :
    Played s tasks ↔ s.round.phase = .active ∧ s.disposed = false :=
  ⟨fun hp => ⟨hp.1, hp.2.1⟩, fun hp => ⟨hp.1, hp.2, h⟩⟩

theorem retire_not_mem_of_elapse (h : ∀ t ∈ after, ∃ target, t = .elapse target) :
    .retire ∉ after := by
  intro hmem
  obtain ⟨target, heq⟩ := h _ hmem
  cases heq

/-- What leaves the round alone and the sitting going leaves time standing where it does. -/
theorem Standstill.onward (h : Standstill t (targets after ++ targets rest) (Played s tasks))
    (hround : t.round = s.round) (hdisposed : t.disposed = s.disposed) (hold : .retire ∉ tasks)
    (hnew : .retire ∉ after ++ rest) (fault : Option Fault) :
    AtStandstill { state := t, tasks := after ++ rest, fault } := by
  have hsame : Standstill t (targets (after ++ rest)) (Played s tasks) := by
    rw [targets_append]
    exact h
  refine hsame.congr ?_
  rw [played_iff hold, played_iff hnew, hround, hdisposed]

/-- The same where nothing is to be done any more. -/
theorem Standstill.broken (h : Standstill t moments (Played s tasks))
    (hround : t.round = s.round) (hdisposed : t.disposed = s.disposed) (hold : .retire ∉ tasks)
    (fault : Option Fault) : AtStandstill { state := t, tasks := [], fault } := by
  have hnone : Standstill t (targets [] ++ targets []) (Played s tasks) :=
    h.of_sublist (List.nil_sublist _)
  exact hnone.onward hround hdisposed hold List.not_mem_nil fault

section Next

variable (hcancel : setup.honoursCancel = true) (htick : setup.rules.tickInterval = 0)
  (hdelay : 0 ≤ setup.rules.advanceDelay)

include hcancel htick hdelay

/-- An event that moves the round leaves time standing still at its ticker, or no timer. -/
theorem Standstill.next_of_moved (h : Standstill t (targets after ++ targets rest)
      (Played s (task :: rest))) (hi : s.intake task = .event t e after)
    (hu : Unattended s (task :: rest)) (hl : Linked t)
    (hwf : s.round.WellFormed setup.rules setup.wording) (hopen : s.disposed = false)
    (hstay : .retire ∉ task :: rest) {round : Round} {orders : List TimerOrder}
    {report : Option Report}
    (ho : (s.round.next setup.rules setup.wording e).outcome = .ok (.moved round orders report)) :
    AtStandstill ((perform setup task s).agenda rest) := by
  obtain ⟨ht, -, hd⟩ := (takesUp_of_intake hi).taken_of_event
  have hresult := ht.spared.onResult_eq.trans hu.onResult_eq
  rw [perform_of_moved hi hu.onWording_eq hopen ho, heeded_eq_nil setup hresult]
  have halike := alike_afterMove setup t (s.round.next setup.rules setup.wording e).entries round
    orders report
  have hdisposed : ((t.record (s.round.next setup.rules setup.wording e).entries).afterMove setup
      round orders report).disposed = t.disposed := afterMove_disposed ..
  generalize (t.record (s.round.next setup.rules setup.wording e).entries).afterMove setup round
    orders report = u at halike hdisposed
  have htargets : targets (setup.announcement ++ after ++ rest) =
      targets after ++ targets rest := by
    rw [List.append_assoc, targets_append, targets_append, targets_announcement, List.nil_append]
  show Standstill u (targets (setup.announcement ++ after ++ rest))
    (Played u (setup.announcement ++ after ++ rest))
  rw [htargets]
  have hm := Round.moves_of_next ho
  rcases (takesUp_of_intake hi).elapse_of_event with ⟨-, rfl, rfl, -⟩ | ⟨hne, hafter⟩
  · cases hm with
    | teardown => exact (h.stopped _ fun hp => hp.2.2 (by simp)).of_alike halike
  · have hround := ht.spared.round_eq
    have hactive : Standstill t (targets after ++ targets rest) (t.round.phase = .active) := by
      refine h.congr ?_
      rw [played_iff hstay, hround, hopen]
      simp
    have hmoved := (hactive.moved hl hcancel htick hdelay (hround ▸ hwf) (hround ▸ hm)
      hne).of_alike halike
    have hquiet : .retire ∉ setup.announcement := fun hmem => by
      cases Setup.eq_announce_of_mem hmem
    have hstay' : .retire ∉ setup.announcement ++ after ++ rest :=
      List.not_mem_append (List.not_mem_append hquiet (retire_not_mem_of_elapse hafter))
        fun hmem => hstay (List.mem_cons_of_mem task hmem)
    have hphase : u.round = round := halike.round_eq.trans (moved_round ..)
    have hopen' : u.disposed = false := hdisposed.trans (hd.trans hopen)
    refine hmoved.congr ?_
    rw [played_iff hstay', hphase, hopen']
    simp

theorem Standstill.next_of_event (h : Standstill t (targets after ++ targets rest)
      (Played s (task :: rest))) (hi : s.intake task = .event t e after)
    (hu : Unattended s (task :: rest)) (hl : Linked t)
    (hwf : s.round.WellFormed setup.rules setup.wording) (hstay : .retire ∉ task :: rest) :
    AtStandstill ((perform setup task s).agenda rest) := by
  have htakes := takesUp_of_intake hi
  obtain ⟨ht, -, hd⟩ := htakes.taken_of_event
  have hround := ht.spared.round_eq
  have hrest : .retire ∉ rest := fun hmem => hstay (List.mem_cons_of_mem task hmem)
  cases hopen : s.disposed with
  | true =>
    -- nothing reaches the round once the sitting is over
    rw [perform, hi, pursue, react, if_pos (hd.trans hopen)]
    rcases htakes.elapse_of_event with ⟨-, -, -, hnot⟩ | ⟨-, hafter⟩
    · rw [hopen] at hnot
      cases hnot
    · exact h.onward hround hd hstay (List.not_mem_append (retire_not_mem_of_elapse hafter) hrest) _
  | false =>
    have hevent : perform setup task s =
        ((t.record (s.round.next setup.rules setup.wording e).entries).effect setup
          (s.round.next setup.rules setup.wording e).outcome).andThen after := by
      rw [perform, hi, pursue, react_of_silent setup
        (ht.spared.onWording_eq.trans hu.onWording_eq) (hd.trans hopen), hround]
    have hrecord : Standstill (t.record (s.round.next setup.rules setup.wording e).entries)
        (targets after ++ targets rest) (Played s (task :: rest)) :=
      h.of_alike ⟨rfl, rfl, rfl, rfl⟩
    cases ho : (s.round.next setup.rules setup.wording e).outcome with
    | error fault =>
      rw [hevent, ho]
      exact hrecord.broken hround hd hstay _
    | ok transition =>
      cases transition with
      | ignored =>
        rw [hevent, ho]
        rcases htakes.elapse_of_event with ⟨-, rfl, -, -⟩ | ⟨-, hafter⟩
        · cases ho
        · exact hrecord.onward hround hd hstay
            (List.not_mem_append (retire_not_mem_of_elapse hafter) hrest) _
      | moved round orders report =>
        exact h.next_of_moved hcancel htick hdelay hi hu hl hwf hopen hstay ho

/-- **Doing a task** while the sitting is not ending leaves time standing still at the ticker of a
round that is played, and no timer where none is. -/
theorem Standstill.next
    (h : Standstill s (targets (task :: rest)) (Played s (task :: rest)))
    (hu : Unattended s (task :: rest)) (hl : Linked s)
    (hwf : s.round.WellFormed setup.rules setup.wording) (hstay : .retire ∉ task :: rest)
    (hwait : ∀ ms, task = .move (.wait ms) → 0 ≤ ms ∧ rest = []) :
    AtStandstill ((perform setup task s).agenda rest) := by
  cases hi : s.intake task with
  | rest u outcome entries =>
    cases takesUp_of_intake hi
    exact absurd List.mem_cons_self (hu.quiet.not_held _ _)
  | failed u fault =>
    cases takesUp_of_intake hi
    rw [perform, hi]
    exact h.broken rfl rfl hstay _
  | aside u after =>
    have htakes := takesUp_of_intake hi
    obtain ⟨ht, hd⟩ := htakes.taken_of_aside
    have hne : task ≠ .retire := fun heq => hstay (heq ▸ List.mem_cons_self)
    have hafter : .retire ∉ after := by
      by_cases heq : task = .announce
      · subst heq
        cases hi
        rw [hu.announce_snd]
        exact List.not_mem_nil
      · exact retire_not_mem_of_elapse (htakes.elapse_of_aside heq)
    rw [perform, hi]
    exact (h.taken hl ht htakes.passage_of_aside hwait).onward ht.spared.round_eq (hd hne) hstay
      (List.not_mem_append hafter fun hmem => hstay (List.mem_cons_of_mem task hmem)) _
  | event u e after =>
    have htakes := takesUp_of_intake hi
    have ht := htakes.taken_of_event.1
    exact (h.taken hl ht htakes.passage_of_event hwait).next_of_event hcancel htick hdelay hi hu
      (hl.taken ht) hwf hstay

end Next

/-- The client is about to wait a negative time. -/
def waitsBack : List Task → Bool
  | .move (.wait ms) :: _ => decide (ms < 0)
  | _ => false

namespace AtStandstill

/-- Nothing is under way before the first call. -/
theorem opening (sheets : Table (List Problem)) :
    AtStandstill { state := Sitting.opening sheets [] [], tasks := [] } := by
  refine (Standstill.opening sheets [] [] []).congr (iff_of_false id fun hp => ?_)
  exact absurd rfl (Round.phase_eq_active_iff.mp hp.1).2

theorem call (h : AtStandstill { state := s, tasks := [] }) (houter : task.Outer) :
    AtStandstill { state := s, tasks := [task] } := by
  have hstay : .retire ∉ [task] := by
    intro hmem
    cases List.mem_singleton.mp hmem
    cases houter
  have hnone : targets [task] = [] := by cases houter <;> rfl
  show Standstill s (targets [task]) (Played s [task])
  rw [hnone]
  exact h.congr ((played_iff List.not_mem_nil).trans (played_iff hstay).symm)

theorem step (h : AtStandstill a) (hcancel : setup.honoursCancel = true)
    (htick : setup.rules.tickInterval = 0) (hdelay : 0 ≤ setup.rules.advanceDelay)
    (hu : Unattended a.state a.tasks) (hl : Linked a.state)
    (hwf : a.state.round.WellFormed setup.rules setup.wording)
    (hforward : waitsBack a.tasks = false) : AtStandstill (a.step (perform setup)) := by
  obtain ⟨s, tasks, fault⟩ := a
  cases hu.lone with
  | @outer task houter =>
    refine h.next hcancel htick hdelay hu hl hwf (fun hmem => ?_) fun ms heq => ⟨?_, rfl⟩
    · cases List.mem_singleton.mp hmem
      cases houter
    · subst heq
      simpa [waitsBack] using hforward
  | passing hall =>
    cases tasks with
    | nil => exact h
    | cons task rest =>
      refine h.next hcancel htick hdelay hu hl hwf (fun hmem => ?_) fun ms heq => ?_
      · cases hall _ hmem
      · subst heq
        cases hall _ List.mem_cons_self
  | closing =>
    have hstep : Agenda.step (perform setup) ⟨s, [.announce, .retire], fault⟩ =
        ⟨s.announce.1, s.announce.2 ++ [.retire], none⟩ := rfl
    rw [hstep, hu.announce_snd]
    have halike : Standstill s.announce.1 [] _ := h.of_alike ⟨rfl, rfl, rfl, rfl⟩
    exact halike.congr (iff_of_false (fun hp => hp.2.2 (by simp)) fun hp => hp.2.2 (by simp))
  | closed =>
    have halike : Standstill { s with disposed := true } [] _ :=
      h.of_alike ⟨rfl, rfl, rfl, rfl⟩
    exact halike.congr (iff_of_false (fun hp => hp.2.2 (by simp)) fun hp => nomatch hp.2.1)

end AtStandstill

/-- **Time stands still at the ticker of a round that is played**, where the ticker has no interval;
without one no timer is set. -/
theorem Reachable.atStandstill {sheets : Table (List Problem)}
    (h : Reachable setup (Sitting.opening sheets [] []) past a)
    (hcancel : setup.honoursCancel = true) (htick : setup.rules.tickInterval = 0)
    (hdelay : 0 ≤ setup.rules.advanceDelay) (hforward : ∀ b ∈ past, waitsBack b.tasks = false) :
    AtStandstill a := by
  refine h.guided (P := fun _ s tasks => Standstill s (targets tasks) (Played s tasks)) hforward
    (AtStandstill.opening sheets) ?_ ?_
  · exact fun _ _ _ _ hstand houter => AtStandstill.call hstand houter
  · rintro past b hreach hforward hstand
    exact AtStandstill.step hstand hcancel htick hdelay hreach.unattended
      (hreach.linked hcancel (.opening ..)) (hreach.steady (steady_opening ..)).round hforward

end Sitting

end TimedQuiz
