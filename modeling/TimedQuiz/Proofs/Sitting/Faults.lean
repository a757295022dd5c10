import TimedQuiz.Proofs.Sitting.Disposal
import TimedQuiz.Proofs.Sitting.Effects

/-!
# What a fault leaves behind

A listener that gives up, or a text that is refused, breaks off all that is under way; what was done
before stays done. Every task sets the timers right before it calls anybody, so that this does no
harm, with one exception: the sitting ends only after the listener for changes has been called.

* `Attuned` — the timers that there are belong to the round as it stands;
* `TicksAlone` — one repeating alarm runs, for the present generation, and so are all advances;
* `WellTimed` — this is so exactly as long as the round is active and the sitting is not over;
* `BreaksOffEnd` — the next task fails while the sitting is ending.

Main statement: `Reachable.well_timed_unless_end_disturbed`. An end that is broken off leaves an
active round that nothing drives: `nothing_ticks_after_broken_end`.
-/

namespace TimedQuiz

namespace Sitting

variable {setup : Setup} {s s' : Sitting} {task : Task} {rest first : List Task} {e : Event}
  {round : Round} {orders : List TimerOrder} {report : Option Report}
  {past : List (Agenda Sitting Task Fault)} {a : Agenda Sitting Task Fault}

/-! ## Timers of the round as it stands -/

/-- The timers that there are belong to the round as it stands. It may be without any: so it is from
the teardown on. -/
structure Attuned (s : Sitting) : Prop where
  ticker : ∀ i, s.ticker = some i →
    s.round.phase = .active ∧ s.clock.purposes[i]? = some (.tick s.round.generation)
  orders : ∀ n i, (n, i) ∈ s.pending → s.round.phase = .active ∧
    ∃ order, s.clock.purposes[i]? = some (.advance n order) ∧
      order.generation = s.round.generation

theorem Disciplined.attuned (h : Disciplined s) : Attuned s := by
  refine ⟨fun i hticker => ?_, fun n i hmem => ?_⟩
  · have hactive : s.round.phase = .active := by
      by_contra hidle
      rw [(h.idle hidle).1] at hticker
      cases hticker
    obtain ⟨j, hj, hpurpose⟩ := h.active hactive
    rw [hticker] at hj
    cases hj
    exact ⟨hactive, hpurpose⟩
  · refine ⟨?_, ?_⟩
    · by_contra hidle
      rw [(h.idle hidle).2] at hmem
      cases hmem
    · obtain ⟨order, hpurpose, hgen, -⟩ := h.orders n i hmem
      exact ⟨order, hpurpose, hgen⟩

namespace Attuned

/-- What leaves the ticker, the purposes, the stage and the generation alone, and adds no advance,
keeps the timers attuned. -/
theorem of_eq (h : Attuned s) (hticker : s'.ticker = s.ticker)
    (hpurposes : s'.clock.purposes = s.clock.purposes) (hpending : ∀ p ∈ s'.pending, p ∈ s.pending)
    (hphase : s'.round.phase = s.round.phase) (hgen : s'.round.generation = s.round.generation) :
    Attuned s' := by
  refine ⟨fun i hi => ?_, fun n i hmem => ?_⟩
  · rw [hphase, hpurposes, hgen]
    exact h.ticker i (hticker ▸ hi)
  · rw [hphase, hpurposes, hgen]
    exact h.orders n i (hpending _ hmem)

theorem taken (h : Attuned s) (ht : s.Taken s') : Attuned s' := by
  have hs := ht.spared
  exact h.of_eq hs.ticker_eq hs.purposes_eq hs.pending_subset (by rw [hs.round_eq])
    (by rw [hs.round_eq])

/-- Where all is stopped, there are no timers. -/
theorem stopped (s : Sitting) (round : Round) : Attuned (s.moved setup round Round.stopAll) := by
  obtain ⟨clock, h, -⟩ := moved_stopAll setup s round
  rw [h]
  exact ⟨nofun, fun _ _ hmem => absurd hmem List.not_mem_nil⟩

theorem scheduled (h : Attuned s) (hactive : round.phase = .active)
    (hgen : round.generation = s.round.generation) :
    Attuned (s.moved setup round [.scheduleAdvance s.round.nextAdvance]) := by
  refine ⟨fun i hi => ⟨hactive, ?_⟩, fun n i hmem => ⟨hactive, ?_⟩⟩
  · exact Clock.getElem?_purposes_set (hgen ▸ (h.ticker i hi).2) ..
  · rcases List.mem_append.mp hmem with hmem | hmem
    · obtain ⟨-, order, hi, hg⟩ := h.orders n i hmem
      exact ⟨order, Clock.getElem?_purposes_set hi .., hg.trans hgen.symm⟩
    · cases List.mem_singleton.mp hmem
      exact ⟨s.round.nextAdvance, Clock.getElem?_purposes_set_nextHandle .., hgen.symm⟩

/-- **Every move of the round leaves the timers attuned**, a teardown too. -/
theorem moved (h : Attuned s) (hwf : s.round.WellFormed setup.rules setup.wording)
    (hm : Round.Moves setup.rules setup.wording s.round e round orders report) :
    Attuned (s.moved setup round orders) := by
  cases hm with
  | load problems =>
    by_cases hnil : problems = []
    · rw [if_pos (by simpa using hnil)]
      exact stopped s _
    · rw [if_neg (by simpa using hnil)]
      exact (Disciplined.restarted s
        (Round.phase_eq_active_iff.mpr ⟨rfl, by simpa using hnil⟩)).attuned
  | submit id answer p hactive _ _ =>
    obtain ⟨hc, hne⟩ := Round.phase_eq_active_iff.mp hactive
    exact h.scheduled (Round.phase_eq_active_iff.mpr
      ⟨hc, mt Round.answerFirst_eq_nil_iff.mp hne⟩) rfl
  | retry hphase =>
    have hne := hwf.problems_ne_nil (Round.phase_eq_completed_iff.mp hphase)
    exact (Disciplined.restarted s
      (Round.phase_eq_active_iff.mpr ⟨rfl, by simpa using hne⟩)).attuned
  | finish given report _ _ _ => exact stopped s _
  | advanceToEnd order report _ _ _ _ _ => exact stopped s _
  | teardown => exact stopped s _
  | advance order _ _ _ => exact h.of_eq rfl rfl (fun _ => id) rfl rfl
  | back _ _ => exact h.of_eq rfl rfl (fun _ => id) rfl rfl
  | forward _ _ => exact h.of_eq rfl rfl (fun _ => id) rfl rfl
  | tick _ => exact h.of_eq rfl rfl (fun _ => id) rfl rfl

/-- **A step leaves the timers attuned**, whether it fails or not. -/
theorem step (h : Attuned a.state) (hq : Quiet a.state a.tasks)
    (hwf : a.state.round.WellFormed setup.rules setup.wording) :
    Attuned (a.step (perform setup)).state := by
  unfold Agenda.step
  split
  · exact h
  · rename_i task rest htasks
    have hd : Does setup a.state task (perform setup task a.state) := perform_does a.state task
    generalize perform setup task a.state = v at hd
    cases hd with
    | aside ht _ _ => exact h.taken ht
    | gaveUp _ => exact h
    | broken ht _ _ => exact (h.taken ht).of_eq rfl rfl (fun _ => id) rfl rfl
    | held ht _ _ _ _ => exact (h.taken ht).of_eq rfl rfl (fun _ => id) rfl rfl
    | @moved t _ _ _ _ _ _ _ _ ht hdue hx _ _ =>
      cases hdue with
      | event _ _ _ =>
        have hwf' : t.round.WellFormed setup.rules setup.wording := ht.spared.round_eq ▸ hwf
        exact ((h.taken ht).moved hwf' (Round.moves_of_next hx)).of_eq rfl rfl (fun _ => id) rfl rfl
      | rest htask _ =>
        subst htask
        exact absurd (htasks ▸ List.mem_cons_self) (hq.not_held _ _)

end Attuned

/-- **The timers are attuned at every moment.** -/
theorem Reachable.attuned {sheets : Table (List Problem)} {onResult onChange : List (List Move)}
    (h : Reachable setup (opening sheets onResult onChange) past a) : Attuned a.state :=
  h.along (P := fun _ s => Attuned s) ⟨nofun, fun _ _ hmem => absurd hmem List.not_mem_nil⟩
    fun _ _ hreach hs => hs.step (hreach.quiet rfl) (hreach.steady (steady_opening ..)).round

/-! ## The alarms that run -/

/-- Exactly one repeating alarm runs, that of the present generation, and all that ring once and run
are those of advances of the present generation. -/
structure TicksAlone (s : Sitting) : Prop where
  ticking : ∃ (i : Nat) (alarm : Alarm Purpose), s.clock.alarms[i]? = some alarm ∧ alarm.Ticks ∧
    alarm.payload = .tick s.round.generation ∧
    ∀ (j : Nat) (other : Alarm Purpose), s.clock.alarms[j]? = some other → other.Ticks → j = i
  waiting : ∀ (i : Nat) (alarm : Alarm Purpose), s.clock.alarms[i]? = some alarm → alarm.Waits →
    ∃ n order, alarm.payload = .advance n order ∧ order.generation = s.round.generation

/-- The alarms run as they should for an active round exactly if the round is active and the sitting
is not over. -/
def WellTimed (s : Sitting) : Prop :=
  (s.round.phase = .active ∧ s.disposed = false) ↔ TicksAlone s

theorem Attuned.ticks (h : Attuned s) (hl : Linked s) {i : Nat} {alarm : Alarm Purpose}
    (ha : s.clock.alarms[i]? = some alarm) (ht : alarm.Ticks) :
    s.round.phase = .active ∧ alarm.payload = .tick s.round.generation := by
  obtain ⟨hactive, hpurpose⟩ := h.ticker i ((hl.ticker_iff i).mpr ⟨alarm, ha, ht⟩)
  exact ⟨hactive, Clock.payload_eq hpurpose ha⟩

theorem Attuned.waits (h : Attuned s) (hl : Linked s) {i : Nat} {alarm : Alarm Purpose}
    (ha : s.clock.alarms[i]? = some alarm) (hw : alarm.Waits) :
    s.round.phase = .active ∧
      ∃ n order, alarm.payload = .advance n order ∧ order.generation = s.round.generation := by
  obtain ⟨n, -, hmem, -⟩ := hl.pending_of_waits ha hw
  obtain ⟨hactive, order, hpurpose, hgen⟩ := h.orders n i hmem
  exact ⟨hactive, n, order, Clock.payload_eq hpurpose ha, hgen⟩

/-- With attuned timers the alarms run as they should for an active round if there is a ticker. -/
theorem Attuned.ticksAlone_iff (h : Attuned s) (hl : Linked s) :
    TicksAlone s ↔ s.ticker ≠ none := by
  constructor
  · rintro ⟨⟨i, alarm, ha, ht, -⟩, -⟩ hnone
    rw [(hl.ticker_iff i).mpr ⟨alarm, ha, ht⟩] at hnone
    cases hnone
  · intro hsome
    obtain ⟨i, hi⟩ := Option.ne_none_iff_exists'.mp hsome
    obtain ⟨alarm, ha, ht⟩ := (hl.ticker_iff i).mp hi
    exact ⟨⟨i, alarm, ha, ht, (h.ticks hl ha ht).2, fun j b hb hb' => hl.ticks_unique hb ha hb' ht⟩,
      fun j b hb hw => (h.waits hl hb hw).2⟩

/-! ## Active rounds without a ticker -/

/-- No move but a teardown leaves an active round without a ticker, unless it had none before. -/
theorem ticker_of_moved
    (hm : Round.Moves setup.rules setup.wording s.round e round orders report)
    (he : e ≠ .teardown) (hactive : round.phase = .active)
    (hnone : (s.moved setup round orders).ticker = none) :
    s.round.phase = .active ∧ s.ticker = none ∧ round.generation = s.round.generation := by
  have restarted : ∀ {round : Round}, round.phase = .active →
      (s.moved setup round (Round.stopAll ++ [.startTicker round.generation])).ticker ≠ none := by
    intro round hphase hnone
    have hd : Disciplined (s.moved setup round
        (Round.stopAll ++ [.startTicker round.generation])) := Disciplined.restarted s hphase
    obtain ⟨i, hi, -⟩ := hd.active (by rw [moved_round]; exact hphase)
    rw [hnone] at hi
    cases hi
  cases hm with
  | load problems =>
    have hne : problems ≠ [] := by simpa using (Round.phase_eq_active_iff.mp hactive).2
    rw [if_neg (by simpa using hne)] at hnone
    exact absurd hnone (restarted hactive)
  | retry _ => exact absurd hnone (restarted hactive)
  | teardown => exact absurd rfl he
  | finish given report _ _ _ => cases (Round.phase_eq_active_iff.mp hactive).1
  | advanceToEnd order report _ _ _ _ _ => cases (Round.phase_eq_active_iff.mp hactive).1
  | submit id answer p hphase _ _ => exact ⟨hphase, hnone, rfl⟩
  | advance order hphase _ _ => exact ⟨hphase, hnone, rfl⟩
  | back hphase _ => exact ⟨hphase, hnone, rfl⟩
  | forward hphase _ => exact ⟨hphase, hnone, rfl⟩
  | tick hphase => exact ⟨hphase, hnone, rfl⟩

/-- As long as the sitting is neither over nor ending, no task leaves an active round without a
ticker, unless it had none before. -/
theorem Quiet.ticker_of_done (hq : Quiet s (task :: rest))
    (hp : perform setup task s = .done s' first) (hstay : .retire ∉ first ++ rest)
    (hactive : s'.round.phase = .active) (hnone : s'.ticker = none) :
    s.round.phase = .active ∧ s.ticker = none ∧ s'.round.generation = s.round.generation := by
  have taken : ∀ {t : Sitting}, s.Taken t → t.round.phase = .active → t.ticker = none →
      s.round.phase = .active ∧ s.ticker = none ∧ t.round.generation = s.round.generation := by
    intro t ht hactive hnone
    rw [ht.spared.round_eq] at hactive ⊢
    exact ⟨hactive, ht.spared.ticker_eq ▸ hnone, rfl⟩
  cases does_of_perform hp with
  | aside ht _ _ => exact taken ht hactive hnone
  | held _ _ _ hw _ =>
    rw [hq.silent] at hw
    cases hw
  | @moved t first after x r orders _ _ _ ht hdue hx _ _ =>
    cases hdue with
    | rest htask _ =>
      subst htask
      exact absurd List.mem_cons_self (hq.not_held _ _)
    | @event e _ _ hend =>
      have he : e ≠ .teardown := fun he => hstay (by rw [hend he]; simp)
      have hround : (t.moved setup r orders).round = r := moved_round setup t r orders
      obtain ⟨hphase, hticker, hgen⟩ :=
        ticker_of_moved (Round.moves_of_next hx) he (hround ▸ hactive) hnone
      obtain ⟨hphase', hticker', hgen'⟩ := taken ht hphase hticker
      exact ⟨hphase', hticker', (congrArg Round.generation hround).trans (hgen.trans hgen')⟩

/-- What a task spares that fails. -/
theorem Does.spared_of_failed {fault : Fault} (hd : Does setup s task (.failed s' fault)) :
    s.Spared s' := by
  cases hd with
  | gaveUp _ => exact (Taken.refl s).spared
  | broken ht _ _ => exact (ht.withJournal _).spared

variable (setup) in
/-- The next task fails while the sitting is ending, so that it does not end. -/
def BreaksOffEnd (b : Agenda Sitting Task Fault) : Prop :=
  .retire ∈ b.tasks ∧ (b.step (perform setup)).fault ≠ none

/-- **An active round without a ticker is what an end leaves that was broken off**, unless the
sitting is over or ending. -/
theorem Reachable.end_broken_off {opening : Sitting} (h : Reachable setup opening past a)
    (hsilent : opening.onWording = []) (hstart : opening.round.phase ≠ .active)
    (hopen : a.state.disposed = false) (hstay : .retire ∉ a.tasks)
    (hactive : a.state.round.phase = .active) (hnone : a.state.ticker = none) :
    ∃ b ∈ past, BreaksOffEnd setup b ∧ b.state.round.generation = a.state.round.generation := by
  have extend : ∀ {past : List (Agenda Sitting Task Fault)} {c : Agenda Sitting Task Fault}
      {generation : Int}, (∃ b ∈ past, BreaksOffEnd setup b ∧
        b.state.round.generation = generation) →
      ∃ b ∈ c :: past, BreaksOffEnd setup b ∧ b.state.round.generation = generation := by
    rintro past c generation ⟨b, hb, hbroken⟩
    exact ⟨b, List.mem_cons_of_mem c hb, hbroken⟩
  induction h with
  | start => exact absurd hactive hstart
  | call _ hover _ ih => exact extend (ih hopen (hover ▸ List.not_mem_nil) hactive hnone)
  | ring handle _ hover ih => exact extend (ih hopen (hover ▸ List.not_mem_nil) hactive hnone)
  | @step past a hreach ih =>
    have hq := hreach.quiet hsilent
    obtain ⟨s, tasks, fault⟩ := a
    cases tasks with
    | nil => exact extend (ih hopen hstay hactive hnone)
    | cons task rest =>
      rw [Agenda.step_cons] at hopen hstay hactive hnone ⊢
      cases hv : perform setup task s with
      | done s' first =>
        rw [hv] at hopen hstay hactive hnone
        have hbefore : ¬ (s.disposed = true ∨ .retire ∈ task :: rest) := by
          intro hend
          rcases ending_done hend hv with hover | hretire
          · exact absurd (hopen.symm.trans hover) nofun
          · exact hstay hretire
        obtain ⟨hopen', hstay'⟩ := not_or.mp hbefore
        obtain ⟨hactive', hnone', hgen⟩ := hq.ticker_of_done hv hstay hactive hnone
        rw [show (Verdict.done s' first).agenda rest = { state := s', tasks := first ++ rest } from
          rfl, hgen]
        exact extend (ih (by simpa using hopen') hstay' hactive' hnone')
      | failed s' fault' =>
        rw [hv] at hopen hactive hnone
        have hspared := (does_of_perform hv).spared_of_failed
        have hgen : s.round.generation = s'.round.generation := by rw [hspared.round_eq]
        by_cases hretire : .retire ∈ task :: rest
        · -- the task was one of those before the end of the sitting, which is dropped with them
          refine ⟨_, List.mem_cons_self, ⟨hretire, ?_⟩, hgen⟩
          rw [Agenda.step_cons, hv]
          exact nofun
        · have hopen' : s.disposed = false := by
            by_contra hover
            have hover' := hspared.disposed_of_disposed (by simpa using hover)
            exact absurd (hopen.symm.trans hover') nofun
          rw [show (Verdict.failed s' fault').agenda rest =
            { state := s', tasks := [], fault := some fault' } from rfl, ← hgen]
          exact extend (ih hopen' hretire (hspared.round_eq ▸ hactive) (hspared.ticker_eq ▸ hnone))

/-! ## The result -/

/-- A fault leaves nothing under way. -/
theorem Reachable.over_of_fault {opening : Sitting} (h : Reachable setup opening past a)
    (hfault : a.fault ≠ none) : a.tasks = [] := by
  induction h with
  | start => rfl
  | call _ _ _ _ => exact absurd rfl hfault
  | ring _ _ _ _ => exact absurd rfl hfault
  | @step past a _ ih =>
    obtain ⟨s, tasks, fault⟩ := a
    cases tasks with
    | nil => rfl
    | cons task rest =>
      rw [Agenda.step_cons] at hfault ⊢
      cases hv : perform setup task s with
      | done s' first =>
        rw [hv] at hfault
        exact absurd rfl hfault
      | failed s' fault => rfl

/-- **The alarms are in order after every fault, and whenever else nothing is under way**, unless an
end of the sitting was disturbed. Whatever runs, runs for the active round as it stands, and at most
one alarm ticks; and an active round has its ticker until the sitting is over, unless a fault broke
off the end of the sitting in the present generation. What runs after the end was set by a listener
while the sitting was ending. -/
theorem Reachable.well_timed_unless_end_disturbed {sheets : Table (List Problem)}
    {onResult onChange : List (List Move)} (hcancel : setup.honoursCancel = true)
    (h : Reachable setup (opening sheets onResult onChange) past a)
    (hover : a.fault ≠ none ∨ a.tasks = []) :
    (∀ (i : Nat) (alarm : Alarm Purpose), a.state.clock.alarms[i]? = some alarm →
      alarm.running = true → a.state.round.phase = .active ∧
        (alarm.payload = .tick a.state.round.generation ∨
          ∃ n order, alarm.payload = .advance n order ∧
            order.generation = a.state.round.generation)) ∧
    (∀ (i j : Nat) (b c : Alarm Purpose), a.state.clock.alarms[i]? = some b →
      a.state.clock.alarms[j]? = some c → b.Ticks → c.Ticks → i = j) ∧
    (WellTimed a.state ∨
      (a.state.round.phase = .active ∧ a.state.disposed = false ∧
        (∀ (i : Nat) (alarm : Alarm Purpose), a.state.clock.alarms[i]? = some alarm →
          ¬ alarm.Ticks) ∧
        ∃ b ∈ past, BreaksOffEnd setup b ∧
          b.state.round.generation = a.state.round.generation) ∨
      (a.state.disposed = true ∧ ∃ i, a.state.clock.Runs i ∧ ∃ b ∈ past, .retire ∈ b.tasks ∧
        ∃ m ∈ (onResult ++ onChange).flatten, SetsNext setup b m i)) := by
  have hidle : a.tasks = [] := hover.elim h.over_of_fault id
  have hl := h.linked hcancel (.opening ..)
  have ht := h.attuned
  refine ⟨fun i alarm ha hrun => ?_, fun i j b c hb hc => hl.ticks_unique hb hc, ?_⟩
  · cases hrec : alarm.recurrence with
    | once =>
      obtain ⟨hactive, hwaits⟩ := ht.waits hl ha ⟨hrec, hrun⟩
      exact ⟨hactive, .inr hwaits⟩
    | repeating =>
      obtain ⟨hactive, hticks⟩ := ht.ticks hl ha ⟨hrec, hrun⟩
      exact ⟨hactive, .inl hticks⟩
  · have hiff := ht.ticksAlone_iff hl
    cases hticker : a.state.ticker with
    | none =>
      have hnot : ¬ TicksAlone a.state := fun halone => hiff.mp halone hticker
      by_cases hopen : a.state.round.phase = .active ∧ a.state.disposed = false
      · refine .inr (.inl ⟨hopen.1, hopen.2, fun i alarm ha hticks => ?_, ?_⟩)
        · rw [(hl.ticker_iff i).mpr ⟨alarm, ha, hticks⟩] at hticker
          cases hticker
        · exact h.end_broken_off rfl
            (fun hactive => (Round.phase_eq_active_iff.mp hactive).2 rfl) hopen.2
            (hidle ▸ List.not_mem_nil) hopen.1 hticker
      · exact .inl (iff_of_false hopen hnot)
    | some i =>
      have halone : TicksAlone a.state := hiff.mpr (by simp [hticker])
      cases hdisposed : a.state.disposed with
      | false => exact .inl (iff_of_true ⟨(ht.ticker i hticker).1, hdisposed⟩ halone)
      | true =>
        obtain ⟨alarm, ha, hticks⟩ := (hl.ticker_iff i).mp hticker
        have hrun : a.state.clock.Runs i := ⟨alarm, ha, hticks.2⟩
        obtain ⟨b, hb, hretire, m, hm, hset⟩ := h.set_since rfl (.opening ..) hcancel
          (fun _ ⟨_, ha, _⟩ => nomatch ha) (.inl hdisposed) hrun
        have hscripts : m ∈ (onResult ++ onChange).flatten := by
          simpa [scripted, opening] using hm
        exact .inr (.inr ⟨rfl, i, hrun, b, hb, hretire, m, hscripts, hset⟩)

/-- The listener for changes gives up as soon as it is shown the first round. -/
theorem well_timed_after_first_fault :
    ∃ past a, Reachable {} (opening (Table.insert {} "sums" [{ id := 1, text := "2 + 3" }])
        [] [[.giveUp "no"]]) past a ∧ a.fault ≠ none ∧ WellTimed a.state := by
  have opened : Reachable {} (opening (Table.insert {} "sums" [{ id := 1, text := "2 + 3" }])
      [] [[.giveUp "no"]]) [] _ := .start
  have broken := (opened.call (m := .present "sums" false) rfl trivial).step.step.step
  refine ⟨_, _, broken, nofun, ?_⟩
  rcases (broken.well_timed_unless_end_disturbed rfl (.inl nofun)).2.2 with
    htimed | ⟨-, -, hnone, -⟩ | ⟨hdisposed, -⟩
  · exact htimed
  · exact absurd ⟨rfl, rfl⟩ (hnone 0 _ rfl)
  · cases hdisposed

/-- **An end that is broken off leaves an active round that nothing drives**, and the sitting is not
over: the listener for changes gives up when it is called for the second time, while the sitting is
ending. -/
theorem nothing_ticks_after_broken_end :
    ∃ past a, Reachable {} (opening (Table.insert {} "sums" [{ id := 1, text := "2 + 3" }])
        [] [[], [.giveUp "no"]]) past a ∧ a.fault ≠ none ∧
      a.state.round.phase = .active ∧ a.state.disposed = false ∧ ¬ WellTimed a.state := by
  have opened : Reachable {} (opening (Table.insert {} "sums" [{ id := 1, text := "2 + 3" }])
      [] [[], [.giveUp "no"]]) [] _ := .start
  have shown := (opened.call (m := .present "sums" false) rfl trivial).step.step
  have broken := (shown.call (m := .dispose) rfl trivial).step.step.step
  refine ⟨_, _, broken, nofun, rfl, rfl, fun htimed => ?_⟩
  obtain ⟨⟨i, alarm, ha, hticks, -⟩, -⟩ := htimed.mp ⟨rfl, rfl⟩
  -- the only alarm is the ticker that was given up
  cases i with
  | zero =>
    cases ha
    cases hticks.2
  | succ i => cases ha

end Sitting

end TimedQuiz
