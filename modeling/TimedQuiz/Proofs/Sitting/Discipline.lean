import TimedQuiz.Proofs.Sitting.Timers
import TimedQuiz.Proofs.Sitting.WellFormed

/-!
# Timer discipline

* `Disciplined` — the ticker and the pending advances are those of the round as it stands;
* `Final` — an event that is held up will end the round;
* `Untroubled` — nothing that is to come breaks off;
* `Orderly` — what holds at every moment, also while an event is under way;
* `TimersInOrder` — the alarms that run when nothing is under way.

Main statement: `Reachable.timers_in_order`. The alarms have to honour that they are cancelled, and
nobody may give up: a fault in the middle of the end of a sitting would leave a round without its
timers.
-/

namespace TimedQuiz

namespace Sitting

variable {setup : Setup} {s s' : Sitting} {task : Task} {rest first : List Task}
  {past : List (Agenda Sitting Task Fault)} {a : Agenda Sitting Task Fault}

/-! ## The timers of the round as it stands -/

/-- The ticker and the pending advances are those of the round as it stands. -/
structure Disciplined (s : Sitting) : Prop where
  active : s.round.phase = .active →
    ∃ i, s.ticker = some i ∧ s.clock.purposes[i]? = some (.tick s.round.generation)
  idle : s.round.phase ≠ .active → s.ticker = none ∧ s.pending = []
  orders : ∀ n i, (n, i) ∈ s.pending → ∃ order, s.clock.purposes[i]? = some (.advance n order) ∧
    order.generation = s.round.generation ∧ order.count = s.round.size ∧
    0 ≤ order.index ∧ order.index < order.count

namespace Disciplined

/-- What leaves the ticker, the purposes and the measures of the round alone, and adds no advance,
keeps the discipline. -/
theorem of_eq (h : Disciplined s) (hticker : s'.ticker = s.ticker)
    (hpurposes : s'.clock.purposes = s.clock.purposes) (hpending : ∀ p ∈ s'.pending, p ∈ s.pending)
    (hphase : s'.round.phase = s.round.phase) (hgen : s'.round.generation = s.round.generation)
    (hsize : s'.round.size = s.round.size) : Disciplined s' := by
  refine ⟨fun ha => ?_, fun hi => ⟨?_, ?_⟩, fun n i hmem => ?_⟩
  · rw [hticker, hpurposes, hgen]
    exact h.active (hphase ▸ ha)
  · rw [hticker]
    exact (h.idle (hphase ▸ hi)).1
  · refine List.eq_nil_iff_forall_not_mem.mpr fun p hp => ?_
    have hmem := hpending p hp
    rw [(h.idle (hphase ▸ hi)).2] at hmem
    cases hmem
  · rw [hpurposes, hgen, hsize]
    exact h.orders n i (hpending _ hmem)

theorem taken (h : Disciplined s) (ht : s.Taken s') : Disciplined s' := by
  have hs := ht.spared
  exact h.of_eq hs.ticker_eq hs.purposes_eq hs.pending_subset (by rw [hs.round_eq])
    (by rw [hs.round_eq]) (by rw [hs.round_eq])

/-- A round that is not active has no timers. -/
theorem stopped (s : Sitting) {round : Round} (hphase : round.phase ≠ .active) :
    Disciplined (s.moved setup round Round.stopAll) := by
  obtain ⟨clock, h, -⟩ := moved_stopAll setup s round
  rw [h]
  exact ⟨fun ha => absurd ha hphase, fun _ => ⟨rfl, rfl⟩,
    fun _ _ hmem => absurd hmem List.not_mem_nil⟩

/-- A round that becomes active has a ticker, and no advances. -/
theorem restarted (s : Sitting) {round : Round} (hphase : round.phase = .active) :
    Disciplined (s.moved setup round (Round.stopAll ++ [.startTicker round.generation])) := by
  obtain ⟨clock, h, -⟩ := moved_restart setup s round round.generation
  rw [h]
  exact ⟨fun _ => ⟨_, rfl, Clock.getElem?_purposes_set_nextHandle ..⟩,
    fun hn => absurd hphase hn, fun _ _ hmem => absurd hmem List.not_mem_nil⟩

theorem scheduled (h : Disciplined s) {round : Round} (hactive : s.round.phase = .active)
    (hphase : round.phase = .active) (hgen : round.generation = s.round.generation)
    (hsize : round.size = s.round.size) (h0 : 0 ≤ s.round.index)
    (hlt : s.round.index < s.round.size) :
    Disciplined (s.moved setup round [.scheduleAdvance s.round.nextAdvance]) := by
  refine ⟨fun _ => ?_, fun hn => absurd hphase hn, fun n i hmem => ?_⟩
  · obtain ⟨i, ht, hi⟩ := h.active hactive
    exact ⟨i, ht, Clock.getElem?_purposes_set (hgen ▸ hi) ..⟩
  · rcases List.mem_append.mp hmem with hmem | hmem
    · obtain ⟨order, hi, hg, hc, hrange⟩ := h.orders n i hmem
      exact ⟨order, Clock.getElem?_purposes_set hi .., hg.trans hgen.symm, hc.trans hsize.symm,
        hrange⟩
    · cases List.mem_singleton.mp hmem
      exact ⟨s.round.nextAdvance, Clock.getElem?_purposes_set_nextHandle .., hgen.symm, hsize.symm,
        h0, hlt⟩

/-- **Every move of the round but a teardown sets the timers right.** -/
theorem moved (h : Disciplined s) {rules : HouseRules} {wording : Wording}
    (hwf : s.round.WellFormed rules wording) {e : Event} {round : Round}
    {orders : List TimerOrder} {report : Option Report}
    (hm : Round.Moves rules wording s.round e round orders report) (he : e ≠ .teardown) :
    Disciplined (s.moved setup round orders) := by
  cases hm with
  | load problems =>
    by_cases hnil : problems = []
    · subst hnil
      refine stopped s fun ha => ?_
      exact absurd rfl (Round.phase_eq_active_iff.mp ha).2
    · rw [if_neg (by simpa using hnil)]
      exact restarted s (Round.phase_eq_active_iff.mpr ⟨rfl, by simpa using hnil⟩)
  | submit id answer p hactive _ _ =>
    obtain ⟨hc, hne⟩ := Round.phase_eq_active_iff.mp hactive
    refine h.scheduled hactive (Round.phase_eq_active_iff.mpr ⟨hc, fun hnil => hne ?_⟩) rfl
      (congrArg Nat.cast (Round.length_answerFirst ..)) hwf.index_nonneg (hwf.index_lt hne)
    exact Round.answerFirst_eq_nil_iff.mp hnil
  | finish given report _ _ _ =>
    exact stopped s fun ha => absurd (Round.phase_eq_active_iff.mp ha).1 nofun
  | advanceToEnd order report _ _ _ _ _ =>
    exact stopped s fun ha => absurd (Round.phase_eq_active_iff.mp ha).1 nofun
  | retry hphase =>
    have hne := hwf.problems_ne_nil (Round.phase_eq_completed_iff.mp hphase)
    exact restarted s (Round.phase_eq_active_iff.mpr ⟨rfl, by simpa using hne⟩)
  | advance order _ _ _ => exact h.of_eq rfl rfl (fun _ => id) rfl rfl rfl
  | back _ _ => exact h.of_eq rfl rfl (fun _ => id) rfl rfl rfl
  | forward _ _ => exact h.of_eq rfl rfl (fun _ => id) rfl rfl rfl
  | tick _ => exact h.of_eq rfl rfl (fun _ => id) rfl rfl rfl
  | teardown => exact absurd rfl he

end Disciplined

/-! ## The order of things at every moment -/

/-- An event that is held up does not break off, and if it moves the round, it ends it. -/
def Final (outcome : Except Fault Transition) : Prop :=
  (∃ t, outcome = .ok t) ∧ ∀ r orders report, outcome = .ok (.moved r orders report) →
    r.completed = true ∧ orders = Round.stopAll

/-- Nobody gives up, neither the listeners nor whoever makes the moves that are due, and an event
that is held up does not break off. -/
structure Untroubled (s : Sitting) (tasks : List Task) : Prop where
  calm_scripts : ∀ m ∈ s.scripted, m.Calm
  calm_tasks : ∀ m, .move m ∈ tasks → m.Calm
  held : ∀ outcome entries, .conclude outcome entries ∈ tasks → Final outcome

theorem Due.final {tasks after : List Task} {t : Sitting} {x : Recorded Transition} {key : String}
    (hw : setup.wording.Willing)
    (held : ∀ outcome entries, .conclude outcome entries ∈ tasks → Final outcome)
    (htask : task ∈ tasks) (hdue : Due setup t task after x) (hasked : .asked key ∈ x.entries) :
    Final x.outcome := by
  cases hdue with
  | event _ _ _ =>
    exact ⟨Round.next_ok setup.rules hw _, fun r orders report => Round.ends_of_asked hasked⟩
  | rest hx _ => exact held _ _ (hx ▸ htask)

namespace Untroubled

/-- With calm listeners and a willing wording nothing breaks off. -/
theorem not_failed (h : Untroubled s (task :: rest)) (hw : setup.wording.Willing) {fault : Fault}
    (hd : Does setup s task (.failed s' fault)) : False := by
  cases hd with
  | gaveUp htask =>
    subst htask
    exact h.calm_tasks _ List.mem_cons_self
  | broken _ hdue hx =>
    cases hdue with
    | event _ _ _ =>
      obtain ⟨t, ht⟩ := Round.next_ok setup.rules hw _
      rw [ht] at hx
      cases hx
    | rest htask _ =>
      subst htask
      obtain ⟨⟨t, ht⟩, -⟩ := h.held _ _ List.mem_cons_self
      rw [ht] at hx
      cases hx

theorem done (h : Untroubled s (task :: rest)) (hw : setup.wording.Willing)
    (hd : Does setup s task (.done s' first)) : Untroubled s' (first ++ rest) := by
  have hmoves : ∀ t ∈ first ++ rest, ∀ m, t = .move m → m.Calm :=
    hd.tasks_of (fun t hmem m heq => h.calm_tasks m (heq ▸ hmem))
      (fun t hfresh m heq => by
        subst heq
        cases hfresh with
        | move hm => exact h.calm_scripts m hm)
      fun _ _ _ _ _ _ _ _ _ _ => nofun
  exact ⟨fun m hm => h.calm_scripts m (hd.scripted_subset m hm), fun m hm => hmoves _ hm m rfl,
    hd.held_of h.held fun _ _ _ _ _ _ hdue => hdue.final hw h.held List.mem_cons_self⟩

end Untroubled

variable (setup) in
/-- What holds at every moment of a sitting whose listeners do not give up. The discipline is
missing only from the teardown to the end of the sitting, and afterwards. -/
structure Orderly (s : Sitting) (tasks : List Task) : Prop where
  steady : Steady setup s tasks
  linked : Linked s
  calm_scripts : ∀ m ∈ s.scripted, m.Calm
  calm_tasks : ∀ m, .move m ∈ tasks → m.Calm
  held : ∀ outcome entries, .conclude outcome entries ∈ tasks → Final outcome
  discipline : s.disposed = true ∨ .retire ∈ tasks ∨ Disciplined s

theorem Orderly.untroubled {tasks : List Task} (h : Orderly setup s tasks) : Untroubled s tasks :=
  ⟨h.calm_scripts, h.calm_tasks, h.held⟩

/-- The timers are in order as long as the sitting is neither over nor ending. -/
theorem Orderly.disciplined {tasks : List Task} (h : Orderly setup s tasks)
    (hopen : ¬ s.disposed = true) (hstay : .retire ∉ tasks) : Disciplined s :=
  (h.discipline.resolve_left hopen).resolve_left hstay

/-- Nothing brings a sitting back that is over or ending. -/
theorem ending_done (h : s.disposed = true ∨ .retire ∈ task :: rest)
    (hp : perform setup task s = .done s' first) :
    s'.disposed = true ∨ .retire ∈ first ++ rest := by
  rcases h with hover | hretire
  · left
    cases does_of_perform hp with
    | aside ht _ _ => exact ht.spared.disposed_of_disposed hover
    | @moved t _ _ _ r orders _ _ _ ht _ _ _ _ =>
      obtain ⟨c, p, n, k, hm⟩ := moved_frame setup t r orders
      rw [hm]
      exact ht.spared.disposed_of_disposed hover
    | held ht _ _ _ _ => exact ht.spared.disposed_of_disposed hover
  · rcases List.mem_cons.mp hretire with heq | hmem
    · subst heq
      cases hp
      exact .inl rfl
    · exact .inr (List.mem_append_right first hmem)

namespace Orderly

theorem opening {sheets : Table (List Problem)} {onResult onChange onWording : List (List Move)}
    (hcalm : ∀ m ∈ (Sitting.opening sheets onResult onChange onWording).scripted, m.Calm) :
    Orderly setup (Sitting.opening sheets onResult onChange onWording) [] := by
  refine ⟨steady_opening .., .opening .., hcalm, fun _ h => absurd h List.not_mem_nil,
    fun _ _ h => absurd h List.not_mem_nil, .inr (.inr ⟨fun ha => ?_, fun _ => ⟨rfl, rfl⟩,
      fun _ _ h => absurd h List.not_mem_nil⟩)⟩
  exact absurd rfl (Round.phase_eq_active_iff.mp ha).2

/-- Nothing breaks off. -/
theorem not_failed (h : Orderly setup s (task :: rest)) (hw : setup.wording.Willing)
    {fault : Fault} (hd : Does setup s task (.failed s' fault)) : False :=
  h.untroubled.not_failed hw hd

theorem discipline_done (h : Orderly setup s (task :: rest))
    (hp : perform setup task s = .done s' first) :
    s'.disposed = true ∨ .retire ∈ first ++ rest ∨ Disciplined s' := by
  have hd := does_of_perform hp
  rcases or_assoc.mpr h.discipline with hending | hdisc
  · exact or_assoc.mp (.inl (ending_done hending hp))
  · right
    cases hd with
    | aside ht _ _ => exact .inr (hdisc.taken ht)
    | held ht _ _ _ _ => exact .inr ((hdisc.taken ht).of_eq rfl rfl (fun _ => id) rfl rfl rfl)
    | @moved t first after x r orders report _ _ ht hdue hx _ _ =>
      cases hdue with
      | @event e _ _ hend =>
        by_cases he : e = .teardown
        · rw [hend he]
          exact .inl (by simp)
        · have hwf : t.round.WellFormed setup.rules setup.wording :=
            ht.spared.round_eq ▸ h.steady.round
          exact .inr (((hdisc.taken ht).moved hwf (Round.moves_of_next hx) he).of_eq rfl rfl
            (fun _ => id) rfl rfl rfl)
      | rest htask _ =>
        obtain ⟨-, hfinal⟩ := h.held x.outcome x.entries (htask ▸ List.mem_cons_self)
        obtain ⟨hc, rfl⟩ := hfinal _ _ _ hx
        refine .inr ((Disciplined.stopped t fun ha => ?_).of_eq rfl rfl (fun _ => id) rfl rfl rfl)
        rw [(Round.phase_eq_active_iff.mp ha).1] at hc
        cases hc

theorem done (h : Orderly setup s (task :: rest)) (hc : setup.honoursCancel = true)
    (hw : setup.wording.Willing) (hp : perform setup task s = .done s' first) :
    Orderly setup s' (first ++ rest) := by
  have hd := does_of_perform hp
  have hcalm := h.untroubled.done hw hd
  exact ⟨h.steady.done hd, h.linked.done hc hd, hcalm.calm_scripts, hcalm.calm_tasks, hcalm.held,
    h.discipline_done hp⟩

theorem call (h : Orderly setup s []) (houter : task.Outer) : Orderly setup s [task] := by
  refine ⟨h.steady.call houter, h.linked, h.calm_scripts, fun m hm => ?_, fun _ _ hm => ?_,
    h.discipline.imp_right fun hd => hd.imp_left fun hr => absurd hr List.not_mem_nil⟩
  · rw [← List.mem_singleton.mp hm] at houter
    cases houter with
    | move hcalm => exact hcalm
  · rw [← List.mem_singleton.mp hm] at houter
    cases houter

end Orderly

theorem Reachable.orderly {opening : Sitting} (h : Reachable setup opening past a)
    (hc : setup.honoursCancel = true) (hw : setup.wording.Willing)
    (hs : Orderly setup opening []) : Orderly setup a.state a.tasks :=
  h.invariant hs (fun _ _ hs => hs.call) (fun _ _ _ _ _ hs => hs.done hc hw)
    fun _ _ _ _ _ hs hp => (hs.not_failed hw (does_of_perform hp)).elim

/-! ## The result -/

/-- The alarms that run when nothing is under way. An active round has one ticker, of its own
generation; those that ring once are the pending advances, ordered for the round as it stands. -/
structure TimersInOrder (s : Sitting) : Prop where
  ticking : s.round.phase = .active → ∃ (i : Nat) (a : Alarm Purpose),
    s.clock.alarms[i]? = some a ∧ a.Ticks ∧ a.payload = .tick s.round.generation ∧
      ∀ (j : Nat) (b : Alarm Purpose), s.clock.alarms[j]? = some b → b.Ticks → j = i
  not_ticking : s.round.phase ≠ .active → ∀ (i : Nat) (a : Alarm Purpose),
    s.clock.alarms[i]? = some a → ¬ a.Ticks
  waiting_iff : ∀ i, (∃ a : Alarm Purpose, s.clock.alarms[i]? = some a ∧ a.Waits) ↔
    i ∈ s.pending.map (·.2)
  not_waiting : s.round.phase ≠ .active → ∀ (i : Nat) (a : Alarm Purpose),
    s.clock.alarms[i]? = some a → ¬ a.Waits
  orders : ∀ (i : Nat) (a : Alarm Purpose), s.clock.alarms[i]? = some a → a.Waits →
    ∃ n order, a.payload = .advance n order ∧ order.generation = s.round.generation ∧
      order.count = s.round.size ∧ 0 ≤ order.index ∧ order.index < order.count

theorem Disciplined.timersInOrder (h : Disciplined s) (hl : Linked s) : TimersInOrder s := by
  refine ⟨fun hactive => ?_, fun hidle i a ha ht => ?_, fun i => ⟨?_, ?_⟩,
    fun hidle i a ha hw => ?_, fun i a ha hw => ?_⟩
  · obtain ⟨i, hticker, hi⟩ := h.active hactive
    obtain ⟨a, ha, ht⟩ := (hl.ticker_iff i).mp hticker
    exact ⟨i, a, ha, ht, Clock.payload_eq hi ha, fun j b hb hb' => hl.ticks_unique hb ha hb' ht⟩
  · have hticker := (hl.ticker_iff i).mpr ⟨a, ha, ht⟩
    rw [(h.idle hidle).1] at hticker
    cases hticker
  · rintro ⟨a, ha, hw⟩
    obtain ⟨n, order, hmem, -⟩ := hl.pending_of_waits ha hw
    exact List.mem_map.mpr ⟨(n, i), hmem, rfl⟩
  · intro hi
    obtain ⟨⟨n, j⟩, hmem, rfl⟩ := List.mem_map.mp hi
    obtain ⟨a, order, ha, hw, -⟩ := (hl.pending_iff n j).mp hmem
    exact ⟨a, ha, hw⟩
  · obtain ⟨n, order, hmem, -⟩ := hl.pending_of_waits ha hw
    rw [(h.idle hidle).2] at hmem
    cases hmem
  · obtain ⟨n, order, hmem, hpay⟩ := hl.pending_of_waits ha hw
    obtain ⟨order', hi, hrest⟩ := h.orders n i hmem
    rw [Clock.payload_eq hi ha] at hpay
    cases hpay
    exact ⟨n, order, Clock.payload_eq hi ha, hrest⟩

/-- **The timers of a sitting are in order whenever nothing is under way**, until the sitting ends,
whatever its listeners and its wording do short of giving up or refusing a text. At no moment does
more than one repeating alarm run. -/
theorem Reachable.timers_in_order {sheets : Table (List Problem)}
    {onResult onChange onWording : List (List Move)} (hcancel : setup.honoursCancel = true)
    (hwording : setup.wording.Willing)
    (hcalm : ∀ m ∈ (Sitting.opening sheets onResult onChange onWording).scripted, m.Calm)
    (h : Reachable setup (Sitting.opening sheets onResult onChange onWording) past a) :
    (a.tasks = [] → a.state.disposed = false → TimersInOrder a.state) ∧
      ∀ (i j : Nat) (b c : Alarm Purpose), a.state.clock.alarms[i]? = some b →
        a.state.clock.alarms[j]? = some c → b.Ticks → c.Ticks → i = j := by
  have ho := h.orderly hcancel hwording (.opening hcalm)
  refine ⟨fun hidle hopen => ?_, fun i j b c hb hc => ho.linked.ticks_unique hb hc⟩
  rcases ho.discipline with hover | hretire | hd
  · rw [hopen] at hover
    cases hover
  · rw [hidle] at hretire
    cases hretire
  · exact hd.timersInOrder ho.linked

/-- One problem has been handed in and shown; the listener for results will start over. -/
theorem timersInOrder_after_present :
    ∃ past a, Reachable {} (Sitting.opening (Table.insert {} "sums" [{ id := 1, text := "2 + 3" }])
        [[.retry]] []) past a ∧
      a.state.round.phase = .active ∧ TimersInOrder a.state := by
  have opened : Reachable {} (Sitting.opening
      (Table.insert {} "sums" [{ id := 1, text := "2 + 3" }]) [[.retry]] []) [] _ := .start
  have shown := (opened.call (m := .present "sums" false) rfl trivial).step.step
  have calm : ∀ m ∈ (Sitting.opening (Table.insert {} "sums" [{ id := 1, text := "2 + 3" }])
      [[.retry]] []).scripted, m.Calm := by
    intro m hm
    cases List.mem_singleton.mp hm
    trivial
  exact ⟨_, _, shown, rfl,
    (Reachable.timers_in_order rfl (fun _ => ⟨_, rfl⟩) calm shown).1 rfl rfl⟩

end Sitting

end TimedQuiz
