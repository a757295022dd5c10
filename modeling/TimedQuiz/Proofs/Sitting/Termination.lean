import TimedQuiz.Proofs.Sitting.Reach
import TimedQuiz.Proofs.Timing.Agenda
import TimedQuiz.Proofs.Timing.Ringing

/-!
# Moves come to an end

* `horizon` — the latest moment that time is to move on to;
* `Stops` — an event that is held up sets no alarm any more;
* `movesLeft`, `workLeft` — what is still to come.

Main statement: `exists_end` — whatever is under way comes to an end, also where alarms ring
although they are cancelled, and also where the wording acts before an event goes on. Every task
takes a move out of the scripts, or a call of the wording, or a ringing off the clock, or is done
with.
-/

namespace TimedQuiz

/-- What a task may bring up besides moves, and the task itself. -/
def Task.burden : Task → Nat
  | .move _ => 0
  | .announce => 1
  | .retire => 1
  | .elapse _ => 1
  | .ring _ => 2
  | .conclude .. => 2

namespace Sitting

variable {setup : Setup} {s s' : Sitting} {task : Task} {rest first : List Task}

/-! ## Repeating alarms take their time -/

theorem beats_carryOut (h : s.clock.Beats) (hint : 1 ≤ setup.rules.tickInterval)
    (order : TimerOrder) : (s.carryOut setup order).clock.Beats := by
  cases order with
  | scheduleAdvance order =>
    have honce : Recurrence.once = .repeating → 1 ≤ setup.rules.advanceDelay := nofun
    exact h.set honce _
  | cancelAdvances =>
    obtain ⟨clock, hs, hg⟩ := cancelAdvances_frame setup s
    rw [carryOut, hs]
    exact h.muted hg.1
  | startTicker generation =>
    obtain ⟨clock, hs, hg⟩ := stopTicker_frame setup s
    simp only [carryOut, startTicker, hs]
    exact (h.muted hg.1).set (fun _ => hint) _
  | stopTicker =>
    obtain ⟨clock, hs, hg⟩ := stopTicker_frame setup s
    rw [carryOut, hs]
    exact h.muted hg.1

theorem beats_moved (h : s.clock.Beats) (hint : 1 ≤ setup.rules.tickInterval) (round : Round)
    (orders : List TimerOrder) : (s.moved setup round orders).clock.Beats := by
  have hround : ({ s with round } : Sitting).clock.Beats := h
  unfold moved
  generalize { s with round } = t at hround
  induction orders generalizing t with
  | nil => exact hround
  | cons order orders ih => exact ih _ (beats_carryOut hround hint order)

theorem beats_taken (h : s.clock.Beats) (ht : s.Taken s') : s'.clock.Beats := by
  cases ht with
  | desk _ _ _ => exact h
  | time => exact h
  | unheard hs _ => exact h.sounds hs
  | @heard _ _ x _ hs _ => cases x <;> exact h.sounds hs

theorem beats_done (h : s.clock.Beats) (hint : 1 ≤ setup.rules.tickInterval)
    (hd : Does setup s task (.done s' first)) : s'.clock.Beats := by
  cases hd with
  | aside ht _ _ => exact beats_taken h ht
  | moved ht _ _ _ _ _ => exact beats_moved (beats_taken h ht) hint _ _
  | held ht _ _ _ _ _ =>
    have hbeats := beats_taken h ht
    exact hbeats

theorem beats_failed (h : s.clock.Beats) {fault : Fault}
    (hd : Does setup s task (.failed s' fault)) : s'.clock.Beats := by
  cases hd with
  | gaveUp _ => exact h
  | broken ht _ _ =>
    have hbeats := beats_taken h ht
    exact hbeats

theorem Reachable.beats {opening : Sitting} {past : List (Agenda Sitting Task Fault)}
    {a : Agenda Sitting Task Fault} (h : Reachable setup opening past a)
    (hint : 1 ≤ setup.rules.tickInterval) (hs : opening.clock.Beats) : a.state.clock.Beats :=
  h.invariant (I := fun s _ => s.clock.Beats) hs (fun _ _ hb _ => hb)
    (fun _ _ _ _ _ hb hp => beats_done hb hint (does_of_perform hp))
    fun _ _ _ _ _ hb hp => beats_failed hb (does_of_perform hp)

/-! ## The horizon -/

/-- The latest moment that time is to move on to, or zero. -/
def horizon (tasks : List Task) : Int :=
  tasks.foldr (fun task latest =>
    match task with
    | .elapse target => max target latest
    | _ => latest) 0

theorem horizon_le_iff {tasks : List Task} {moment : Int} :
    horizon tasks ≤ moment ↔ 0 ≤ moment ∧ ∀ target, .elapse target ∈ tasks → target ≤ moment := by
  induction tasks with
  | nil => simp [horizon]
  | cons task tasks ih =>
    cases task with
    | elapse target =>
      have heq : horizon (.elapse target :: tasks) = max target (horizon tasks) := rfl
      rw [heq, Int.max_le, ih]
      simp only [List.mem_cons, Task.elapse.injEq, forall_eq_or_imp]
      exact and_left_comm
    | move m => simpa [horizon] using ih
    | announce => simpa [horizon] using ih
    | retire => simpa [horizon] using ih
    | ring handle => simpa [horizon] using ih
    | conclude outcome entries => simpa [horizon] using ih

/-! ## What an alarm brings about -/

/-- What an alarm brings to the round sets no further alarm. -/
theorem orders_of_timed {rules : HouseRules} {wording : Wording} {r r' : Round} {e : Event}
    {orders : List TimerOrder} {report : Option Report}
    (hm : Round.Moves rules wording r e r' orders report)
    (he : (∃ order, e = .advance order) ∨ ∃ generation, e = .tick generation) :
    orders = [] ∨ orders = Round.stopAll := by
  cases hm with
  | advanceToEnd order report _ _ _ _ _ => exact .inr rfl
  | advance order _ _ _ => exact .inl rfl
  | tick _ => exact .inl rfl
  | load problems => rcases he with ⟨_, h⟩ | ⟨_, h⟩ <;> cases h
  | submit _ _ _ _ _ _ => rcases he with ⟨_, h⟩ | ⟨_, h⟩ <;> cases h
  | finish _ _ _ _ _ => rcases he with ⟨_, h⟩ | ⟨_, h⟩ <;> cases h
  | retry _ => rcases he with ⟨_, h⟩ | ⟨_, h⟩ <;> cases h
  | back _ _ => rcases he with ⟨_, h⟩ | ⟨_, h⟩ <;> cases h
  | forward _ _ => rcases he with ⟨_, h⟩ | ⟨_, h⟩ <;> cases h
  | teardown => rcases he with ⟨_, h⟩ | ⟨_, h⟩ <;> cases h

/-- What an event comes to sets no alarm. -/
def Stops (outcome : Except Fault Transition) : Prop :=
  ∀ r orders report, outcome = .ok (.moved r orders report) → orders = [] ∨ orders = Round.stopAll

/-- An event that the wording holds up ends the round, if anything. -/
theorem Due.stops {tasks after : List Task} {t : Sitting} {x : Recorded Transition} {key : String}
    (held : ∀ outcome entries, .conclude outcome entries ∈ tasks → Stops outcome)
    (htask : task ∈ tasks) (hdue : Due setup t task after x) (hasked : .asked key ∈ x.entries) :
    Stops x.outcome := by
  cases hdue with
  | event _ _ _ =>
    exact fun r orders report h => .inr (Round.ends_of_asked hasked h).2
  | rest hx _ => exact held _ _ (hx ▸ htask)

/-- What is still to be done beside moves. -/
def burdens (tasks : List Task) : Nat := (tasks.map Task.burden).sum

@[simp] theorem burdens_append (ts us : List Task) :
    burdens (ts ++ us) = burdens ts + burdens us := by
  simp [burdens]

@[simp] theorem burdens_moves (moves : List Move) : burdens (moves.map .move) = 0 := by
  induction moves with
  | nil => rfl
  | cons m moves ih =>
    show 0 + burdens (moves.map .move) = 0
    rw [ih]

/-- The tasks that an event brings up: moves of a listener, and at most one that is none. -/
structure Slight (first : List Task) : Prop where
  few : burdens first ≤ 1
  timeless : ∀ target, .elapse target ∉ first

theorem slight_nil : Slight [] := ⟨Nat.zero_le 1, fun _ => List.not_mem_nil⟩

theorem slight_moves (moves : List Move) : Slight (moves.map .move) := by
  refine ⟨by simp, fun target hmem => ?_⟩
  obtain ⟨m, -, h⟩ := List.mem_map.mp hmem
  cases h

/-- What comes of an event that sets no alarm: the wording has been called, or alarms are given up
at most, and little comes up. -/
def Eases (s : Sitting) (clock : Clock Purpose) (s' : Sitting) (first : List Task) : Prop :=
  s'.onWording.length < s.onWording.length ∨ (clock.Muted s'.clock ∧ Slight first)

theorem conclude_eases {outcome : Except Fault Transition} {entries : List Entry}
    (hstops : Stops outcome) (hp : s.conclude setup outcome entries = .done s' first) :
    Eases s s.clock s' first := by
  rcases conclude_cases setup s outcome entries with ⟨journal, heq⟩ | ⟨journal, _, _, _, moves,
    later, _, hw, heq⟩
  · right
    rw [heq] at hp
    cases ho : outcome with
    | error fault => rw [ho] at hp; cases hp
    | ok t =>
      rw [ho] at hp
      cases t with
      | ignored =>
        cases hp
        exact ⟨.refl _, slight_nil⟩
      | moved r orders report =>
        obtain ⟨journal', onResult, moves, heffect, -⟩ :=
          effect_moved setup { s with journal } r orders report
        rw [heffect] at hp
        cases hp
        constructor
        · rcases hstops r orders report ho with rfl | rfl
          · exact .refl _
          · obtain ⟨clock, hs, hg⟩ := moved_stopAll setup { s with journal } r
            rw [hs]
            exact hg.1
        · have hmoves := slight_moves moves
          constructor
          · rw [burdens_append, burdens_moves, Nat.zero_add]
            split <;> decide
          · intro target hmem
            rcases List.mem_append.mp hmem with hmem | hmem
            · exact hmoves.timeless target hmem
            · split at hmem
              · cases List.mem_singleton.mp hmem
              · cases hmem
  · left
    rw [heq] at hp
    cases hp
    rw [hw]
    exact Nat.lt_succ_self _

theorem react_eases {e : Event}
    (he : (∃ order, e = .advance order) ∨ ∃ generation, e = .tick generation)
    (hp : s.react setup e = .done s' first) : Eases s s.clock s' first := by
  by_cases hd : s.disposed = true
  · rw [react, if_pos hd] at hp
    cases hp
    exact .inr ⟨.refl _, slight_nil⟩
  · rw [react, if_neg hd] at hp
    exact conclude_eases
      (fun r orders report ho => orders_of_timed (Round.moves_of_next ho) he) hp

/-- An alarm that rings sets no other. -/
theorem hear_eases {clock : Clock Purpose} {x : Option Purpose} {after : List Task}
    (hp : pursue setup (s.hear after (clock, x)) = .done s' first) :
    ∃ before, first = before ++ after ∧ Eases s clock s' before := by
  cases x with
  | none =>
    cases hp
    exact ⟨[], rfl, .inr ⟨.refl _, slight_nil⟩⟩
  | some x =>
    have hclock : (s.withHeard clock x).clock = clock := by cases x <;> rfl
    have hwording : (s.withHeard clock x).onWording = s.onWording := by cases x <;> rfl
    have event : ∀ e, ((∃ order, e = .advance order) ∨ ∃ generation, e = .tick generation) →
        pursue setup (.event (s.withHeard clock x) e after) = .done s' first →
        ∃ before, first = before ++ after ∧ Eases s clock s' before := by
      intro e he h
      simp only [pursue] at h
      cases hr : (s.withHeard clock x).react setup e with
      | failed t fault => rw [hr] at h; cases h
      | done t before =>
        rw [hr] at h
        cases h
        have heases := react_eases he hr
        rw [Eases, hclock, hwording] at heases
        exact ⟨before, rfl, heases⟩
    rw [hear] at hp
    rcases deliver_eq s clock after x with h | ⟨number, order, -, -, h⟩ | ⟨-, h⟩
    · rw [h] at hp
      cases hp
      exact ⟨[], rfl, .inr ⟨by rw [record, hclock]; exact .refl _, slight_nil⟩⟩
    · rw [h] at hp
      exact event _ (.inl ⟨order, rfl⟩) hp
    · rw [h] at hp
      exact event _ (.inr ⟨_, rfl⟩) hp

/-! ## The end -/

/-- The moves still to come, and the calls of the wording. -/
def movesLeft (a : Agenda Sitting Task Fault) : Nat :=
  a.tasks.countP Task.isMove + a.state.scripted.length + a.state.onWording.length

/-- What else is still to come: a ringing counts for two, since it may bring up a task. -/
def workLeft (a : Agenda Sitting Task Fault) : Nat :=
  2 * a.state.clock.ringsUntil (horizon a.tasks) + burdens a.tasks

theorem horizon_append_le (h : ∀ target, .elapse target ∈ first → .elapse target ∈ task :: rest) :
    horizon (first ++ rest) ≤ horizon (task :: rest) := by
  obtain ⟨h0, hall⟩ := horizon_le_iff.mp (Int.le_refl (horizon (task :: rest)))
  refine horizon_le_iff.mpr ⟨h0, fun target hmem => hall target ?_⟩
  rcases List.mem_append.mp hmem with hmem | hmem
  · exact h target hmem
  · exact List.mem_cons_of_mem task hmem

theorem Does.onWording_le (hd : Does setup s task (.done s' first)) :
    s'.onWording.length ≤ s.onWording.length := by
  cases hd with
  | aside ht _ _ => exact Nat.le_of_eq (by rw [ht.spared.onWording_eq])
  | @moved t _ _ _ r orders _ _ _ ht _ _ _ _ _ =>
    obtain ⟨c, p, n, k, hm⟩ := moved_frame setup t r orders
    rw [hm]
    exact Nat.le_of_eq (congrArg List.length ht.spared.onWording_eq)
  | held _ _ _ hw _ _ =>
    rw [hw]
    exact Nat.le_succ _

/-- Less is left where the ringing to come and what is brought up are less than before. -/
theorem workLeft_lt (hb : s'.clock.Beats)
    (hsoon : ∀ target, .elapse target ∈ first → .elapse target ∈ task :: rest)
    (hless : 2 * s'.clock.ringsUntil (horizon (task :: rest)) + burdens first <
      2 * s.clock.ringsUntil (horizon (task :: rest)) + task.burden) {fault fault' : Option Fault} :
    workLeft { state := s', tasks := first ++ rest, fault := fault' } <
      workLeft { state := s, tasks := task :: rest, fault } := by
  have hkeep := Clock.ringsUntil_le hb (horizon_append_le hsoon)
  have hcons : burdens (task :: rest) = task.burden + burdens rest := rfl
  simp only [workLeft, burdens_append, hcons]
  omega

/-- A task that eases the work on a clock with no more ringing to come leaves less. -/
theorem Eases.workLeft_lt {clock : Clock Purpose} {before after : List Task}
    (h : Eases s clock s' before) (hb : s'.clock.Beats)
    (hafter : ∀ target, .elapse target ∈ after → .elapse target ∈ task :: rest)
    (hless : 2 * clock.ringsUntil (horizon (task :: rest)) + burdens after + 1 <
      2 * s.clock.ringsUntil (horizon (task :: rest)) + task.burden) {fault fault' : Option Fault} :
    s'.onWording.length < s.onWording.length ∨
      workLeft { state := s', tasks := before ++ after ++ rest, fault := fault' } <
        workLeft { state := s, tasks := task :: rest, fault } := by
  refine h.imp_right fun ⟨hmuted, hslight⟩ => ?_
  refine Sitting.workLeft_lt hb (fun target hmem => ?_) ?_
  · rcases List.mem_append.mp hmem with hmem | hmem
    · exact absurd hmem (hslight.timeless target)
    · exact hafter target hmem
  · have hrings := Clock.ringsUntil_muted_le hmuted (horizon (task :: rest))
    have hfew := hslight.few
    rw [burdens_append]
    omega

/-- **Any task but a move** calls the wording, or leaves less work. -/
theorem eases_of_perform (hb : s.clock.Beats) (hb' : s'.clock.Beats)
    (held : ∀ outcome entries, .conclude outcome entries ∈ task :: rest → Stops outcome)
    (hmove : ∀ m, task ≠ .move m) {fault fault' : Option Fault}
    (hp : perform setup task s = .done s' first) :
    s'.onWording.length < s.onWording.length ∨
      workLeft { state := s', tasks := first ++ rest, fault := fault' } <
        workLeft { state := s, tasks := task :: rest, fault } := by
  cases task with
  | move m => exact absurd rfl (hmove m)
  | announce =>
    cases hp
    have hmoves := slight_moves (offered s.onChange)
    refine .inr (workLeft_lt hb' (fun target h => absurd h (hmoves.timeless target)) ?_)
    show 2 * s.clock.ringsUntil _ + burdens ((offered s.onChange).map .move) < _
    rw [burdens_moves]
    exact Nat.lt_succ_self _
  | retire =>
    cases hp
    exact .inr (workLeft_lt hb' (fun _ h => absurd h List.not_mem_nil) (Nat.lt_succ_self _))
  | elapse target =>
    cases hnext : s.clock.earliest? target with
    | none =>
      rw [perform_elapse_of_none hnext] at hp
      cases hp
      exact .inr (workLeft_lt hb' (fun _ h => absurd h List.not_mem_nil) (Nat.lt_succ_self _))
    | some next =>
      rw [perform_elapse_of_next hnext] at hp
      obtain ⟨before, rfl, heases⟩ := hear_eases hp
      have htarget : target ≤ horizon (.elapse target :: rest) :=
        (horizon_le_iff.mp (Int.le_refl _)).2 target List.mem_cons_self
      have hring := Clock.ringsUntil_ring_lt hb hnext htarget
      refine heases.workLeft_lt hb' (fun t hmem => ?_) ?_
      · rw [List.mem_singleton.mp hmem]
        exact List.mem_cons_self
      · show 2 * _ + 1 + 1 < 2 * _ + 1
        omega
  | ring handle =>
    have hhear : pursue setup (s.hear [] ((s.clock.signal handle).1,
        s.clock.alarms[handle]?.bind Alarm.heard)) = .done s' first := hp
    obtain ⟨before, rfl, heases⟩ := hear_eases hhear
    have hrings := s.clock.ringsUntil_signal_le handle (horizon (.ring handle :: rest))
    refine heases.workLeft_lt hb' (fun _ h => absurd h List.not_mem_nil) ?_
    show 2 * (s.clock.signal handle).1.ringsUntil _ + 0 + 1 < 2 * _ + 2
    omega
  | conclude outcome entries =>
    have heases := conclude_eases (held outcome entries List.mem_cons_self) hp
    rw [← List.append_nil first]
    refine heases.workLeft_lt hb' (fun _ h => absurd h List.not_mem_nil) ?_
    show 2 * _ + 0 + 1 < 2 * _ + 2
    omega

/-- With every step but the last, fewer moves and calls of the wording are left, or as many and less
work. -/
theorem less_left (hint : 1 ≤ setup.rules.tickInterval) {a : Agenda Sitting Task Fault}
    (held : ∀ outcome entries, .conclude outcome entries ∈ a.tasks → Stops outcome)
    (hb : a.state.clock.Beats) (hne : a.tasks ≠ []) :
    (a.step (perform setup)).tasks = [] ∨ movesLeft (a.step (perform setup)) < movesLeft a ∨
      (movesLeft (a.step (perform setup)) = movesLeft a ∧
        workLeft (a.step (perform setup)) < workLeft a) := by
  obtain ⟨s, tasks, fault⟩ := a
  cases tasks with
  | nil => exact absurd rfl hne
  | cons task rest =>
    rw [Agenda.step_cons]
    cases hp : perform setup task s with
    | failed s' fault' => exact .inl rfl
    | done s' first =>
      right
      have hd := does_of_perform hp
      have hspend := hd.spends
      have hwording := hd.onWording_le
      simp only [Verdict.agenda, movesLeft, List.countP_append]
      by_cases hmove : task.isMove = true
      · rw [List.countP_cons_of_pos hmove]
        omega
      · rw [List.countP_cons_of_neg hmove]
        have hbeats : s.clock.Beats := hb
        have heases : s'.onWording.length < s.onWording.length ∨
            workLeft { state := s', tasks := first ++ rest } <
              workLeft { state := s, tasks := task :: rest, fault } :=
          eases_of_perform hbeats (beats_done hbeats hint hd) held
            (fun m heq => hmove (heq ▸ rfl)) hp
        rcases heases with hcalled | hless
        · omega
        · by_cases heq : first.countP Task.isMove + rest.countP Task.isMove + s'.scripted.length +
              s'.onWording.length =
              rest.countP Task.isMove + s.scripted.length + s.onWording.length
          · exact .inr ⟨heq, hless⟩
          · omega

/-- **Whatever is under way comes to an end**, also where alarms ring although they are cancelled,
as long as the clock takes its time. -/
theorem exists_end (setup : Setup) (hint : 1 ≤ setup.rules.tickInterval)
    {a : Agenda Sitting Task Fault}
    (held : ∀ outcome entries, .conclude outcome entries ∈ a.tasks → Stops outcome)
    (hb : a.state.clock.Beats) :
    ∃ n, (a.run (perform setup) n).tasks = [] ∧
      (a.run (perform setup) n).state.clock.Beats := by
  have keep : ∀ a : Agenda Sitting Task Fault,
      ((∀ outcome entries, .conclude outcome entries ∈ a.tasks → Stops outcome) ∧
        a.state.clock.Beats) →
      (∀ outcome entries, .conclude outcome entries ∈ (a.step (perform setup)).tasks →
        Stops outcome) ∧ (a.step (perform setup)).state.clock.Beats := by
    rintro ⟨s, tasks, fault⟩ ⟨hheld, hbeats⟩
    cases tasks with
    | nil => exact ⟨hheld, hbeats⟩
    | cons task rest =>
      rw [Agenda.step_cons]
      cases hp : perform setup task s with
      | failed s' fault' =>
        exact ⟨fun _ _ h => absurd h List.not_mem_nil, beats_failed hbeats (does_of_perform hp)⟩
      | done s' first =>
        have hd := does_of_perform hp
        exact ⟨hd.held_of hheld fun _ _ _ _ _ _ hdue => hdue.stops hheld List.mem_cons_self,
          beats_done hbeats hint hd⟩
  obtain ⟨n, hover, -, hbeats⟩ := Agenda.exists_run_isOver movesLeft workLeft keep
    (fun a ha hne => less_left hint ha.1 ha.2 hne) ⟨held, hb⟩
  exact ⟨n, hover, hbeats⟩

/-- **Every move comes to an end**, by itself or broken off by a fault. -/
theorem exists_completes (hint : 1 ≤ setup.rules.tickInterval) (hb : s.clock.Beats) (m : Move) :
    ∃ t fault, Completes setup s m t fault := by
  obtain ⟨n, hover, -⟩ := exists_end setup hint (a := s.start m)
    (fun _ _ hmem => by cases List.mem_singleton.mp hmem) hb
  generalize hrun : (s.start m).run (perform setup) n = a at hover
  obtain ⟨t, tasks, fault⟩ := a
  cases hover
  exact ⟨t, fault, n, hrun⟩

end Sitting

end TimedQuiz
