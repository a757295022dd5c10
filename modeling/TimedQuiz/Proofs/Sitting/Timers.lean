import Mathlib.Data.List.Nodup
import TimedQuiz.Proofs.Sitting.Reach

/-!
# Which alarms run

* `Clock.Runs` — the alarm at a position runs;
* `Alarm.Ticks`, `Alarm.Waits` — a repeating alarm runs, an alarm that rings once runs;
* `Linked` — what a sitting knows of its alarms is what the clock does with them: the repeating
  alarm that runs is the ticker, and those that run once are the pending advances.

Main statements: `Linked.carryOut`, `Linked.taken` — no order and no ringing breaks the link, as
long as alarms that are cancelled do not ring; `Linked.not_runs` — without ticker and pending
advances no alarm runs.
-/

namespace TimedQuiz

namespace Alarm

variable {α : Type} {a : Alarm α}

/-- The alarm repeats, and runs. -/
def Ticks (a : Alarm α) : Prop := a.recurrence = .repeating ∧ a.running = true

/-- The alarm rings once, and runs. -/
def Waits (a : Alarm α) : Prop := a.recurrence = .once ∧ a.running = true

/-- The alarm runs exactly as long as its holder listens. -/
def Level (a : Alarm α) : Prop := a.armed = a.running

theorem Level.cancel (h : a.Level) : a.cancel.Level ∧ a.cancel.running = false := by
  have hrun : a.cancel.running = false := cancel_running fun hr => (show a.armed = _ from h) ▸ hr
  exact ⟨(cancel_armed a).trans hrun.symm, hrun⟩

/-- A ringing stops an alarm that rings once, and no other. -/
theorem Level.signal (h : a.Level) :
    a.signal.Level ∧ (a.signal.Ticks ↔ a.Ticks) ∧ ¬ a.signal.Waits := by
  cases hrec : a.recurrence with
  | repeating =>
    have heq : a.signal = a := by simp only [Alarm.signal, hrec]
    rw [heq]
    exact ⟨h, .rfl, fun hw => by simp [Waits, hrec] at hw⟩
  | once =>
    have heq : a.signal = a.cancel := by simp only [Alarm.signal, hrec]
    rw [heq]
    exact ⟨h.cancel.1, by simp [Ticks, hrec], by simp [Waits, h.cancel.2]⟩

theorem Level.elapse_signal (h : a.Level) :
    a.elapse.signal.Level ∧ (a.elapse.signal.Ticks ↔ a.Ticks) ∧ ¬ a.elapse.signal.Waits := by
  cases hrec : a.recurrence with
  | repeating =>
    have heq : a.elapse.signal = { a with due := a.due + a.interval } := by
      simp only [Alarm.elapse, Alarm.signal, hrec]
    rw [heq]
    exact ⟨h, .rfl, fun hw => by simp [Waits, hrec] at hw⟩
  | once =>
    have heq : a.elapse.signal = { a with running := false }.cancel := by
      simp only [Alarm.elapse, Alarm.signal, hrec]
    have hrun : { a with running := false }.cancel.running = false := cancel_running nofun
    rw [heq]
    exact ⟨(cancel_armed _).trans hrun.symm, by simp [Ticks, hrec], by simp [Waits, hrun]⟩

theorem running_of_cancel (h : a.cancel.running = true) : a.running = true := by
  unfold cancel at h
  split at h
  · cases h
  · exact h

theorem running_of_signal (h : a.signal.running = true) : a.running = true := by
  unfold signal at h
  split at h
  · exact running_of_cancel h
  · exact h

theorem running_of_elapse (h : a.elapse.running = true) : a.running = true := by
  unfold elapse at h
  split at h
  · cases h
  · exact h

end Alarm

namespace Clock

variable {α : Type} {c c' : Clock α} {i : Nat}

/-- The alarm at a position runs. -/
def Runs (c : Clock α) (i : Nat) : Prop := ∃ a : Alarm α, c.alarms[i]? = some a ∧ a.running = true

/-- A ringing makes no alarm run. -/
theorem Runs.of_sounds {handle : Nat} (hs : c.Sounds handle c') (h : c'.Runs i) : c.Runs i := by
  obtain ⟨f, hf, hclock⟩ := hs.exists_effect
    (P := fun f => ∀ a : Alarm α, (f a).running = true → a.running = true)
    (fun _ => Alarm.running_of_signal)
    (fun _ h => Alarm.running_of_elapse (Alarm.running_of_signal h))
  obtain ⟨b, hb, hrun⟩ := h
  rw [hclock] at hb
  split at hb
  · obtain ⟨a, ha, rfl⟩ := Option.map_eq_some_iff.mp hb
    exact ⟨a, ha, hf a hrun⟩
  · exact ⟨b, hb, hrun⟩

/-- Giving alarms up makes none run. -/
theorem Runs.of_muted (hm : c.Muted c') (h : c'.Runs i) : c.Runs i := by
  obtain ⟨b, hb, hrun⟩ := h
  rcases hm.alarm_cases i with heq | heq
  · exact ⟨b, heq ▸ hb, hrun⟩
  · obtain ⟨a, ha, rfl⟩ := Option.map_eq_some_iff.mp (heq ▸ hb)
    exact ⟨a, ha, Alarm.running_of_cancel hrun⟩

end Clock

namespace Sitting

variable {setup : Setup} {s s' : Sitting}

/-- Nothing that comes before an event makes an alarm run. -/
theorem Taken.runs (ht : s.Taken s') {i : Nat} (h : s'.clock.Runs i) : s.clock.Runs i := by
  cases ht with
  | desk _ _ _ => exact h
  | time => exact h
  | unheard hs _ => exact .of_sounds hs h
  | @heard _ _ x _ hs _ => cases x <;> exact .of_sounds hs h

/-- The repeating alarm that runs is the ticker, and those that run once are the pending advances,
by number. -/
structure Linked (s : Sitting) : Prop where
  level : ∀ (i : Nat) (a : Alarm Purpose), s.clock.alarms[i]? = some a → a.Level
  repeats_iff : ∀ (i : Nat) (a : Alarm Purpose), s.clock.alarms[i]? = some a →
    (a.recurrence = .repeating ↔ ∃ generation, a.payload = .tick generation)
  ticker_iff : ∀ i, s.ticker = some i ↔ ∃ a : Alarm Purpose, s.clock.alarms[i]? = some a ∧ a.Ticks
  pending_iff : ∀ n i, (n, i) ∈ s.pending ↔ ∃ (a : Alarm Purpose) (order : Advance),
    s.clock.alarms[i]? = some a ∧ a.Waits ∧ a.payload = .advance n order
  nodup : (s.pending.map (·.1)).Nodup
  numbers_lt : ∀ n order, .advance n order ∈ s.clock.purposes → n < s.nextAdvance

namespace Linked

theorem opening (sheets : Table (List Problem)) (onResult onChange onWording : List (List Move)) :
    Linked (Sitting.opening sheets onResult onChange onWording) := by
  have none : ∀ (i : Nat) (a : Alarm Purpose),
      (Sitting.opening sheets onResult onChange onWording).clock.alarms[i]? ≠ some a :=
    fun _ _ => nofun
  refine ⟨fun i a h => absurd h (none i a), fun i a h => absurd h (none i a), fun i => ⟨nofun, ?_⟩,
    fun n i => ⟨fun h => absurd h List.not_mem_nil, ?_⟩, List.nodup_nil,
    fun n order h => absurd h List.not_mem_nil⟩
  · rintro ⟨a, h, -⟩
    exact absurd h (none i a)
  · rintro ⟨a, order, h, -⟩
    exact absurd h (none i a)

/-- At most one repeating alarm runs. -/
theorem ticks_unique (h : Linked s) {i j : Nat} {a b : Alarm Purpose}
    (hi : s.clock.alarms[i]? = some a) (hj : s.clock.alarms[j]? = some b) (ha : a.Ticks)
    (hb : b.Ticks) : i = j := by
  have h1 := (h.ticker_iff i).mpr ⟨a, hi, ha⟩
  have h2 := (h.ticker_iff j).mpr ⟨b, hj, hb⟩
  exact Option.some.inj (h1.symm.trans h2)

/-- The alarm of an advance rings once. -/
theorem once_of_advance (h : Linked s) {i n : Nat} {order : Advance} {a : Alarm Purpose}
    (ha : s.clock.alarms[i]? = some a) (hpay : a.payload = .advance n order) :
    a.recurrence = .once := by
  cases hrec : a.recurrence with
  | once => rfl
  | repeating =>
    obtain ⟨generation, htick⟩ := (h.repeats_iff i a ha).mp hrec
    rw [hpay] at htick
    cases htick

/-- An alarm that waits is that of a pending advance. -/
theorem pending_of_waits (h : Linked s) {i : Nat} {a : Alarm Purpose}
    (ha : s.clock.alarms[i]? = some a) (hw : a.Waits) :
    ∃ n order, (n, i) ∈ s.pending ∧ a.payload = .advance n order := by
  cases hpay : a.payload with
  | advance n order => exact ⟨n, order, (h.pending_iff n i).mpr ⟨a, order, ha, hw, hpay⟩, rfl⟩
  | tick generation =>
    have hrec := (h.repeats_iff i a ha).mpr ⟨generation, hpay⟩
    rw [hw.1] at hrec
    cases hrec

/-- An advance has one alarm only. -/
theorem handle_eq (h : Linked s) {n i j : Nat} (hi : (n, i) ∈ s.pending) (hj : (n, j) ∈ s.pending) :
    i = j :=
  congrArg Prod.snd (List.inj_on_of_nodup_map h.nodup hi hj rfl)

theorem mem_purposes_of_pending (h : Linked s) {n i : Nat} (hmem : (n, i) ∈ s.pending) :
    ∃ order, .advance n order ∈ s.clock.purposes := by
  obtain ⟨a, order, ha, -, hpay⟩ := (h.pending_iff n i).mp hmem
  exact ⟨order, hpay ▸ Clock.mem_purposes ha⟩

/-- One alarm is replaced by one for the same purpose that is level and does not wait. -/
theorem replace (h : Linked s) {handle : Nat} {f : Alarm Purpose → Alarm Purpose}
    {clock : Clock Purpose} (ticker : Option Nat)
    (hclock : ∀ i : Nat, clock.alarms[i]? =
      if handle = i then s.clock.alarms[i]?.map f else s.clock.alarms[i]?)
    (hpurposes : clock.purposes = s.clock.purposes)
    (hkeep : ∀ a, (f a).payload = a.payload ∧ (f a).recurrence = a.recurrence)
    (hf : ∀ a : Alarm Purpose, a.Level → (f a).Level ∧ ¬ (f a).Waits)
    (hticker : ∀ i, ticker = some i ↔
      ∃ a : Alarm Purpose, clock.alarms[i]? = some a ∧ a.Ticks) :
    Linked { s with clock, ticker, pending := s.pending.filter fun p => p.2 != handle } := by
  -- an alarm afterwards is one from before, changed if it stands at that position
  have back : ∀ (i : Nat) (b : Alarm Purpose), clock.alarms[i]? = some b →
      ∃ a, s.clock.alarms[i]? = some a ∧ b = if handle = i then f a else a := by
    intro i b hb
    rw [hclock] at hb
    split at hb
    · rename_i heq
      obtain ⟨a, ha, rfl⟩ := Option.map_eq_some_iff.mp hb
      exact ⟨a, ha, (if_pos heq).symm⟩
    · rename_i hne
      exact ⟨b, hb, (if_neg hne).symm⟩
  refine ⟨fun i b hb => ?_, fun i b hb => ?_, hticker, fun n i => ?_, ?_, ?_⟩
  · obtain ⟨a, ha, rfl⟩ := back i b hb
    split
    · exact (hf a (h.level i a ha)).1
    · exact h.level i a ha
  · obtain ⟨a, ha, rfl⟩ := back i b hb
    split
    · rw [(hkeep a).1, (hkeep a).2]
      exact h.repeats_iff i a ha
    · exact h.repeats_iff i a ha
  · show (n, i) ∈ s.pending.filter _ ↔ _
    simp only [List.mem_filter, h.pending_iff, bne_iff_ne]
    constructor
    · rintro ⟨⟨a, order, ha, hw, hpay⟩, hne⟩
      exact ⟨a, order, by rw [hclock, if_neg (Ne.symm hne), ha], hw, hpay⟩
    · rintro ⟨b, order, hb, hw, hpay⟩
      obtain ⟨a, ha, rfl⟩ := back i b hb
      split at hw
      · exact absurd hw (hf a (h.level i a ha)).2
      · rename_i hne
        rw [if_neg hne] at hpay
        exact ⟨⟨a, order, ha, hw, hpay⟩, Ne.symm hne⟩
  · exact h.nodup.sublist (List.filter_sublist.map _)
  · exact fun n order hmem => h.numbers_lt n order (hpurposes ▸ hmem)

theorem of_eq (h : Linked s) (halarms : s'.clock.alarms = s.clock.alarms)
    (hticker : s'.ticker = s.ticker) (hpending : s'.pending = s.pending)
    (hnext : s'.nextAdvance = s.nextAdvance) : Linked s' := by
  refine ⟨?_, ?_, ?_, ?_, ?_, ?_⟩
  · rw [halarms]; exact h.level
  · rw [halarms]; exact h.repeats_iff
  · rw [halarms, hticker]; exact h.ticker_iff
  · rw [halarms, hpending]; exact h.pending_iff
  · rw [hpending]; exact h.nodup
  · rw [Clock.purposes, halarms, hnext]; exact h.numbers_lt

/-! ### Ringing -/

/-- An alarm that rings is no longer among those of the pending advances. -/
theorem rung (h : Linked s) {handle : Nat} {clock : Clock Purpose}
    (hs : s.clock.Sounds handle clock) :
    Linked { s with clock, pending := s.pending.filter fun p => p.2 != handle } := by
  obtain ⟨f, ⟨hlevel, hkeep⟩, hclock⟩ := hs.exists_effect
    (P := fun f => (∀ a : Alarm Purpose, a.Level → (f a).Level ∧ ((f a).Ticks ↔ a.Ticks) ∧
      ¬ (f a).Waits) ∧ ∀ a, (f a).payload = a.payload ∧ (f a).recurrence = a.recurrence)
    ⟨fun a ha => ha.signal, fun a => by simp⟩ ⟨fun a ha => ha.elapse_signal, fun a => by simp⟩
  refine h.replace _ hclock hs.purposes_eq hkeep (fun a ha => ⟨(hlevel a ha).1, (hlevel a ha).2.2⟩)
    fun i => ?_
  rw [h.ticker_iff, hclock]
  split
  · constructor
    · rintro ⟨a, ha, ht⟩
      exact ⟨f a, by rw [ha]; rfl, (hlevel a (h.level i a ha)).2.1.mpr ht⟩
    · rintro ⟨b, hb, ht⟩
      obtain ⟨a, ha, rfl⟩ := Option.map_eq_some_iff.mp hb
      exact ⟨a, ha, (hlevel a (h.level i a ha)).2.1.mp ht⟩
  · exact .rfl

theorem heard_of_pending (h : Linked s) {n i : Nat} (hmem : (n, i) ∈ s.pending) :
    ∃ order, s.clock.alarms[i]?.bind Alarm.heard = some (.advance n order) := by
  obtain ⟨a, order, ha, hw, hpay⟩ := (h.pending_iff n i).mp hmem
  have harmed : a.armed = true := (h.level i a ha).trans hw.2
  exact ⟨order, Option.bind_eq_some_iff.mpr ⟨a, ha, Alarm.heard_eq_some_iff.mpr ⟨harmed, hpay⟩⟩⟩

theorem pending_of_heard (h : Linked s) {n i : Nat} {order : Advance}
    (hx : s.clock.alarms[i]?.bind Alarm.heard = some (.advance n order)) : (n, i) ∈ s.pending := by
  obtain ⟨a, ha, hx⟩ := Option.bind_eq_some_iff.mp hx
  obtain ⟨harmed, hpay⟩ := Alarm.heard_eq_some_iff.mp hx
  exact (h.pending_iff n i).mpr ⟨a, order, ha,
    ⟨h.once_of_advance ha hpay, (h.level i a ha).symm.trans harmed⟩, hpay⟩

/-- The advances that stay pending after an alarm was heard are those of the other alarms. -/
theorem pending_withHeard (h : Linked s) {handle : Nat} {x : Purpose} (clock : Clock Purpose)
    (hx : s.clock.alarms[handle]?.bind Alarm.heard = some x) :
    (s.withHeard clock x).pending = s.pending.filter fun p => p.2 != handle := by
  cases x with
  | advance number order =>
    refine List.filter_congr fun p hp => ?_
    have hiff : p.1 = number ↔ p.2 = handle := by
      constructor
      · rintro rfl
        exact h.handle_eq hp (h.pending_of_heard hx)
      · rintro rfl
        obtain ⟨order', ho⟩ := h.heard_of_pending hp
        rw [hx] at ho
        cases ho
        rfl
    simp only [bne, beq_eq_decide, hiff]
  | tick generation =>
    refine (List.filter_eq_self.mpr fun p hp => bne_iff_ne.mpr ?_).symm
    rintro rfl
    obtain ⟨order, ho⟩ := h.heard_of_pending hp
    rw [hx] at ho
    cases ho

/-- **No ringing breaks the link**, nor does anything else that comes before an event. -/
theorem taken (h : Linked s) (ht : s.Taken s') : Linked s' := by
  cases ht with
  | desk _ _ _ => exact h.of_eq rfl rfl rfl rfl
  | time => exact h.of_eq rfl rfl rfl rfl
  | @unheard handle clock journal hs hx =>
    refine (h.rung hs).of_eq rfl rfl
      (List.filter_eq_self.mpr fun p hp => bne_iff_ne.mpr ?_).symm rfl
    rintro rfl
    obtain ⟨order, ho⟩ := h.heard_of_pending hp
    rw [hx] at ho
    cases ho
  | @heard handle clock x journal hs hx =>
    refine (h.rung hs).of_eq ?_ ?_ (h.pending_withHeard clock hx) ?_
    · cases x <;> rfl
    · cases x <;> rfl
    · cases x <;> rfl

/-! ### Orders -/

/-- An alarm that does not tick is given up. -/
theorem cancel (h : Linked s) {handle : Nat} (hticker : s.ticker ≠ some handle) :
    Linked { s with
      clock := s.clock.cancel handle
      pending := s.pending.filter fun p => p.2 != handle } := by
  refine h.replace _ (Clock.getElem?_cancel s.clock handle) (Clock.purposes_cancel s.clock handle)
    (fun a => by simp)
    (fun a ha => ⟨ha.cancel.1, fun hw => by simp [Alarm.Waits, ha.cancel.2] at hw⟩) fun i => ?_
  rw [Clock.getElem?_cancel]
  split
  · rename_i heq
    subst heq
    refine ⟨fun ht => absurd ht hticker, ?_⟩
    rintro ⟨b, hb, ht⟩
    obtain ⟨a, ha, rfl⟩ := Option.map_eq_some_iff.mp hb
    simp [Alarm.Ticks, (h.level handle a ha).cancel.2] at ht
  · exact h.ticker_iff i

theorem ticker_ne_of_pending (h : Linked s) {p : Nat × Nat} (hp : p ∈ s.pending) :
    s.ticker ≠ some p.2 := by
  intro ht
  obtain ⟨a, order, ha, hw, -⟩ := (h.pending_iff p.1 p.2).mp hp
  obtain ⟨b, hb, hticks⟩ := (h.ticker_iff p.2).mp ht
  rw [ha] at hb
  cases hb
  exact absurd (hw.1.symm.trans hticks.1) nofun

theorem cancelAdvances (h : Linked s) (hc : setup.honoursCancel = true) :
    Linked (s.cancelAdvances setup) := by
  have honours : cancelAlarm setup = Clock.cancel := by
    funext clock handle
    exact if_pos hc
  unfold Sitting.cancelAdvances
  rw [honours]
  -- by induction on the advances that are still pending
  generalize hps : s.pending = ps
  induction ps generalizing s with
  | nil => exact h.of_eq rfl rfl hps.symm rfl
  | cons p ps ih =>
    have hp : p ∈ s.pending := hps ▸ List.mem_cons_self
    have hnodup := h.nodup
    rw [hps, List.map_cons, List.nodup_cons] at hnodup
    have hrest : s.pending.filter (fun q => q.2 != p.2) = ps := by
      rw [hps, List.filter_cons_of_neg (by simp)]
      refine List.filter_eq_self.mpr fun q hq => bne_iff_ne.mpr fun heq => ?_
      obtain ⟨order, ho⟩ := h.heard_of_pending hp
      obtain ⟨order', ho'⟩ := h.heard_of_pending (n := q.1) (i := q.2)
        (hps ▸ List.mem_cons_of_mem p hq)
      rw [heq, ho] at ho'
      have hnumber : p.1 = q.1 := (Purpose.advance.inj (Option.some.inj ho')).1
      exact hnodup.1 (List.mem_map.mpr ⟨q, hq, hnumber.symm⟩)
    have hcancel := h.cancel (h.ticker_ne_of_pending hp)
    rw [hrest] at hcancel
    exact ih hcancel rfl

theorem stopTicker (h : Linked s) (hc : setup.honoursCancel = true) :
    Linked (s.stopTicker setup) := by
  unfold Sitting.stopTicker
  split
  · exact h
  · rename_i handle hticker
    simp only [cancelAlarm, if_pos hc]
    have hpending : s.pending = s.pending.filter fun p => p.2 != handle :=
      (List.filter_eq_self.mpr fun p hp => bne_iff_ne.mpr fun heq : p.2 = handle =>
        h.ticker_ne_of_pending hp (heq ▸ hticker)).symm
    refine (h.replace none (Clock.getElem?_cancel s.clock handle)
      (Clock.purposes_cancel s.clock handle) (fun a => by simp)
      (fun a ha => ⟨ha.cancel.1, fun hw => by simp [Alarm.Waits, ha.cancel.2] at hw⟩)
      fun i => ⟨nofun, ?_⟩).of_eq rfl rfl hpending rfl
    rw [Clock.getElem?_cancel]
    rintro ⟨b, hb, ht⟩
    split at hb
    · obtain ⟨a, ha, rfl⟩ := Option.map_eq_some_iff.mp hb
      simp [Alarm.Ticks, (h.level i a ha).cancel.2] at ht
    · rename_i hne
      exact absurd (Option.some.inj (hticker.symm.trans ((h.ticker_iff i).mpr ⟨b, hb, ht⟩))) hne

theorem scheduleAdvance (h : Linked s) (order : Advance) :
    Linked (s.scheduleAdvance setup order) := by
  have hlt : ∀ p ∈ s.pending, p.1 < s.nextAdvance := by
    intro p hp
    obtain ⟨order, hmem⟩ := h.mem_purposes_of_pending (n := p.1) (i := p.2) hp
    exact h.numbers_lt p.1 order hmem
  refine ⟨fun i a ha => ?_, fun i a ha => ?_, fun i => ?_, fun n i => ?_, ?_, fun n o hmem => ?_⟩
  · rcases Clock.getElem?_set_eq_some_iff.mp ha with ha | ⟨-, rfl⟩
    · exact h.level i a ha
    · rfl
  · rcases Clock.getElem?_set_eq_some_iff.mp ha with ha | ⟨-, rfl⟩
    · exact h.repeats_iff i a ha
    · exact ⟨nofun, nofun⟩
  · refine (h.ticker_iff i).trans ⟨?_, ?_⟩
    · rintro ⟨a, ha, ht⟩
      exact ⟨a, Clock.getElem?_set_eq_some_iff.mpr (.inl ha), ht⟩
    · rintro ⟨a, ha, ht⟩
      rcases Clock.getElem?_set_eq_some_iff.mp ha with ha | ⟨-, rfl⟩
      · exact ⟨a, ha, ht⟩
      · cases ht.1
  · simp only [Sitting.scheduleAdvance, List.mem_append, List.mem_singleton, Prod.mk.injEq,
      h.pending_iff]
    constructor
    · rintro (⟨a, o, ha, hw, hpay⟩ | ⟨rfl, rfl⟩)
      · exact ⟨a, o, Clock.getElem?_set_eq_some_iff.mpr (.inl ha), hw, hpay⟩
      · exact ⟨_, order, Clock.getElem?_set_eq_some_iff.mpr (.inr ⟨rfl, rfl⟩), ⟨rfl, rfl⟩, rfl⟩
    · rintro ⟨a, o, ha, hw, hpay⟩
      rcases Clock.getElem?_set_eq_some_iff.mp ha with ha | ⟨rfl, rfl⟩
      · exact .inl ⟨a, o, ha, hw, hpay⟩
      · cases hpay
        exact .inr ⟨rfl, rfl⟩
  · show ((s.pending ++ [(s.nextAdvance, s.clock.nextHandle)]).map (·.1)).Nodup
    rw [List.map_append, List.nodup_append]
    refine ⟨h.nodup, List.nodup_singleton _, fun n hn m hm => ?_⟩
    obtain ⟨p, hp, rfl⟩ := List.mem_map.mp hn
    rw [List.map_singleton, List.mem_singleton] at hm
    exact Nat.ne_of_lt (hm ▸ hlt p hp)
  · show n < s.nextAdvance + 1
    simp only [Sitting.scheduleAdvance, Clock.purposes_set, List.mem_append,
      List.mem_singleton] at hmem
    rcases hmem with hmem | hmem
    · exact Nat.lt_succ_of_lt (h.numbers_lt n o hmem)
    · cases hmem
      exact Nat.lt_succ_self _

/-- A ticking alarm is set where there is none. -/
theorem setTicker (h : Linked s) (hnone : s.ticker = none) (interval : Int) (generation : Int) :
    Linked { s with
      clock := s.clock.set .repeating interval (.tick generation)
      ticker := some s.clock.nextHandle } := by
  have hno : ∀ (i : Nat) (a : Alarm Purpose), s.clock.alarms[i]? = some a → ¬ a.Ticks := by
    intro i a ha ht
    have := (h.ticker_iff i).mpr ⟨a, ha, ht⟩
    rw [hnone] at this
    cases this
  refine ⟨fun i a ha => ?_, fun i a ha => ?_, fun i => ?_, fun n i => ?_, h.nodup,
    fun n o hmem => ?_⟩
  · rcases Clock.getElem?_set_eq_some_iff.mp ha with ha | ⟨-, rfl⟩
    · exact h.level i a ha
    · rfl
  · rcases Clock.getElem?_set_eq_some_iff.mp ha with ha | ⟨-, rfl⟩
    · exact h.repeats_iff i a ha
    · exact ⟨fun _ => ⟨generation, rfl⟩, fun _ => rfl⟩
  · constructor
    · intro ht
      exact ⟨_, Clock.getElem?_set_eq_some_iff.mpr (.inr ⟨(Option.some.inj ht).symm, rfl⟩), rfl,
        rfl⟩
    · rintro ⟨a, ha, ht⟩
      rcases Clock.getElem?_set_eq_some_iff.mp ha with ha | ⟨rfl, -⟩
      · exact absurd ht (hno i a ha)
      · rfl
  · refine (h.pending_iff n i).trans ⟨?_, ?_⟩
    · rintro ⟨a, o, ha, hw, hpay⟩
      exact ⟨a, o, Clock.getElem?_set_eq_some_iff.mpr (.inl ha), hw, hpay⟩
    · rintro ⟨a, o, ha, hw, hpay⟩
      rcases Clock.getElem?_set_eq_some_iff.mp ha with ha | ⟨-, rfl⟩
      · exact ⟨a, o, ha, hw, hpay⟩
      · cases hpay
  · simp only [Clock.purposes_set, List.mem_append, List.mem_singleton, reduceCtorEq,
      or_false] at hmem
    exact h.numbers_lt n o hmem

/-- **No order breaks the link.** -/
theorem carryOut (h : Linked s) (hc : setup.honoursCancel = true) (order : TimerOrder) :
    Linked (s.carryOut setup order) := by
  cases order with
  | scheduleAdvance order => exact h.scheduleAdvance order
  | cancelAdvances => exact h.cancelAdvances hc
  | startTicker generation =>
    have hnone : (s.stopTicker setup).ticker = none := by
      obtain ⟨clock, hs, -⟩ := stopTicker_frame setup s
      rw [hs]
    exact (h.stopTicker hc).setTicker hnone setup.rules.tickInterval generation
  | stopTicker => exact h.stopTicker hc

theorem moved (h : Linked s) (hc : setup.honoursCancel = true) (round : Round)
    (orders : List TimerOrder) : Linked (s.moved setup round orders) := by
  have hround : Linked { s with round } := h.of_eq rfl rfl rfl rfl
  unfold Sitting.moved
  generalize { s with round } = t at hround
  induction orders generalizing t with
  | nil => exact hround
  | cons order orders ih => exact ih _ (hround.carryOut hc order)

/-- Without ticker and pending advances no alarm runs. -/
theorem not_runs (h : Linked s) (hticker : s.ticker = none) (hpending : s.pending = []) (i : Nat) :
    ¬ s.clock.Runs i := by
  rintro ⟨a, ha, hrun⟩
  cases hrec : a.recurrence with
  | repeating =>
    have hi := (h.ticker_iff i).mpr ⟨a, ha, hrec, hrun⟩
    rw [hticker] at hi
    cases hi
  | once =>
    obtain ⟨n, order, hi, -⟩ := h.pending_of_waits ha ⟨hrec, hrun⟩
    rw [hpending] at hi
    cases hi

/-- Once all is stopped, no alarm runs. -/
theorem not_runs_stopAll (h : Linked s) (hc : setup.honoursCancel = true) (round : Round)
    (i : Nat) : ¬ (s.moved setup round Round.stopAll).clock.Runs i := by
  have hl := h.moved hc round Round.stopAll
  obtain ⟨clock, hs, -⟩ := moved_stopAll setup s round
  apply hl.not_runs
  · rw [hs]
  · rw [hs]

theorem done (h : Linked s) (hc : setup.honoursCancel = true) {task : Task} {first : List Task}
    (hd : Does setup s task (.done s' first)) : Linked s' := by
  cases hd with
  | aside ht _ _ => exact h.taken ht
  | moved ht _ _ _ _ _ => exact ((h.taken ht).moved hc _ _).of_eq rfl rfl rfl rfl
  | held ht _ _ _ _ _ => exact (h.taken ht).of_eq rfl rfl rfl rfl

theorem failed (h : Linked s) {task : Task} {fault : Fault}
    (hd : Does setup s task (.failed s' fault)) : Linked s' := by
  cases hd with
  | gaveUp _ => exact h
  | broken ht _ _ => exact (h.taken ht).of_eq rfl rfl rfl rfl

end Linked

theorem Reachable.linked {opening : Sitting} {past : List (Agenda Sitting Task Fault)}
    {a : Agenda Sitting Task Fault} (h : Reachable setup opening past a)
    (hc : setup.honoursCancel = true) (hs : Linked opening) : Linked a.state := by
  apply h.invariant (I := fun s _ => Linked s) hs
  · intro s task hl _
    exact hl
  · intro s task rest s' first hl hp
    exact hl.done hc (does_of_perform hp)
  · intro s task rest s' fault hl hp
    exact hl.failed (does_of_perform hp)

end Sitting

end TimedQuiz
