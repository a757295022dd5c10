import Mathlib.Algebra.GroupWithZero.Nat
import Mathlib.Algebra.Order.BigOperators.Group.List
import Mathlib.Algebra.Order.Group.Nat
import TimedQuiz.Proofs.Timing.Clock

/-!
# How often alarms can still ring

* `Alarm.ringsUntil`, `Clock.ringsUntil` — how often alarms can still ring on the way to a moment;
* `Clock.toll` — the same, at a price for each ringing that depends on what the alarm is for;
* `Clock.Beats` — repeating alarms take their time.

Main statements: `Clock.toll_ring_add_le`, `Clock.ringsUntil_ring_lt` — each ringing is one less to
come; `Clock.toll_muted_le` — giving alarms up brings no ringing.
-/

namespace TimedQuiz

variable {α : Type}

namespace Alarm

/-- How often the alarm can still ring on the way to a moment. -/
def ringsUntil (target : Int) (a : Alarm α) : Nat :=
  if a.running = true ∧ a.due ≤ target then
    match a.recurrence with
    | .once => 1
    | .repeating => ((target - a.due) / a.interval).toNat + 1
  else 0

/-- A repeating alarm takes its time. -/
def Beats (a : Alarm α) : Prop := a.recurrence = .repeating → 1 ≤ a.interval

theorem ringsUntil_le {a : Alarm α} (hb : a.Beats) {target target' : Int} (h : target ≤ target') :
    a.ringsUntil target ≤ a.ringsUntil target' := by
  unfold ringsUntil
  split
  · rename_i hdue
    rw [if_pos ⟨hdue.1, Int.le_trans hdue.2 h⟩]
    split
    · exact Nat.le_refl 1
    · rename_i hrec
      have hint := hb hrec
      have hdiv : (target - a.due) / a.interval ≤ (target' - a.due) / a.interval :=
        Int.ediv_le_ediv (by omega) (by omega)
      omega
  · exact Nat.zero_le _

/-- A ringing is one less to come. -/
theorem ringsUntil_elapse_lt {a : Alarm α} (hb : a.Beats) {target : Int} (hrun : a.running = true)
    (hdue : a.due ≤ target) : a.elapse.signal.ringsUntil target < a.ringsUntil target := by
  have hpos : 0 < a.ringsUntil target := by
    unfold ringsUntil
    rw [if_pos ⟨hrun, hdue⟩]
    split <;> omega
  cases hrec : a.recurrence with
  | once =>
    have heq : a.elapse.signal = { a with running := false }.cancel := by
      simp only [Alarm.elapse, Alarm.signal, hrec]
    have hstopped : { a with running := false }.cancel.running = false := cancel_running nofun
    rw [heq, ringsUntil, if_neg (by simp [hstopped])]
    exact hpos
  | repeating =>
    have heq : a.elapse.signal = { a with due := a.due + a.interval } := by
      simp only [Alarm.elapse, Alarm.signal, hrec]
    have hint := hb hrec
    rw [heq]
    simp only [ringsUntil, hrec, hrun, hdue, and_self, true_and, if_true]
    split
    · rename_i hlater
      have hsplit : target - a.due = (target - (a.due + a.interval)) + a.interval := by omega
      have hdiv : (target - a.due) / a.interval =
          (target - (a.due + a.interval)) / a.interval + 1 := by
        rw [hsplit]
        exact Int.add_ediv_of_dvd_right (Int.dvd_refl _) |>.trans (by rw [Int.ediv_self (by omega)])
      have hnonneg : 0 ≤ (target - (a.due + a.interval)) / a.interval :=
        Int.ediv_nonneg (by omega) (by omega)
      omega
    · omega

/-- An alarm that rings in its turn is not due earlier the next time. -/
theorem due_le_elapse_signal {a : Alarm α} (hb : a.Beats) : a.due ≤ a.elapse.signal.due := by
  cases hrec : a.recurrence with
  | once => simp [Alarm.elapse, Alarm.signal, hrec]
  | repeating =>
    have hint := hb hrec
    simp only [Alarm.elapse, Alarm.signal, hrec]
    omega

theorem ringsUntil_cancel_le (target : Int) (a : Alarm α) :
    a.cancel.ringsUntil target ≤ a.ringsUntil target := by
  unfold cancel
  split
  · rw [ringsUntil, if_neg (by simp [release])]
    exact Nat.zero_le _
  · exact Nat.le_refl _

/-- An alarm rings no more often than once in every millisecond from when it is due. -/
theorem ringsUntil_le_span {a : Alarm α} (hb : a.Beats) {start target : Int}
    (hstart : start ≤ a.due) : a.ringsUntil target ≤ (target - start).toNat + 1 := by
  unfold ringsUntil
  split
  · split
    · exact Nat.le_add_left 1 _
    · rename_i hdue _ hrec
      have hint := hb hrec
      have hdiv : (target - a.due) / a.interval ≤ target - a.due :=
        Int.ediv_le_self _ (by omega)
      omega
  · exact Nat.zero_le _

end Alarm

namespace Clock

/-- How often the alarms can still ring on the way to a moment. -/
def ringsUntil (c : Clock α) (target : Int) : Nat := (c.alarms.map (Alarm.ringsUntil target)).sum

/-- Repeating alarms take their time. -/
def Beats (c : Clock α) : Prop := ∀ a ∈ c.alarms, a.Beats

theorem ringsUntil_le {c : Clock α} (hb : c.Beats) {target target' : Int} (h : target ≤ target') :
    c.ringsUntil target ≤ c.ringsUntil target' :=
  List.sum_le_sum fun a ha => Alarm.ringsUntil_le (hb a ha) h

theorem Beats.set {c : Clock α} (h : c.Beats) {rec : Recurrence} {interval : Int}
    (hint : rec = .repeating → 1 ≤ interval) (x : α) : (c.set rec interval x).Beats := by
  intro a ha
  rcases List.mem_append.mp ha with ha | ha
  · exact h a ha
  · rw [List.mem_singleton.mp ha]
    exact hint

/-- What leaves the recurrence and the interval of each alarm alone leaves the beat. -/
theorem Beats.of_alarms {c c' : Clock α} (h : c.Beats)
    (hback : ∀ (i : Nat) (b : Alarm α), c'.alarms[i]? = some b →
      ∃ a : Alarm α, c.alarms[i]? = some a ∧ b.recurrence = a.recurrence ∧
        b.interval = a.interval) : c'.Beats := by
  intro b hb hrepeat
  obtain ⟨i, hi⟩ := List.mem_iff_getElem?.mp hb
  obtain ⟨a, ha, hrec, hint⟩ := hback i b hi
  rw [hint]
  exact h a (List.mem_of_getElem? ha) (hrec ▸ hrepeat)

theorem Beats.sounds {c c' : Clock α} (h : c.Beats) {handle : Nat} (hs : c.Sounds handle c') :
    c'.Beats := by
  obtain ⟨f, hf, hclock⟩ := hs.exists_effect
    (P := fun f => ∀ a : Alarm α, (f a).recurrence = a.recurrence ∧ (f a).interval = a.interval)
    (fun a => by simp) (fun a => by simp)
  refine h.of_alarms fun i b hb => ?_
  rw [hclock] at hb
  split at hb
  · obtain ⟨a, ha, rfl⟩ := Option.map_eq_some_iff.mp hb
    exact ⟨a, ha, hf a⟩
  · exact ⟨b, hb, rfl, rfl⟩

theorem Beats.muted {c c' : Clock α} (h : c.Beats) (hm : c.Muted c') : c'.Beats := by
  refine h.of_alarms fun i b hb => ?_
  rcases hm.alarm_cases i with heq | heq
  · exact ⟨b, heq ▸ hb, rfl, rfl⟩
  · obtain ⟨a, ha, rfl⟩ := Option.map_eq_some_iff.mp (heq ▸ hb)
    exact ⟨a, ha, by simp, by simp⟩

/-- A sum over a list goes down with one of its elements. -/
theorem sum_map_modify_add_le {g : α → Nat} {f : α → α} {l : List α} {i n : Nat} {a : α}
    (ha : l[i]? = some a) (hle : g (f a) + n ≤ g a) :
    ((l.modify i f).map g).sum + n ≤ (l.map g).sum := by
  induction l generalizing i with
  | nil => cases ha
  | cons b l ih =>
    cases i with
    | zero =>
      cases ha
      simp only [List.modify_zero_cons, List.map_cons, List.sum_cons]
      omega
    | succ i =>
      have := ih (i := i) ha
      simp only [List.modify_succ_cons, List.map_cons, List.sum_cons]
      omega

/-- A sum over a list goes down with its elements, and with its length. -/
theorem sum_map_le_of_getElem? {g : α → Nat} {l l' : List α}
    (h : ∀ (i : Nat) (b : α), l'[i]? = some b → ∃ a, l[i]? = some a ∧ g b ≤ g a) :
    (l'.map g).sum ≤ (l.map g).sum := by
  induction l' generalizing l with
  | nil => exact Nat.zero_le _
  | cons b l' ih =>
    obtain ⟨a, ha, hle⟩ := h 0 b rfl
    cases l with
    | nil => cases ha
    | cons a' l =>
      cases ha
      have := ih fun i => h (i + 1)
      simp only [List.map_cons, List.sum_cons]
      omega

/-- What the ringing still to come on the way to a moment amounts to, at a price for each. -/
def toll (price : α → Nat) (c : Clock α) (target : Int) : Nat :=
  (c.alarms.map fun a => a.ringsUntil target * price a.payload).sum

theorem ringsUntil_eq_toll (c : Clock α) (target : Int) :
    c.ringsUntil target = c.toll (fun _ => 1) target := by
  simp only [ringsUntil, toll, Nat.mul_one]

/-- **Each ringing is one less to come.** -/
theorem toll_ring_add_le {c : Clock α} (hb : c.Beats) (price : α → Nat)
    {target horizon due : Int} {i : Nat} {a : Alarm α} (ha : IsNext target c.alarms i due a)
    (hle : target ≤ horizon) :
    (c.ring i due).1.toll price horizon + price a.payload ≤ c.toll price horizon := by
  unfold toll
  rw [alarms_ring]
  refine sum_map_modify_add_le ha.at_position ?_
  have hdue : a.due ≤ horizon := by
    have := ha.due_eq
    have := ha.due_le
    omega
  have hless := Alarm.ringsUntil_elapse_lt (hb a (List.mem_of_getElem? ha.at_position)) ha.running
    hdue
  rw [Alarm.signal_payload, Alarm.elapse_payload, ← Nat.succ_mul]
  exact Nat.mul_le_mul_right _ hless

theorem ringsUntil_ring_lt {c : Clock α} (hb : c.Beats) {target horizon due : Int} {i : Nat}
    (hnext : c.earliest? target = some (i, due)) (hle : target ≤ horizon) :
    (c.ring i due).1.ringsUntil horizon < c.ringsUntil horizon := by
  obtain ⟨a, ha⟩ := earliest?_eq_some_iff.mp hnext
  rw [ringsUntil_eq_toll, ringsUntil_eq_toll]
  exact toll_ring_add_le hb (fun _ => 1) ha hle

/-- An alarm that is set brings its own ringing only. -/
theorem toll_set_le {c : Clock α} (price : α → Nat) {recurrence : Recurrence} {interval : Int}
    {x : α} {start : Int} (target : Int) (hb : recurrence = .repeating → 1 ≤ interval)
    (hstart : start ≤ c.now + interval) :
    (c.set recurrence interval x).toll price target ≤
      c.toll price target + ((target - start).toNat + 1) * price x := by
  simp only [toll, set, List.map_append, List.sum_append, List.map_cons, List.map_nil,
    List.sum_cons, List.sum_nil, Nat.add_zero]
  refine Nat.add_le_add_left (Nat.mul_le_mul_right _ ?_) _
  have hbeats : Alarm.Beats { recurrence, interval, due := c.now + interval, payload := x } := hb
  exact Alarm.ringsUntil_le_span hbeats hstart

/-- **Giving alarms up brings no ringing.** -/
theorem toll_muted_le {c c' : Clock α} (hm : c.Muted c') (price : α → Nat) (target : Int) :
    c'.toll price target ≤ c.toll price target := by
  refine sum_map_le_of_getElem? fun i b hb => ?_
  rcases hm.alarm_cases i with heq | heq
  · exact ⟨b, heq ▸ hb, Nat.le_refl _⟩
  · obtain ⟨a, ha, rfl⟩ := Option.map_eq_some_iff.mp (heq ▸ hb)
    refine ⟨a, ha, ?_⟩
    rw [Alarm.cancel_payload]
    exact Nat.mul_le_mul_right _ (Alarm.ringsUntil_cancel_le target a)

theorem ringsUntil_muted_le {c c' : Clock α} (hm : c.Muted c') (target : Int) :
    c'.ringsUntil target ≤ c.ringsUntil target := by
  rw [ringsUntil_eq_toll, ringsUntil_eq_toll]
  exact toll_muted_le hm _ target

/-- An alarm that rings out of turn brings no ringing in its turn. -/
theorem ringsUntil_signal_le (c : Clock α) (handle : Nat) (target : Int) :
    (c.signal handle).1.ringsUntil target ≤ c.ringsUntil target := by
  refine sum_map_le_of_getElem? fun i b hb => ?_
  rw [getElem?_signal] at hb
  split at hb
  · obtain ⟨a, ha, rfl⟩ := Option.map_eq_some_iff.mp hb
    refine ⟨a, ha, ?_⟩
    unfold Alarm.signal
    split
    · exact Alarm.ringsUntil_cancel_le target a
    · exact Nat.le_refl _
  · exact ⟨b, hb, Nat.le_refl _⟩

end Clock

end TimedQuiz
