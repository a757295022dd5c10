import TimedQuiz.Timing.Clock

/-!
# What the clock does to its alarms

* `Clock.purposes` — what the alarms are for, which no operation but setting one changes;
* `Clock.Sounds` — an alarm rings, in its turn or out of turn;
* `Clock.Muted` — some alarms have been given up.

Main statements: `earliest?_eq_some_iff`, `earliest?_eq_none_iff` — the next alarm is the running
one that is due first, and of several the one set first.
-/

namespace TimedQuiz

variable {α : Type}

namespace Alarm

theorem heard_eq_some_iff {a : Alarm α} {x : α} :
    a.heard = some x ↔ a.armed = true ∧ a.payload = x := by
  unfold heard
  split <;> simp_all

@[simp] theorem cancel_payload (a : Alarm α) : a.cancel.payload = a.payload := by
  unfold cancel; split <;> rfl

@[simp] theorem cancel_recurrence (a : Alarm α) : a.cancel.recurrence = a.recurrence := by
  unfold cancel; split <;> rfl

@[simp] theorem cancel_interval (a : Alarm α) : a.cancel.interval = a.interval := by
  unfold cancel; split <;> rfl

@[simp] theorem cancel_due (a : Alarm α) : a.cancel.due = a.due := by
  unfold cancel; split <;> rfl

@[simp] theorem cancel_armed (a : Alarm α) : a.cancel.armed = false := by
  unfold cancel
  split
  · rfl
  · simp_all

theorem cancel_running {a : Alarm α} (h : a.running = true → a.armed = true) :
    a.cancel.running = false := by
  unfold cancel
  split
  · rfl
  · simp_all

@[simp] theorem cancel_cancel (a : Alarm α) : a.cancel.cancel = a.cancel := by
  show (if a.cancel.armed = true then a.cancel.release else a.cancel) = a.cancel
  simp

@[simp] theorem signal_payload (a : Alarm α) : a.signal.payload = a.payload := by
  unfold signal; split <;> simp

@[simp] theorem signal_recurrence (a : Alarm α) : a.signal.recurrence = a.recurrence := by
  unfold signal; split <;> simp

@[simp] theorem signal_interval (a : Alarm α) : a.signal.interval = a.interval := by
  unfold signal; split <;> simp

@[simp] theorem elapse_payload (a : Alarm α) : a.elapse.payload = a.payload := by
  unfold elapse; split <;> rfl

@[simp] theorem elapse_recurrence (a : Alarm α) : a.elapse.recurrence = a.recurrence := by
  unfold elapse; split <;> rfl

@[simp] theorem elapse_interval (a : Alarm α) : a.elapse.interval = a.interval := by
  unfold elapse; split <;> rfl

@[simp] theorem elapse_armed (a : Alarm α) : a.elapse.armed = a.armed := by
  unfold elapse; split <;> rfl

end Alarm

namespace Clock

/-! ## Alarms by position -/

theorem getElem?_cancel (c : Clock α) (handle i : Nat) :
    (c.cancel handle).alarms[i]? =
      if handle = i then c.alarms[i]?.map Alarm.cancel else c.alarms[i]? := by
  simp only [cancel, List.getElem?_modify]
  split <;> simp

theorem getElem?_signal (c : Clock α) (handle i : Nat) :
    (c.signal handle).1.alarms[i]? =
      if handle = i then c.alarms[i]?.map Alarm.signal else c.alarms[i]? := by
  simp only [signal, List.getElem?_modify]
  split <;> simp

theorem getElem?_ring (c : Clock α) (handle : Nat) (due : Int) (i : Nat) :
    (c.ring handle due).1.alarms[i]? =
      if handle = i then c.alarms[i]?.map fun a => a.elapse.signal else c.alarms[i]? := by
  rw [ring, getElem?_signal]
  simp only [List.getElem?_modify]
  split <;> simp [Function.comp_def]

theorem alarms_ring (c : Clock α) (handle : Nat) (due : Int) :
    (c.ring handle due).1.alarms = c.alarms.modify handle fun a => a.elapse.signal := by
  apply List.ext_getElem?
  intro i
  rw [getElem?_ring, List.getElem?_modify]
  split <;> cases c.alarms[i]? <;> rfl

theorem ring_heard (c : Clock α) (handle : Nat) (due : Int) :
    (c.ring handle due).2 = c.alarms[handle]?.bind Alarm.heard := by
  simp only [ring, signal, List.getElem?_modify, if_pos]
  cases c.alarms[handle]? <;> simp [Alarm.heard]

theorem ring_head (now due : Int) (a : Alarm α) (as : List (Alarm α)) :
    (ring { now, alarms := a :: as } 0 due).1 = { now := due, alarms := a.elapse.signal :: as } :=
  rfl

theorem ring_last (now due : Int) (as : List (Alarm α)) (a : Alarm α) :
    (ring { now, alarms := as ++ [a] } as.length due).1 =
      { now := due, alarms := as ++ [a.elapse.signal] } := by
  have modify_last : ∀ (f : Alarm α → Alarm α) (b : Alarm α),
      (as ++ [b]).modify as.length f = as ++ [f b] := by
    intro f b
    induction as with
    | nil => rfl
    | cons _ as ih => simp [ih]
  simp only [ring, signal, modify_last]

/-- The alarms after one was set are those before and that one. -/
theorem getElem?_set_eq_some_iff {c : Clock α} {rec : Recurrence} {interval : Int} {payload : α}
    {i : Nat} {a : Alarm α} : (c.set rec interval payload).alarms[i]? = some a ↔
      c.alarms[i]? = some a ∨ (i = c.nextHandle ∧
        a = { recurrence := rec, interval, due := c.now + interval, payload }) := by
  simp only [set, List.getElem?_append, nextHandle]
  split
  · rename_i hlt
    exact ⟨.inl, fun h => h.resolve_right fun hr => absurd hr.1 (Nat.ne_of_lt hlt)⟩
  · rename_i hge
    have hnone : c.alarms[i]? = none := List.getElem?_eq_none (Nat.le_of_not_lt hge)
    rw [List.getElem?_singleton, hnone]
    split
    · simp only [Option.some.injEq, reduceCtorEq, false_or, eq_comm (a := a)]
      exact ⟨fun h => ⟨by omega, h⟩, And.right⟩
    · simp only [reduceCtorEq, false_or, false_iff, not_and]
      intro hi
      omega

/-! ## What the alarms are for -/

/-- What the alarms are for, in the order in which they were set. -/
def purposes (c : Clock α) : List α := c.alarms.map (·.payload)

theorem map_payload_modify {f : Alarm α → Alarm α} (hf : ∀ a, (f a).payload = a.payload)
    (l : List (Alarm α)) (i : Nat) : (l.modify i f).map (·.payload) = l.map (·.payload) := by
  apply List.ext_getElem?
  intro j
  simp only [List.getElem?_map, List.getElem?_modify]
  split <;> cases l[j]? <;> simp [hf]

@[simp] theorem purposes_cancel (c : Clock α) (handle : Nat) :
    (c.cancel handle).purposes = c.purposes :=
  map_payload_modify Alarm.cancel_payload c.alarms handle

@[simp] theorem purposes_signal (c : Clock α) (handle : Nat) :
    (c.signal handle).1.purposes = c.purposes :=
  map_payload_modify Alarm.signal_payload c.alarms handle

@[simp] theorem purposes_ring (c : Clock α) (handle : Nat) (due : Int) :
    (c.ring handle due).1.purposes = c.purposes := by
  rw [ring, purposes_signal]
  exact map_payload_modify Alarm.elapse_payload c.alarms handle

@[simp] theorem purposes_set (c : Clock α) (rec : Recurrence) (interval : Int) (payload : α) :
    (c.set rec interval payload).purposes = c.purposes ++ [payload] := by
  simp [set, purposes]

theorem mem_purposes {c : Clock α} {i : Nat} {a : Alarm α} (h : c.alarms[i]? = some a) :
    a.payload ∈ c.purposes :=
  List.mem_map.mpr ⟨a, List.mem_of_getElem? h, rfl⟩

theorem payload_eq {c : Clock α} {i : Nat} {a : Alarm α} {x : α} (hx : c.purposes[i]? = some x)
    (ha : c.alarms[i]? = some a) : a.payload = x := by
  rw [purposes, List.getElem?_map, ha] at hx
  exact Option.some.inj hx

/-- Where an alarm stands, it is for the same when another has been set. -/
theorem getElem?_purposes_set {c : Clock α} {i : Nat} {x : α} (h : c.purposes[i]? = some x)
    (rec : Recurrence) (interval : Int) (payload : α) :
    (c.set rec interval payload).purposes[i]? = some x := by
  rw [purposes_set, List.getElem?_append_left (List.getElem?_eq_some_iff.mp h).1, h]

/-- What the alarm is for that has just been set. -/
theorem getElem?_purposes_set_nextHandle (c : Clock α) (rec : Recurrence) (interval : Int)
    (payload : α) : (c.set rec interval payload).purposes[c.nextHandle]? = some payload := by
  rw [purposes_set, nextHandle, ← List.length_map (·.payload)]
  exact List.getElem?_concat_length

/-- What is heard is what an alarm is for. -/
theorem heard_mem_purposes {c : Clock α} {i : Nat} {x : α}
    (h : c.alarms[i]?.bind Alarm.heard = some x) : x ∈ c.purposes := by
  obtain ⟨a, ha, hx⟩ := Option.bind_eq_some_iff.mp h
  rw [← (Alarm.heard_eq_some_iff.mp hx).2]
  exact mem_purposes ha

/-! ## Ringing in turn and out of turn -/

/-- An alarm rings: once time has moved on to it, or out of turn. -/
inductive Sounds (c : Clock α) (handle : Nat) : Clock α → Prop
  | inTurn (due : Int) : Sounds c handle (c.ring handle due).1
  | outOfTurn : Sounds c handle (c.signal handle).1

theorem Sounds.purposes_eq {c c' : Clock α} {handle : Nat} (h : c.Sounds handle c') :
    c'.purposes = c.purposes := by
  cases h with
  | inTurn due => exact purposes_ring c handle due
  | outOfTurn => exact purposes_signal c handle

/-- A ringing changes the alarm that rings, in one of two ways, and no other. -/
theorem Sounds.exists_effect {c c' : Clock α} {handle : Nat} (h : c.Sounds handle c')
    {P : (Alarm α → Alarm α) → Prop} (signal : P Alarm.signal)
    (elapse : P fun a => a.elapse.signal) :
    ∃ f, P f ∧ ∀ i : Nat, c'.alarms[i]? =
      if handle = i then c.alarms[i]?.map f else c.alarms[i]? := by
  cases h with
  | inTurn due => exact ⟨_, elapse, getElem?_ring c handle due⟩
  | outOfTurn => exact ⟨_, signal, getElem?_signal c handle⟩

/-! ## Giving up some alarms -/

/-- Some alarms have been given up, and nothing else has changed. -/
structure Muted (c c' : Clock α) : Prop where
  now_eq : c'.now = c.now
  alarm_cases : ∀ i : Nat, c'.alarms[i]? = c.alarms[i]? ∨
    c'.alarms[i]? = c.alarms[i]?.map Alarm.cancel

theorem Muted.refl (c : Clock α) : c.Muted c := ⟨rfl, fun _ => .inl rfl⟩

theorem muted_cancel (c : Clock α) (handle : Nat) : c.Muted (c.cancel handle) := by
  refine ⟨rfl, fun i => ?_⟩
  rw [getElem?_cancel]
  split
  · exact .inr rfl
  · exact .inl rfl

theorem Muted.trans {c c' c'' : Clock α} (h : c.Muted c') (h' : c'.Muted c'') : c.Muted c'' := by
  refine ⟨h'.now_eq.trans h.now_eq, fun i => ?_⟩
  rcases h'.alarm_cases i with heq' | heq'
  · rw [heq']
    exact h.alarm_cases i
  · right
    rw [heq']
    rcases h.alarm_cases i with heq | heq
    · rw [heq]
    · rw [heq, Option.map_map]
      congr 1
      funext a
      exact Alarm.cancel_cancel a

theorem Muted.purposes_eq {c c' : Clock α} (h : c.Muted c') : c'.purposes = c.purposes := by
  apply List.ext_getElem?
  intro i
  rw [purposes, purposes, List.getElem?_map, List.getElem?_map]
  rcases h.alarm_cases i with heq | heq
  · rw [heq]
  · rw [heq, Option.map_map]
    congr 1
    funext a
    exact Alarm.cancel_payload a

theorem length_purposes (c : Clock α) : c.purposes.length = c.nextHandle := List.length_map _

/-! ## The next alarm -/

theorem earliestOf_eq_none_iff {target : Int} {as : List (Alarm α)} :
    earliestOf target as = none ↔ ∀ (i : Nat) (a : Alarm α), as[i]? = some a →
      a.running = true → target < a.due := by
  induction as with
  | nil => simp [earliestOf]
  | cons a as ih =>
    simp only [earliestOf]
    constructor
    · intro h
      cases hr : earliestOf target as with
      | some p => simp only [hr] at h; split at h <;> cases h
      | none =>
        simp only [hr] at h
        intro i b hb hrun
        cases i with
        | succ i => exact ih.mp hr i b hb hrun
        | zero => cases hb; simpa [hrun] using h
    · intro h
      rw [ih.mpr fun i b hb => h (i + 1) b hb]
      have := h 0 a rfl
      by_cases hrun : a.running = true
      · simpa [hrun] using this hrun
      · simp [hrun]

/-- The alarm at a position is running, due at that time and no later than the target, and every
other running alarm rings after it. -/
structure IsNext (target : Int) (as : List (Alarm α)) (i : Nat) (due : Int) (a : Alarm α) :
    Prop where
  at_position : as[i]? = some a
  running : a.running = true
  due_eq : a.due = due
  due_le : due ≤ target
  first : ∀ j b, as[j]? = some b → b.running = true → due < b.due ∨ (due = b.due ∧ i ≤ j)

theorem isNext_of_earliestOf {target due : Int} {as : List (Alarm α)} {i : Nat}
    (h : earliestOf target as = some (i, due)) : ∃ a, IsNext target as i due a := by
  induction as generalizing i due with
  | nil => cases h
  | cons a as ih =>
    simp only [earliestOf] at h
    cases hr : earliestOf target as with
    | none =>
      -- nothing after the first alarm is due
      simp only [hr] at h
      split at h
      · rename_i hdue
        simp only [Bool.and_eq_true, decide_eq_true_eq] at hdue
        cases h
        refine ⟨a, rfl, hdue.1, rfl, hdue.2, fun j b hb hrun => ?_⟩
        cases j with
        | zero => cases hb; exact .inr ⟨rfl, Nat.le_refl 0⟩
        | succ j =>
          have := earliestOf_eq_none_iff.mp hr j b hb hrun
          exact .inl (by omega)
      · cases h
    | some p =>
      obtain ⟨j, d⟩ := p
      obtain ⟨b, hb⟩ := ih hr
      simp only [hr] at h
      split at h
      · -- the first alarm is due no later than the next of the others
        rename_i hdue
        simp only [Bool.and_eq_true, decide_eq_true_eq] at hdue
        cases h
        refine ⟨a, rfl, hdue.1.1, rfl, hdue.1.2, fun k x hx hrun => ?_⟩
        cases k with
        | zero => cases hx; exact .inr ⟨rfl, Nat.le_refl 0⟩
        | succ k =>
          rcases hb.first k x hx hrun with hlt | ⟨heq, -⟩
          · exact .inl (by omega)
          · by_cases hd : a.due = x.due
            · exact .inr ⟨hd, Nat.zero_le _⟩
            · exact .inl (by omega)
      · rename_i hdue
        cases h
        refine ⟨b, hb.at_position, hb.running, hb.due_eq, hb.due_le, fun k x hx hrun => ?_⟩
        cases k with
        | zero =>
          cases hx
          have hle := hb.due_le
          simp only [hrun, Bool.true_and, Bool.and_eq_true, decide_eq_true_eq, not_and] at hdue
          exact .inl (by omega)
        | succ k =>
          exact (hb.first k x hx hrun).imp_right fun hk => ⟨hk.1, Nat.succ_le_succ hk.2⟩

/-- **The next alarm is the running one that is due first, and of several the one set first.** -/
theorem earliest?_eq_some_iff {c : Clock α} {target due : Int} {i : Nat} :
    c.earliest? target = some (i, due) ↔ ∃ a, IsNext target c.alarms i due a := by
  refine ⟨isNext_of_earliestOf, fun ⟨a, ha⟩ => ?_⟩
  cases h : c.earliest? target with
  | none =>
    have := earliestOf_eq_none_iff.mp h i a ha.at_position ha.running
    have := ha.due_eq
    have := ha.due_le
    omega
  | some p =>
    obtain ⟨j, d⟩ := p
    obtain ⟨b, hb⟩ := isNext_of_earliestOf h
    have h1 := ha.first j b hb.at_position hb.running
    have h2 := hb.first i a ha.at_position ha.running
    have h3 := ha.due_eq
    have h4 := hb.due_eq
    have hd : d = due := by omega
    have hj : j = i := by omega
    rw [hd, hj]

/-- The alarm that rings next on the way to a moment is the next one on the way to a later one. -/
theorem earliest?_mono {c : Clock α} {target later : Int} {x : Nat × Int} (hle : target ≤ later)
    (h : c.earliest? target = some x) : c.earliest? later = some x := by
  obtain ⟨a, ha⟩ := earliest?_eq_some_iff.mp h
  exact earliest?_eq_some_iff.mpr ⟨a, { ha with due_le := Int.le_trans ha.due_le hle }⟩

theorem earliest?_eq_none_iff {c : Clock α} {target : Int} :
    c.earliest? target = none ↔
      ∀ (i : Nat) (a : Alarm α), c.alarms[i]? = some a → a.running = true → target < a.due :=
  earliestOf_eq_none_iff

end Clock

end TimedQuiz
