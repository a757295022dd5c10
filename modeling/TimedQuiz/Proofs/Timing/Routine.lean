import TimedQuiz.Proofs.Timing.Ringing
import TimedQuiz.Proofs.Timing.Waiting
import TimedQuiz.Timing.Routine

/-!
# Waiting at a desk

* `Desk.keeper` — a desk lets time pass, whatever the routines of its alarms do;
* `Instruction.Timely` — a routine sets and cancels alarms, none due before it is set, and those
  that repeat take their time;
* `Desk.Serves` — so do the routines of all alarms;
* `Desk.workLeft` — all that is still to come on the way to a moment.

Main statements: `Desk.waits_iff` — to wait is to let time pass; `Desk.exists_waits` — where the
routines are timely, every wait comes to an end. A routine holds finitely many others, and each
alarm rings finitely often on the way.
-/

namespace TimedQuiz

/-- A routine sets and cancels alarms. None is due before it is set, and those that repeat take
their time; the same is true of their own routines. -/
inductive Instruction.Timely : Instruction → Prop
  | set {recurrence : Recurrence} {name : String} {interval : Int} {routine : List Instruction} :
      0 ≤ interval → (recurrence = .repeating → 1 ≤ interval) → (∀ i ∈ routine, Timely i) →
      Timely (.set recurrence name interval routine)
  | cancel (name : String) : Timely (.cancel name)

mutual

/-- What following an instruction can come to: itself, and all the ringing of the alarm that it
sets, each with its routine, if none rings oftener than given. -/
def Instruction.weight (often : Nat) : Instruction → Nat
  | .set _ _ _ routine => 1 + often * (1 + Instruction.weights often routine)
  | .cancel _ => 1
  | .wait _ => 1
  | .signal _ => 1

/-- What following a routine can come to. -/
def Instruction.weights (often : Nat) : List Instruction → Nat
  | [] => 0
  | i :: is => i.weight often + Instruction.weights often is

end

namespace Desk

variable {d d' : Desk} {ms : Int} {rings : List (Nat × Int)}

/-- A desk lets time pass. -/
def keeper : Timekeeper Desk DeskTask Empty (Nat × Int) where
  perform := perform
  elapse := .elapse
  target? task := match task with | .elapse target => some target | .instruction _ => none
  next target d := d.clock.earliest? target
  strike ringing d := d.answer ringing.1 (d.clock.ring ringing.1 ringing.2) []
  arrive target d := { d with clock := { d.clock with now := target } }
  now d := d.clock.now
  target?_elapse _ := rfl
  perform_of_next := by
    intro target d x h
    simp only [perform, h, answer]
    split
    · rfl
    · simp only [Verdict.andThen, List.append_nil]
  perform_of_none := by
    intro target d h
    simp only [perform, h]
  next_mono := Clock.earliest?_mono
  next_arrive _ _ _ := rfl
  strike_arrive _ _ _ := rfl
  arrive_arrive _ _ _ := rfl
  now_arrive _ _ := rfl

/-- A desk waits, and all that this brings is done; with the alarms that ring on the way. -/
def Waits (d : Desk) (ms : Int) (rings : List (Nat × Int)) (d' : Desk) : Prop :=
  keeper.Goes (d.follow (.wait ms)) rings { state := d', tasks := [] }

/-- **To wait is to let time pass.** -/
theorem waits_iff : d.Waits ms rings d' ↔ keeper.Waits d ms rings d' :=
  Timekeeper.goes_iff_of_wait (b := d.follow (.wait ms)) nofun rfl rfl nofun

/-! ## Every wait comes to an end -/

/-- What a task can come to. -/
def taskWeight (often : Nat) : DeskTask → Nat
  | .instruction i => i.weight often
  | .elapse _ => 1

/-- What the ringing of an alarm can come to: itself and the routine. -/
def price (often : Nat) (call : Call) : Nat := 1 + Instruction.weights often call.routine

/-- All that is still to come on the way to a moment. -/
def workLeft (often : Nat) (horizon : Int) (a : Agenda Desk DeskTask Empty) : Nat :=
  a.state.clock.toll (price often) horizon + (a.tasks.map (taskWeight often)).sum

theorem sum_taskWeight_map (often : Nat) (routine : List Instruction) :
    ((routine.map DeskTask.instruction).map (taskWeight often)).sum =
      Instruction.weights often routine := by
  induction routine with
  | nil => rfl
  | cons i routine ih =>
    rw [List.map_cons, List.map_cons, List.sum_cons, ih, Instruction.weights]
    rfl

/-- The alarms of a clock on which the routines are timely; none is due before a moment. -/
structure Serves (start : Int) (c : Clock Call) : Prop where
  beats : c.Beats
  routine : ∀ a ∈ c.alarms, ∀ i ∈ a.payload.routine, i.Timely
  due : ∀ a ∈ c.alarms, start ≤ a.due

namespace Serves

variable {start target due : Int} {c c' : Clock Call} {handle : Nat}

/-- What changes neither the recurrence nor the interval of an alarm, nor what it is for, and makes
none due earlier, changes nothing of this. -/
theorem of_alarms (h : Serves start c)
    (hback : ∀ (i : Nat) (b : Alarm Call), c'.alarms[i]? = some b →
      ∃ a : Alarm Call, c.alarms[i]? = some a ∧ b.recurrence = a.recurrence ∧
        b.interval = a.interval ∧ b.payload = a.payload ∧ a.due ≤ b.due) : Serves start c' := by
  have origin : ∀ b ∈ c'.alarms, ∃ a ∈ c.alarms, b.payload = a.payload ∧ a.due ≤ b.due := by
    intro b hb
    obtain ⟨i, hi⟩ := List.mem_iff_getElem?.mp hb
    obtain ⟨a, ha, -, -, hpay, hdue⟩ := hback i b hi
    exact ⟨a, List.mem_of_getElem? ha, hpay, hdue⟩
  refine ⟨h.beats.of_alarms fun i b hb => ?_, fun b hb => ?_, fun b hb => ?_⟩
  · obtain ⟨a, ha, hrec, hint, -⟩ := hback i b hb
    exact ⟨a, ha, hrec, hint⟩
  · obtain ⟨a, ha, hpay, -⟩ := origin b hb
    rw [hpay]
    exact h.routine a ha
  · obtain ⟨a, ha, -, hdue⟩ := origin b hb
    exact Int.le_trans (h.due a ha) hdue

theorem cancel (h : Serves start c) (handle : Nat) : Serves start (c.cancel handle) := by
  refine h.of_alarms fun i b hb => ?_
  rw [Clock.getElem?_cancel] at hb
  split at hb
  · obtain ⟨a, ha, rfl⟩ := Option.map_eq_some_iff.mp hb
    exact ⟨a, ha, by simp, by simp, by simp, Int.le_of_eq (Alarm.cancel_due a).symm⟩
  · exact ⟨b, hb, rfl, rfl, rfl, Int.le_refl _⟩

theorem ring (h : Serves start c) (handle : Nat) (due : Int) :
    Serves start (c.ring handle due).1 := by
  refine h.of_alarms fun i b hb => ?_
  rw [Clock.getElem?_ring] at hb
  split at hb
  · obtain ⟨a, ha, rfl⟩ := Option.map_eq_some_iff.mp hb
    have hbeats := h.beats a (List.mem_of_getElem? ha)
    exact ⟨a, ha, by simp, by simp, by simp, Alarm.due_le_elapse_signal hbeats⟩
  · exact ⟨b, hb, rfl, rfl, rfl, Int.le_refl _⟩

theorem set (h : Serves start c) (hnow : start ≤ c.now) {recurrence : Recurrence} {name : String}
    {interval : Int} {routine : List Instruction}
    (htimely : (Instruction.set recurrence name interval routine).Timely) :
    Serves start (c.set recurrence interval { name, routine }) := by
  obtain ⟨hinterval, hrepeat, hroutine⟩ : 0 ≤ interval ∧ (recurrence = .repeating → 1 ≤ interval) ∧
      ∀ i ∈ routine, i.Timely := by
    cases htimely with
    | set h0 h1 hi => exact ⟨h0, h1, hi⟩
  refine ⟨h.beats.set hrepeat _, fun a ha => ?_, fun a ha => ?_⟩
  · rcases List.mem_append.mp ha with ha | ha
    · exact h.routine a ha
    · rw [List.mem_singleton.mp ha]
      exact hroutine
  · rcases List.mem_append.mp ha with ha | ha
    · exact h.due a ha
    · rw [List.mem_singleton.mp ha]
      show start ≤ c.now + interval
      omega

end Serves

/-- Work under way between two moments: no alarm is due before the first, and time does not pass
beyond the second. -/
structure Between (start horizon : Int) (a : Agenda Desk DeskTask Empty) : Prop where
  serves : Serves start a.state.clock
  started : start ≤ a.state.clock.now
  instructions : ∀ i, .instruction i ∈ a.tasks → i.Timely
  targets : ∀ target, .elapse target ∈ a.tasks → start ≤ target ∧ target ≤ horizon

/-- How often an alarm can ring between two moments, at most. -/
def oftenest (start horizon : Int) : Nat := (horizon - start).toNat + 1

variable {start horizon : Int} {a : Agenda Desk DeskTask Empty} {task : DeskTask}
  {rest : List DeskTask}

/-- The work goes on between the same two moments, and less is left to come. -/
def Eases (start horizon : Int) (a b : Agenda Desk DeskTask Empty) : Prop :=
  Between start horizon b ∧
    workLeft (oftenest start horizon) horizon b < workLeft (oftenest start horizon) horizon a

/-- Tasks that are done make room for others of the same kind. -/
theorem Between.done (h : Between start horizon { state := d, tasks := task :: rest })
    (d' : Desk) (first : List DeskTask) (hserves : Serves start d'.clock)
    (hstarted : start ≤ d'.clock.now)
    (hfirst : ∀ t ∈ first, (∃ i, t = .instruction i ∧ i.Timely) ∨ t = task)
    (hless : d'.clock.toll (price (oftenest start horizon)) horizon +
        (first.map (taskWeight (oftenest start horizon))).sum <
      d.clock.toll (price (oftenest start horizon)) horizon +
        taskWeight (oftenest start horizon) task) :
    Eases start horizon { state := d, tasks := task :: rest }
      { state := d', tasks := first ++ rest } := by
  refine ⟨⟨hserves, hstarted, fun i hmem => ?_, fun target hmem => ?_⟩, ?_⟩
  · rcases List.mem_append.mp hmem with hmem | hmem
    · rcases hfirst _ hmem with ⟨j, heq, hj⟩ | heq
      · cases heq
        exact hj
      · exact h.instructions i (heq ▸ List.mem_cons_self)
    · exact h.instructions i (List.mem_cons_of_mem task hmem)
  · rcases List.mem_append.mp hmem with hmem | hmem
    · rcases hfirst _ hmem with ⟨j, heq, -⟩ | heq
      · cases heq
      · exact h.targets target (heq ▸ List.mem_cons_self)
    · exact h.targets target (List.mem_cons_of_mem task hmem)
  · simp only [workLeft, List.map_append, List.sum_append, List.map_cons, List.sum_cons]
    omega

theorem none_of_nil {P : DeskTask → Prop} : ∀ t ∈ ([] : List DeskTask), P t :=
  fun _ hmem => absurd hmem List.not_mem_nil

/-- An alarm that is set brings no more than was counted for it. -/
theorem Between.follow {i : Instruction}
    (h : Between start horizon { state := d, tasks := .instruction i :: rest }) :
    Eases start horizon { state := d, tasks := .instruction i :: rest }
      ((perform (.instruction i) d).agenda rest) := by
  have hstarted : start ≤ d.clock.now := h.started
  cases h.instructions i List.mem_cons_self with
  | @set recurrence name interval routine hinterval hrepeat hroutine =>
    have htimely : (Instruction.set recurrence name interval routine).Timely :=
      .set hinterval hrepeat hroutine
    have hset := h.serves.set hstarted htimely
    refine h.done
      { d with
        clock := d.clock.set recurrence interval { name, routine }
        names := d.names.insert name d.clock.nextHandle } [] hset hstarted none_of_nil ?_
    have hdue : start ≤ d.clock.now + interval := by omega
    have htoll := Clock.toll_set_le (x := { name, routine }) (price (oftenest start horizon))
      horizon hrepeat hdue
    have hweight : taskWeight (oftenest start horizon)
        (.instruction (.set recurrence name interval routine)) =
          1 + oftenest start horizon * price (oftenest start horizon) { name, routine } := rfl
    rw [hweight, oftenest]
    exact Nat.lt_of_le_of_lt htoll (by rw [oftenest]; omega)
  | cancel name =>
    cases hget : d.names.get? name with
    | none =>
      have hperform : perform (.instruction (.cancel name)) d = .done d [] := by
        simp only [perform, hget]
      rw [hperform]
      exact h.done d [] h.serves hstarted none_of_nil (Nat.lt_succ_self _)
    | some handle =>
      have hperform : perform (.instruction (.cancel name)) d =
          .done { d with clock := d.clock.cancel handle } [] := by
        simp only [perform, hget]
      rw [hperform]
      refine h.done { d with clock := d.clock.cancel handle } []
        (h.serves.cancel handle) hstarted none_of_nil ?_
      exact Nat.lt_succ_of_le (Clock.toll_muted_le (d.clock.muted_cancel handle) _ horizon)

/-- An alarm that rings takes itself and its routine out of the count. -/
theorem Between.answer {target due : Int} {handle : Nat}
    (h : Between start horizon { state := d, tasks := .elapse target :: rest })
    (hnext : d.clock.earliest? target = some (handle, due)) :
    Eases start horizon { state := d, tasks := .elapse target :: rest }
      ((d.answer handle (d.clock.ring handle due) [.elapse target]).agenda rest) := by
  obtain ⟨-, hto⟩ := h.targets target List.mem_cons_self
  obtain ⟨x, hx⟩ := Clock.earliest?_eq_some_iff.mp hnext
  have hmem : x ∈ d.clock.alarms := List.mem_of_getElem? hx.at_position
  have hdue : start ≤ due := hx.due_eq ▸ h.serves.due x hmem
  have htoll := Clock.toll_ring_add_le h.serves.beats (price (oftenest start horizon)) hx hto
  have hring := h.serves.ring handle due
  have hheard : (d.clock.ring handle due).2 = x.heard := by
    rw [Clock.ring_heard, hx.at_position]
    rfl
  have hnow : (d.clock.ring handle due).1.now = due := rfl
  generalize d.clock.ring handle due = rung at *
  obtain ⟨clock, heard⟩ := rung
  simp only at htoll hring hheard hnow
  subst hheard
  cases hcall : x.heard with
  | none =>
    refine h.done { d with clock } [.elapse target] hring
      (hnow ▸ hdue) (fun t ht => .inr (List.mem_singleton.mp ht)) ?_
    have hpos : 1 ≤ price (oftenest start horizon) x.payload := Nat.le_add_right 1 _
    show clock.toll _ horizon + (1 + 0) < d.clock.toll _ horizon + 1
    omega
  | some call =>
    obtain ⟨-, rfl⟩ := Alarm.heard_eq_some_iff.mp hcall
    refine h.done
      { d with
        clock
        heard := { handle, name := x.payload.name, time := clock.now } :: d.heard }
      (x.payload.routine.map .instruction ++ [.elapse target]) hring (hnow ▸ hdue)
      (fun t ht => ?_) ?_
    · rcases List.mem_append.mp ht with ht | ht
      · obtain ⟨i, hi, rfl⟩ := List.mem_map.mp ht
        exact .inl ⟨i, rfl, h.serves.routine x hmem i hi⟩
      · exact .inr (List.mem_singleton.mp ht)
    · rw [List.map_append, List.sum_append, sum_taskWeight_map]
      rw [price] at htoll
      show clock.toll _ horizon + (Instruction.weights _ x.payload.routine + (1 + 0)) <
        d.clock.toll _ horizon + 1
      omega

theorem Between.elapse {target : Int}
    (h : Between start horizon { state := d, tasks := .elapse target :: rest }) :
    Eases start horizon { state := d, tasks := .elapse target :: rest }
      ((perform (.elapse target) d).agenda rest) := by
  obtain ⟨hfrom, -⟩ := h.targets target List.mem_cons_self
  cases hnext : d.clock.earliest? target with
  | none =>
    have hperform : perform (.elapse target) d =
        .done { d with clock := { d.clock with now := target } } [] := by
      simp only [perform, hnext]
    rw [hperform]
    exact h.done { d with clock := { d.clock with now := target } } []
      ⟨h.serves.beats, h.serves.routine, h.serves.due⟩ hfrom none_of_nil (Nat.lt_succ_self _)
  | some next =>
    obtain ⟨handle, due⟩ := next
    have hperform : perform (.elapse target) d =
        d.answer handle (d.clock.ring handle due) [.elapse target] := by
      simp only [perform, hnext]
    rw [hperform]
    exact h.answer hnext

/-- **Every step leaves less to come.** -/
theorem Between.step (h : Between start horizon a) (hne : a.tasks ≠ []) :
    Eases start horizon a (a.step perform) := by
  obtain ⟨d, tasks, fault⟩ := a
  cases tasks with
  | nil => exact absurd rfl hne
  | cons task rest =>
    replace h : Between start horizon { state := d, tasks := task :: rest } :=
      ⟨h.serves, h.started, h.instructions, h.targets⟩
    rw [Agenda.step_cons]
    cases task with
    | instruction i => exact h.follow
    | elapse target => exact h.elapse

/-- There is a moment before which nothing is due. -/
theorem exists_start (alarms : List (Alarm Call)) (bound : Int) :
    ∃ start ≤ bound, ∀ a ∈ alarms, start ≤ a.due := by
  induction alarms with
  | nil => exact ⟨bound, Int.le_refl _, fun _ h => absurd h List.not_mem_nil⟩
  | cons x alarms ih =>
    obtain ⟨start, hle, hall⟩ := ih
    refine ⟨min start x.due, by omega, fun a ha => ?_⟩
    rcases List.mem_cons.mp ha with rfl | ha
    · omega
    · have := hall a ha
      omega

/-- The routines of all alarms are timely, and the alarms that repeat take their time. -/
def Timely (d : Desk) : Prop :=
  d.clock.Beats ∧ ∀ a ∈ d.clock.alarms, ∀ i ∈ a.payload.routine, i.Timely

/-- **Where the routines are timely, every wait comes to an end.** -/
theorem exists_waits (h : d.Timely) (ms : Int) : ∃ rings d', d.Waits ms rings d' := by
  obtain ⟨start, hstart, hdue⟩ := exists_start d.clock.alarms
    (min d.clock.now (d.clock.now + ms))
  have hbetween : Between start (d.clock.now + ms) (keeper.upTo (d.clock.now + ms) [] d) := by
    refine ⟨⟨h.1, h.2, hdue⟩, by show start ≤ d.clock.now; omega, fun i hmem => ?_,
      fun target hmem => ?_⟩
    · cases List.mem_singleton.mp hmem
    · cases List.mem_singleton.mp hmem
      exact ⟨by omega, Int.le_refl _⟩
  obtain ⟨n, hover, -⟩ := Agenda.exists_run_isOver
    (workLeft (oftenest start (d.clock.now + ms)) (d.clock.now + ms)) (fun _ => 0)
    (fun a (ha : Between start (d.clock.now + ms) a) => by
      by_cases hidle : a.tasks = []
      · rw [Agenda.step_of_idle hidle]
        exact ha
      · exact (ha.step hidle).1)
    (fun a ha hne => .inr (.inl (ha.step hne).2)) hbetween
  obtain ⟨rings, hgoes⟩ := Agenda.goes_run perform keeper.mark
    (keeper.upTo (d.clock.now + ms) [] d) n
  generalize (keeper.upTo (d.clock.now + ms) [] d).run perform n = e at hover hgoes
  obtain ⟨d', tasks, fault⟩ := e
  cases fault with
  | some fault => cases fault
  | none =>
    subst hover
    exact ⟨rings, d', waits_iff.mpr hgoes⟩

end Desk

end TimedQuiz
