import Mathlib.Logic.Relation
import TimedQuiz.Proofs.Timing.Agenda
import TimedQuiz.Proofs.Timing.Clock
import TimedQuiz.Timing.Routine

/-!
# The life of an alarm

Alarms are set, given up and rung in turn and out of turn, at any moment and whatever is under way:
in the routine of another alarm or of their own, and when they have been given up before.

* `Alarm.Orderly` — the clock watches an alarm exactly as long as its holder listens, who gives it
  up once, and then stops listening;
* `Alarm.Turns` — what may become of an alarm, with whether it is heard;
* `Desk.Occurs`, `Desk.Later` — what may happen at a desk, and all that may follow;
* `Desk.heardOf` — the ringing of one alarm that was heard.

Main statements: `Alarm.Orderly.turns`, `Alarm.Turns.of_given_up` — one turn of an alarm;
`Desk.Occurs.changes`, `Desk.Orderly.changes` — one occurrence at a desk;
`Desk.Reachable.life_of_alarm` — from being set to any later moment.
-/

namespace TimedQuiz

namespace Alarm

variable {α : Type} {a b : Alarm α} {rung : Bool}

/-- The clock watches the alarm exactly as long as its holder listens, who has given it up once if
he no longer does. -/
structure Orderly (a : Alarm α) : Prop where
  running_eq : a.running = a.armed
  releases_eq : a.releases = if a.armed then 0 else 1

/-- What may become of an alarm in one turn, and whether its holder hears it. It rings in its turn
only while the clock watches it. -/
inductive Turns : Alarm α → Bool → Alarm α → Prop
  | stays (a : Alarm α) : Turns a false a
  | cancelled (a : Alarm α) : Turns a false a.cancel
  | outOfTurn (a : Alarm α) : Turns a a.armed a.signal
  | inTurn (a : Alarm α) (h : a.running = true) : Turns a a.armed a.elapse.signal

/-- An alarm that has been given up before stays as it is. -/
theorem cancel_of_not_armed (h : a.armed = false) : a.cancel = a := by
  rw [cancel, if_neg (by simp [h])]

theorem Orderly.cancel (h : a.Orderly) : a.cancel.Orderly := by
  unfold Alarm.cancel
  split
  · rename_i harmed
    exact ⟨rfl, by simp [release, h.releases_eq, harmed]⟩
  · exact h

theorem Turns.recurrence_eq (h : a.Turns rung b) : b.recurrence = a.recurrence := by
  cases h <;> simp

/-- **Nothing becomes of an alarm that was given up**: it is not heard, and stays as it is. -/
theorem Turns.of_given_up (h : a.Turns rung b) (ha : a.Orderly) (harmed : a.armed = false) :
    rung = false ∧ b = a := by
  cases h with
  | stays => exact ⟨rfl, rfl⟩
  | cancelled => exact ⟨rfl, cancel_of_not_armed harmed⟩
  | outOfTurn =>
    refine ⟨harmed, ?_⟩
    unfold signal
    split
    · exact cancel_of_not_armed harmed
    · rfl
  | inTurn hrunning => rw [ha.running_eq, harmed] at hrunning; cases hrunning

/-- A turn keeps an alarm orderly. -/
theorem Orderly.turns (ha : a.Orderly) (h : a.Turns rung b) : b.Orderly := by
  cases h with
  | stays => exact ha
  | cancelled => exact ha.cancel
  | outOfTurn =>
    unfold signal
    split
    · exact ha.cancel
    · exact ha
  | inTurn hrunning =>
    -- It runs, so its holder has not given it up yet.
    have harmed : a.armed = true := ha.running_eq ▸ hrunning
    have hreleases : a.releases = 0 := by rw [ha.releases_eq, if_pos harmed]
    cases hrec : a.recurrence with
    | once =>
      simp only [elapse, signal, hrec, Alarm.cancel, harmed, if_true, release]
      exact ⟨rfl, by simp [hreleases]⟩
    | repeating =>
      simp only [elapse, signal, hrec]
      exact ⟨ha.running_eq, ha.releases_eq⟩

/-- An alarm that rings once is given up as it is heard. -/
theorem Turns.releases_le_of_once (h : a.Turns rung b) (ha : a.Orderly)
    (hrec : a.recurrence = .once) : a.releases + rung.toNat ≤ b.releases := by
  cases harmed : a.armed with
  | false =>
    obtain ⟨rfl, rfl⟩ := h.of_given_up ha harmed
    exact Nat.le_refl _
  | true =>
    have hzero : a.releases = 0 := by rw [ha.releases_eq, if_pos harmed]
    cases h with
    | stays => exact Nat.le_refl _
    | cancelled => rw [hzero]; exact Nat.zero_le _
    | outOfTurn => simp [signal, hrec, Alarm.cancel, harmed, release]
    | inTurn => simp [elapse, signal, hrec, Alarm.cancel, harmed, release]

end Alarm

/-- Giving an alarm up again has no effect. -/
theorem Clock.cancel_of_not_armed {α : Type} {c : Clock α} {handle : Nat} {a : Alarm α}
    (ha : c.alarms[handle]? = some a) (harmed : a.armed = false) : c.cancel handle = c := by
  have halarms : c.alarms.modify handle Alarm.cancel = c.alarms := by
    apply List.ext_getElem?
    intro i
    rw [List.getElem?_modify]
    split
    · rename_i heq
      rw [← heq, ha]
      exact congrArg some (Alarm.cancel_of_not_armed harmed)
    · exact Option.map_id'
  rw [Clock.cancel, halarms]

namespace Desk

variable {d d' : Desk} {a b : Agenda Desk DeskTask Empty} {handle : Nat} {x : Alarm Call}

/-! ## What may happen -/

/-- One thing happens at a desk, whatever is under way: the next task is done, an instruction comes
in before it, or any alarm, of whatever name, is given up or rings out of turn. -/
inductive Occurs : Agenda Desk DeskTask Empty → Agenda Desk DeskTask Empty → Prop
  | next (a : Agenda Desk DeskTask Empty) : Occurs a (a.step perform)
  | instruct (a : Agenda Desk DeskTask Empty) (i : Instruction) :
    Occurs a { a with tasks := .instruction i :: a.tasks }
  | cancel (a : Agenda Desk DeskTask Empty) (handle : Nat) :
    Occurs a { a with state := { a.state with clock := a.state.clock.cancel handle } }
  | signal (a : Agenda Desk DeskTask Empty) (handle : Nat) :
    Occurs a ((a.state.answer handle (a.state.clock.signal handle) []).agenda a.tasks)

/-- All that may follow. -/
def Later : Agenda Desk DeskTask Empty → Agenda Desk DeskTask Empty → Prop :=
  Relation.ReflTransGen Occurs

/-- All that may come of a desk at which nothing has happened. -/
def Reachable (a : Agenda Desk DeskTask Empty) : Prop := Later { state := {}, tasks := [] } a

/-- The ringing of one alarm that was heard, the latest first. -/
def heardOf (d : Desk) (handle : Nat) : List Ringing := d.heard.filter (·.handle == handle)

/-- Whatever a program does may come of a desk. -/
theorem reachable_run (program : List Instruction) (n : Nat) :
    Reachable (Agenda.run perform n { state := {}, tasks := program.map .instruction }) := by
  have given : Reachable { state := {}, tasks := program.map .instruction } := by
    induction program with
    | nil => exact .refl
    | cons i program ih => exact ih.tail (.instruct _ i)
  suffices ∀ n a, Reachable a → Reachable (a.run perform n) from this n _ given
  intro n
  induction n with
  | zero => exact fun _ h => h
  | succ n ih =>
    intro a h
    unfold Agenda.run
    split
    · exact h
    · exact ih _ (h.tail (.next a))

/-! ## What becomes of the alarms -/

/-- Each alarm takes a turn and is heard accordingly; one that is new is orderly, and nothing is
heard where there was none. -/
structure Changes (d d' : Desk) : Prop where
  turns : ∀ (i : Nat) (x : Alarm Call), d.clock.alarms[i]? = some x →
    ∃ (rung : Bool) (y : Alarm Call) (new : List Ringing), x.Turns rung y ∧
      d'.clock.alarms[i]? = some y ∧ d'.heardOf i = new ++ d.heardOf i ∧ new.length = rung.toNat
  fresh : ∀ (i : Nat) (y : Alarm Call), d.clock.alarms[i]? = none →
    d'.clock.alarms[i]? = some y → y.Orderly
  unheard : ∀ i : Nat, d.clock.alarms[i]? = none → d'.heardOf i = d.heardOf i

theorem Changes.of_alarms_eq (halarms : d'.clock.alarms = d.clock.alarms)
    (hheard : d'.heard = d.heard) : d.Changes d' where
  turns i x hx := ⟨false, x, [], .stays x, halarms ▸ hx, by rw [heardOf, hheard]; rfl, rfl⟩
  fresh i y hnone hy := by rw [halarms, hnone] at hy; cases hy
  unheard i _ := by rw [heardOf, hheard]; rfl

theorem changes_set (recurrence : Recurrence) (interval : Int) (call : Call) (names : Table Nat) :
    d.Changes { d with clock := d.clock.set recurrence interval call, names } where
  turns i x hx := ⟨false, x, [], .stays x, Clock.getElem?_set_eq_some_iff.mpr (.inl hx), rfl, rfl⟩
  fresh i y hnone hy := by
    rcases Clock.getElem?_set_eq_some_iff.mp hy with hold | ⟨-, rfl⟩
    · rw [hnone] at hold
      cases hold
    · exact ⟨rfl, rfl⟩
  unheard i _ := rfl

theorem changes_cancel (handle : Nat) :
    d.Changes { d with clock := d.clock.cancel handle } where
  turns i x hx := by
    have hi := Clock.getElem?_cancel d.clock handle i
    rw [hx] at hi
    split at hi
    · exact ⟨false, x.cancel, [], .cancelled x, hi, rfl, rfl⟩
    · exact ⟨false, x, [], .stays x, hi, rfl, rfl⟩
  fresh i y hnone hy := by
    rw [Clock.getElem?_cancel, hnone] at hy
    split at hy <;> cases hy
  unheard i _ := rfl

/-- Who hears an alarm puts its ringing on record. -/
theorem exists_answer_state (d : Desk) (handle : Nat) (clock : Clock Call) (called : Option Call)
    (next rest : List DeskTask) : ∃ new : List Ringing,
      ((d.answer handle (clock, called) next).agenda rest).state =
        { d with clock, heard := new ++ d.heard } ∧
      (∀ r ∈ new, r.handle = handle) ∧ new.length = called.isSome.toNat := by
  cases called with
  | none => exact ⟨[], rfl, nofun, rfl⟩
  | some call =>
    exact ⟨[{ handle, name := call.name, time := clock.now }], rfl,
      fun r hr => congrArg Ringing.handle (List.mem_singleton.mp hr), rfl⟩

/-- An alarm rings, and its holder hears it if he still listens. -/
theorem changes_answer {clock : Clock Call} {f : Alarm Call → Alarm Call} {called : Option Call}
    (hcalled : called = d.clock.alarms[handle]?.bind Alarm.heard)
    (halarms : ∀ i : Nat, clock.alarms[i]? =
      if handle = i then d.clock.alarms[i]?.map f else d.clock.alarms[i]?)
    (hturns : ∀ x, d.clock.alarms[handle]? = some x → x.Turns x.armed (f x))
    (next rest : List DeskTask) :
    d.Changes ((d.answer handle (clock, called) next).agenda rest).state := by
  obtain ⟨new, hstate, hhandle, hlength⟩ := d.exists_answer_state handle clock called next rest
  rw [hstate]
  have hheard (i : Nat) : heardOf { d with clock, heard := new ++ d.heard } i =
      new.filter (·.handle == i) ++ d.heardOf i := List.filter_append ..
  have hothers (i : Nat) (hne : handle ≠ i) : new.filter (·.handle == i) = [] :=
    List.filter_eq_nil_iff.mpr fun r hr => by simpa [hhandle r hr] using hne
  refine ⟨fun i x hx => ?_, fun i y hnone hy => ?_, fun i hnone => ?_⟩
  · have hi := halarms i
    rw [hx] at hi
    by_cases heq : handle = i
    · subst heq
      rw [if_pos rfl] at hi
      have hown : new.filter (·.handle == handle) = new :=
        List.filter_eq_self.mpr fun r hr => beq_iff_eq.mpr (hhandle r hr)
      refine ⟨x.armed, f x, new, hturns x hx, hi, by rw [hheard, hown], ?_⟩
      rw [hlength, hcalled, hx]
      cases harmed : x.armed <;> simp [Alarm.heard, harmed]
    · rw [if_neg heq] at hi
      exact ⟨false, x, [], .stays x, hi, by rw [hheard, hothers i heq], rfl⟩
  · have hi : clock.alarms[i]? = none := by
      rw [halarms, hnone]
      split <;> rfl
    rw [hi] at hy
    cases hy
  · rw [hheard]
    by_cases heq : handle = i
    · subst heq
      rw [hcalled, hnone] at hlength
      rw [List.length_eq_zero_iff.mp hlength]
      rfl
    · rw [hothers i heq, List.nil_append]

theorem Occurs.changes (h : Occurs a b) : a.state.Changes b.state := by
  cases h with
  | instruct i => exact .of_alarms_eq rfl rfl
  | cancel handle => exact changes_cancel handle
  | signal handle =>
    exact changes_answer rfl (Clock.getElem?_signal a.state.clock handle)
      (fun x _ => .outOfTurn x) [] a.tasks
  | next =>
    cases htasks : a.tasks with
    | nil =>
      rw [Agenda.step_of_idle htasks]
      exact .of_alarms_eq rfl rfl
    | cons task rest =>
      rw [Agenda.step_of_tasks htasks]
      cases task with
      | elapse target =>
        rw [perform]
        split
        · exact .of_alarms_eq rfl rfl
        · -- the alarm that rings next is a running one
          rename_i handle due hnext
          obtain ⟨x, hx⟩ := Clock.earliest?_eq_some_iff.mp hnext
          refine changes_answer (Clock.ring_heard a.state.clock handle due)
            (Clock.getElem?_ring a.state.clock handle due) (fun y hy => ?_) _ rest
          have hxy : x = y := Option.some.inj (hx.at_position.symm.trans hy)
          exact .inTurn y (hxy ▸ hx.running)
      | instruction i =>
        cases i with
        | set recurrence name interval routine => exact changes_set recurrence interval _ _
        | wait milliseconds => exact .of_alarms_eq rfl rfl
        | cancel name =>
          rw [perform]
          split
          · exact .of_alarms_eq rfl rfl
          · exact changes_cancel _
        | signal name =>
          rw [perform]
          split
          · exact .of_alarms_eq rfl rfl
          · rename_i handle _
            exact changes_answer rfl (Clock.getElem?_signal a.state.clock handle)
              (fun x _ => .outOfTurn x) [] rest

/-! ## From being set to any later moment -/

/-- Every alarm is orderly; one that rings once was heard no more often than it was given up; and
nothing was heard of alarms that have not been set. -/
structure Orderly (d : Desk) : Prop where
  alarm : ∀ (i : Nat) (x : Alarm Call), d.clock.alarms[i]? = some x → x.Orderly
  once : ∀ (i : Nat) (x : Alarm Call), d.clock.alarms[i]? = some x → x.recurrence = .once →
    (d.heardOf i).length ≤ x.releases
  unheard : ∀ i : Nat, d.clock.alarms[i]? = none → d.heardOf i = []

theorem Orderly.opening : Orderly {} :=
  ⟨fun _ _ h => by simp at h, fun _ _ h => by simp at h, fun _ _ => rfl⟩

/-- **No occurrence disturbs the alarms.** -/
theorem Orderly.changes (ho : d.Orderly) (h : d.Changes d') : d'.Orderly where
  alarm i y hy := by
    cases hx : d.clock.alarms[i]? with
    | none => exact h.fresh i y hx hy
    | some x =>
      obtain ⟨rung, y', new, hturns, hy', -, -⟩ := h.turns i x hx
      cases hy.symm.trans hy'
      exact (ho.alarm i x hx).turns hturns
  once i y hy hrec := by
    cases hx : d.clock.alarms[i]? with
    | none => rw [h.unheard i hx, ho.unheard i hx]; exact Nat.zero_le _
    | some x =>
      obtain ⟨rung, y', new, hturns, hy', hheard, hnew⟩ := h.turns i x hx
      cases hy.symm.trans hy'
      have hx_once : x.recurrence = .once := hturns.recurrence_eq.symm.trans hrec
      calc (d'.heardOf i).length = (d.heardOf i).length + rung.toNat := by
            rw [hheard, List.length_append, hnew, Nat.add_comm]
        _ ≤ x.releases + rung.toNat := Nat.add_le_add_right (ho.once i x hx hx_once) _
        _ ≤ y.releases := hturns.releases_le_of_once (ho.alarm i x hx) hx_once
  unheard i hnone := by
    cases hx : d.clock.alarms[i]? with
    | none => rw [h.unheard i hx, ho.unheard i hx]
    | some x =>
      obtain ⟨rung, y, new, -, hy, -, -⟩ := h.turns i x hx
      rw [hnone] at hy
      cases hy

theorem Orderly.later (ho : a.state.Orderly) (h : Later a b) : b.state.Orderly := by
  induction h with
  | refl => exact ho
  | tail _ hoccurs ih => exact ih.changes hoccurs.changes

/-- **An alarm that was given up stays as it is, unheard**, whatever may follow. -/
theorem Later.stays_given_up (h : Later a b) (ho : a.state.Orderly)
    (hx : a.state.clock.alarms[handle]? = some x) (harmed : x.armed = false) :
    b.state.clock.alarms[handle]? = some x ∧ b.state.heardOf handle = a.state.heardOf handle := by
  induction h with
  | refl => exact ⟨hx, rfl⟩
  | tail hlater hoccurs ih =>
    obtain ⟨hpos, hheard⟩ := ih
    obtain ⟨rung, y, new, hturns, hy, hnew, hlength⟩ := hoccurs.changes.turns handle x hpos
    obtain ⟨rfl, rfl⟩ := hturns.of_given_up ((ho.later hlater).alarm handle x hpos) harmed
    obtain rfl := List.length_eq_zero_iff.mp hlength
    exact ⟨hy, hnew.trans hheard⟩

/-- **The life of an alarm**, at any moment of all that may come of a desk. The clock watches it
exactly as long as its holder listens, who gives it up once, as he stops listening. One that rings
once is heard at most once, and then it has been given up. An alarm that was given up stays as it is
for good and is not heard again, and giving it up again has no effect; and from the moment when any
alarm is given up, whatever is under way, it is not armed, does not run and is not heard again. -/
theorem Reachable.life_of_alarm (h : Reachable a)
    (hx : a.state.clock.alarms[handle]? = some x) :
    x.armed = x.running ∧
      x.releases = (if x.armed then 0 else 1) ∧
      (x.recurrence = .once → (a.state.heardOf handle).length ≤ x.releases) ∧
      (x.armed = false → a.state.clock.cancel handle = a.state.clock ∧
        ∀ b, Later a b → b.state.clock.alarms[handle]? = some x ∧
          b.state.heardOf handle = a.state.heardOf handle) ∧
      ∀ tasks b,
        Later { a with state := { a.state with clock := a.state.clock.cancel handle }, tasks } b →
        (∃ y, b.state.clock.alarms[handle]? = some y ∧ y.armed = false ∧ y.running = false ∧
          y.releases = 1) ∧
        b.state.heardOf handle = a.state.heardOf handle := by
  have ho : a.state.Orderly := Orderly.opening.later h
  have halarm : x.Orderly := ho.alarm handle x hx
  refine ⟨halarm.running_eq.symm, halarm.releases_eq, ho.once handle x hx, fun harmed => ?_,
    fun tasks b hb => ?_⟩
  · exact ⟨Clock.cancel_of_not_armed hx harmed, fun b hb => hb.stays_given_up ho hx harmed⟩
  · have hcancelled := Clock.getElem?_cancel a.state.clock handle handle
    rw [if_pos rfl, hx] at hcancelled
    obtain ⟨hy, hheard⟩ := hb.stays_given_up (ho.changes (changes_cancel handle)) hcancelled
      (Alarm.cancel_armed x)
    have hrunning := halarm.cancel.running_eq
    have hreleases := halarm.cancel.releases_eq
    rw [Alarm.cancel_armed] at hrunning hreleases
    exact ⟨⟨x.cancel, hy, Alarm.cancel_armed x, hrunning, hreleases⟩, hheard⟩

/-- It gives itself up in its own routine and rings again there, and once more afterwards: it was
given up once and heard once. -/
theorem life_of_alarm_of_rung_again :
    ∃ a x, Reachable a ∧ a.tasks = [] ∧ a.state.clock.alarms[0]? = some x ∧
      (x.recurrence, x.armed, x.releases) = (.once, false, 1) ∧
      (a.state.heardOf 0).map (·.time) = [100] ∧
      ∀ b, Later a b → (b.state.heardOf 0).map (·.time) = [100] := by
  let a : Agenda Desk DeskTask Empty := Agenda.run perform 20
    { state := {}
      tasks := [.set .once "once" 100 [.cancel "once", .signal "once"], .wait 250,
        .signal "once"].map .instruction }
  have ended : Reachable a := reachable_run _ 20
  have hheard : (a.state.heardOf 0).map (·.time) = [100] := by decide +kernel
  have hfound : a.state.clock.alarms[0]?.map (fun x => (x.recurrence, x.armed, x.releases)) =
      some (.once, false, 1) := by decide +kernel
  obtain ⟨x, hx, hlife⟩ := Option.map_eq_some_iff.mp hfound
  obtain ⟨-, -, -, hfinal, -⟩ := ended.life_of_alarm hx
  refine ⟨a, x, ended, List.isEmpty_iff.mp (by decide +kernel), hx, hlife, hheard, fun b hb => ?_⟩
  rw [((hfinal (congrArg (·.2.1) hlife)).2 b hb).2, hheard]

end Desk

end TimedQuiz
