import TimedQuiz.Proofs.Sitting.Discipline
import TimedQuiz.Proofs.Sitting.Termination
import TimedQuiz.Proofs.Timing.Routine

/-!
# Waiting in a sitting

* `Sitting.keeper` — a sitting lets time pass, whatever its listeners and its wording do;
* `Sitting.Waits` — the client waits, and all that this brings is done.

Main statements: `Sitting.exists_waits` — every wait comes to an end, where nobody gives up and the
clock takes its time; `waiting_splits` — to wait in one go is to wait in two, in a sitting, at a
desk, and with a clock whose alarms are answered in any way at all.
-/

namespace TimedQuiz

namespace Sitting

variable {setup : Setup} {s t : Sitting} {ms : Int} {rings : List (Nat × Int)}

/-- The tasks that follow an alarm follow whatever it brings. -/
theorem pursue_hear (setup : Setup) (s : Sitting) (after : List Task)
    (x : Clock Purpose × Option Purpose) :
    pursue setup (s.hear after x) = (pursue setup (s.hear [] x)).andThen after := by
  obtain ⟨clock, heard⟩ := x
  cases heard with
  | none => rfl
  | some purpose =>
    have hevent : ∀ (t : Sitting) (e : Event), pursue setup (.event t e after) =
        (pursue setup (.event t e [])).andThen after := by
      intro t e
      rw [pursue, pursue, Verdict.andThen_nil]
    cases purpose with
    | advance number order =>
      simp only [hear, deliver]
      split
      · rfl
      · exact hevent _ _
    | tick generation =>
      simp only [hear, deliver]
      split
      · rfl
      · exact hevent _ _

/-- A sitting lets time pass. -/
def keeper (setup : Setup) : Timekeeper Sitting Task Fault (Nat × Int) where
  perform := perform setup
  elapse := .elapse
  target? task := match task with | .elapse target => some target | _ => none
  next target s := s.clock.earliest? target
  strike ringing s := pursue setup (s.hear [] (s.clock.ring ringing.1 ringing.2))
  arrive target s := { s with clock := { s.clock with now := target } }
  now s := s.clock.now
  target?_elapse _ := rfl
  perform_of_next := by
    intro target s x h
    simp only [perform, intake, elapse, h]
    exact pursue_hear setup s _ _
  perform_of_none := perform_elapse_of_none
  next_mono := Clock.earliest?_mono
  next_arrive _ _ _ := rfl
  strike_arrive _ _ _ := rfl
  arrive_arrive _ _ _ := rfl
  now_arrive _ _ := rfl

/-- The client waits, and all that this brings is done; with the alarms that ring on the way, each
with its moment. -/
def Waits (setup : Setup) (s : Sitting) (ms : Int) (rings : List (Nat × Int)) (t : Sitting) :
    Prop :=
  (keeper setup).Goes (s.start (.wait ms)) rings { state := t, tasks := [] }

/-- **To wait is to let time pass.** -/
theorem waits_iff : s.Waits setup ms rings t ↔ (keeper setup).Waits s ms rings t :=
  Timekeeper.goes_iff_of_wait (b := s.start (.wait ms)) nofun rfl rfl nofun

/-- A wait is completed as any move is. -/
theorem Waits.completes (h : s.Waits setup ms rings t) :
    Completes setup s (.wait ms) t none :=
  h.run_eq

/-- Where nothing that is to come breaks off, a move is carried through. -/
theorem Untroubled.fault_eq_none {m : Move} {fault : Option Fault}
    (hstart : Untroubled s [.move m]) (hw : setup.wording.Willing)
    (h : Completes setup s m t fault) : fault = none := by
  have keep : ∀ a : Agenda Sitting Task Fault, Untroubled a.state a.tasks ∧ a.fault = none →
      Untroubled (a.step (perform setup)).state (a.step (perform setup)).tasks ∧
        (a.step (perform setup)).fault = none := by
    rintro ⟨s, tasks, fault⟩ ⟨hcalm, rfl⟩
    cases tasks with
    | nil => exact ⟨hcalm, rfl⟩
    | cons task rest =>
      rw [Agenda.step_cons]
      cases hp : perform setup task s with
      | failed s' fault => exact (hcalm.not_failed hw (does_of_perform hp)).elim
      | done s' first => exact ⟨hcalm.done hw (does_of_perform hp), rfl⟩
  obtain ⟨n, hn⟩ := h
  have hend := (Agenda.run_reaches (perform setup) n (s.start m)).invariant keep ⟨hstart, rfl⟩
  rw [hn] at hend
  exact hend.2

/-- **Every wait comes to an end**, as long as nobody gives up and the clock takes its time. -/
theorem exists_waits (hint : 1 ≤ setup.rules.tickInterval) (hw : setup.wording.Willing)
    (hcalm : ∀ m ∈ s.scripted, m.Calm) (hb : s.clock.Beats) (ms : Int) :
    ∃ rings t, s.Waits setup ms rings t := by
  have hstart : Untroubled s [.move (.wait ms)] := by
    refine ⟨hcalm, fun m hmem => ?_, fun _ _ hmem => ?_⟩
    · cases List.mem_singleton.mp hmem
      trivial
    · cases List.mem_singleton.mp hmem
  obtain ⟨t, fault, hends⟩ := exists_completes hint hb (.wait ms)
  obtain rfl := hstart.fault_eq_none hw hends
  obtain ⟨n, hn⟩ := hends
  obtain ⟨rings, hgoes⟩ := Agenda.goes_run (perform setup) (keeper setup).mark
    (s.start (.wait ms)) n
  rw [hn] at hgoes
  exact ⟨rings, t, hgoes⟩

end Sitting

/-- **Waiting can be split**, in a sitting, at a desk, and with a clock whose alarms are answered by
setting and cancelling alarms or in any other way: to wait in one go and to wait in two rings the
same alarms at the same moments, in the same order, and leaves the same behind, with what was put on
record, and with the alarms that still run and when they are due. In a sitting where nobody gives
up, the wording never refuses a text and the alarms that repeat take their time, and at a desk whose
routines set and cancel alarms of which those that repeat take their time, every wait comes to an
end, and to one only. Where the alarms of a clock are answered in such a way that they go on ringing
for ever, the ringing is still the same, however far one listens. -/
theorem waiting_splits :
    (∀ setup : Setup, Splits (Sitting.Waits setup) ∧
      (1 ≤ setup.rules.tickInterval → setup.wording.Willing →
        ∀ s : Sitting, (∀ m ∈ s.scripted, m.Calm) → s.clock.Beats → ∀ ms : Int,
          ∃ rings t, s.Waits setup ms rings t ∧
            ∀ rings' t', s.Waits setup ms rings' t' → rings' = rings ∧ t' = t)) ∧
    (Splits Desk.Waits ∧
      ∀ d : Desk, d.Timely → ∀ ms : Int, ∃ rings d', d.Waits ms rings d' ∧
        ∀ rings' e, d.Waits ms rings' e → rings' = rings ∧ e = d') ∧
    ∀ (α μ : Type) (answer : α → Clock α × μ → Clock α × μ),
      Splits (Timekeeper.ofAnswer answer).Waits ∧
      ∀ (s : Clock α × μ) (ms more : Int) (rings : List (Nat × Int)), 0 ≤ more →
        ((Timekeeper.ofAnswer answer).Rings s (ms + more) rings ↔
          (Timekeeper.ofAnswer answer).Rings s ms rings ∨
            ∃ before t after, (Timekeeper.ofAnswer answer).Waits s ms before t ∧
              (Timekeeper.ofAnswer answer).Rings t more after ∧ rings = before ++ after) := by
  refine ⟨fun setup => ⟨?_, fun hint hw s hcalm hb ms => ?_⟩, ⟨?_, fun d hd ms => ?_⟩,
    fun α μ answer => ⟨Timekeeper.splits _, fun s ms more rings => Timekeeper.rings_add⟩⟩
  · intro s u ms more rings hmore
    simp only [Sitting.waits_iff]
    exact (Sitting.keeper setup).splits s u ms more rings hmore
  · obtain ⟨rings, t, h⟩ := Sitting.exists_waits hint hw hcalm hb ms
    refine ⟨rings, t, h, fun rings' t' h' => ?_⟩
    exact (Sitting.waits_iff.mp h).unique (Sitting.waits_iff.mp h')
  · intro d e ms more rings hmore
    simp only [Desk.waits_iff]
    exact Desk.keeper.splits d e ms more rings hmore
  · obtain ⟨rings, d', h⟩ := Desk.exists_waits hd ms
    refine ⟨rings, d', h, fun rings' e h' => ?_⟩
    exact (Desk.waits_iff.mp h).unique (Desk.waits_iff.mp h')

/-- One problem has been handed in, and the wait is split at the moment of the first tick. -/
theorem waiting_splits_at_tick :
    let s := ((Sitting.opening (Table.insert {} "sums" [{ id := 1, text := "2 + 3" }]) [] []).start
      (.present "sums" false)).run (Sitting.perform {}) 2 |>.state
    s.clock.earliest? 1000 = some (0, 1000) ∧
      ∃ before t after u, s.Waits {} 1000 before t ∧ t.Waits {} 500 after u ∧
        s.Waits {} 1500 (before ++ after) u := by
  intro s
  have hbeats : s.clock.Beats := by
    intro a ha
    cases List.mem_singleton.mp ha
    exact fun _ => by decide
  have hcalm : ∀ m ∈ s.scripted, m.Calm := fun m hm => absurd hm List.not_mem_nil
  obtain ⟨hsplits, hends⟩ := waiting_splits.1 {}
  obtain ⟨rings, u, hwaits, -⟩ := hends (by decide) (fun _ => ⟨_, rfl⟩) s hcalm hbeats 1500
  obtain ⟨before, t, after, hbefore, hafter, rfl⟩ :=
    (hsplits s u 1000 500 rings (by decide)).mp hwaits
  exact ⟨rfl, before, t, after, u, hbefore, hafter, hwaits⟩

end TimedQuiz
