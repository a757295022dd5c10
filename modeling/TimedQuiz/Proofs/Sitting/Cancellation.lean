import Mathlib.Data.List.Forall2
import TimedQuiz.Proofs.Sitting.Echo
import TimedQuiz.Proofs.Sitting.Termination

/-!
# Cancelling an alarm is redundant

* `Companion`, `Accompanied` — a sitting under way and its echo;
* `Agrees` — what two sittings leave behind differs in their alarms and in the notices of what came
  too late only.

Main statements: `Accompanied.step` — a step of the echo is one of the sitting, or concerns the echo
alone; `Conducts.unique` — the moves made decide what they leave behind;
`conducts_with_or_without_cancelling`.
-/

namespace TimedQuiz.Sitting

variable {setup : Setup} {s : Sitting} {clock : Clock Purpose} {journal : List Entry}

/-! ## A sitting under way and its echo -/

/-- The sitting and its echo, with the clock and the journal of the echo. While time passes, the
echo may be ahead. -/
structure Companion (clock : Clock Purpose) (journal : List Entry) (s : Sitting)
    (tasks : List Task) : Prop where
  echo : Echo s.round s.pending s.clock clock s.journal journal
  now_eq : (∀ target rest, tasks ≠ .elapse target :: rest) → s.clock.now = clock.now
  linked : Linked s
  dated : s.Dated
  undisturbed : Undisturbed s tasks

/-- The second agenda is the first one with the echo of its sitting. -/
def Accompanied (a b : Agenda Sitting Task Fault) : Prop :=
  ∃ clock journal, Companion clock journal a.state a.tasks ∧
    b = { a with state := { a.state with clock, journal } } ∧ (a.tasks ≠ [] → a.fault = none)

theorem Dated.done {task : Task} {s' : Sitting} {first rest : List Task} (h : s.Dated)
    (hplain : Undisturbed s (task :: rest)) (hd : Does setup s task (.done s' first)) :
    s'.Dated := by
  cases hd with
  | aside ht _ _ => exact h.taken ht
  | @moved t _ _ _ r orders _ _ _ ht hdue hx _ _ _ =>
    cases hdue with
    | event _ _ _ =>
      have hmoved := (h.taken ht).moved (Round.moves_of_next hx) setup
      exact hmoved
    | rest htask _ =>
      subst htask
      cases hplain.plain _ List.mem_cons_self
  | held ht _ _ _ _ _ =>
    have htaken := h.taken ht
    exact htaken

theorem Dated.failed {task : Task} {s' : Sitting} {fault : Fault} (h : s.Dated)
    (hd : Does setup s task (.failed s' fault)) : s'.Dated := by
  cases hd with
  | gaveUp _ => exact h
  | broken ht _ _ =>
    have htaken := h.taken ht
    exact htaken

/-- What comes to the same in both leaves a sitting and its echo. -/
theorem Companion.accompanied {task : Task} {rest : List Task} {v w : Verdict Sitting Task Fault}
    (h : Companion clock journal s (task :: rest)) (hm : Matches v w)
    (hv : perform setup.honouring task s = v) : Accompanied (v.agenda rest) (w.agenda rest) := by
  have hd := does_of_perform hv
  cases hm with
  | @done t clock' journal' first hecho hnow =>
    refine ⟨clock', journal', ⟨hecho, fun _ => hnow, h.linked.done rfl hd,
      h.dated.done h.undisturbed hd, h.undisturbed.done hd⟩, rfl, fun _ => rfl⟩
  | @failed t clock' journal' fault hecho hnow =>
    exact ⟨clock', journal', ⟨hecho, fun _ => hnow, h.linked.failed hd, h.dated.failed hd,
      h.undisturbed.failed hd⟩, rfl, fun hne => absurd rfl hne⟩

/-- **A step of the echo is one of the sitting, or concerns the echo alone.** -/
theorem Accompanied.step {a b : Agenda Sitting Task Fault} (h : Accompanied a b)
    (hne : b.tasks ≠ []) :
    Accompanied a (b.step (perform setup.ignoring)) ∨ (a.tasks ≠ [] ∧
      Accompanied (a.step (perform setup.honouring)) (b.step (perform setup.ignoring))) := by
  obtain ⟨s, tasks, fault⟩ := a
  obtain ⟨clock, journal, hc, rfl, hfault⟩ := h
  cases tasks with
  | nil => exact absurd rfl hne
  | cons task rest =>
    have hfault : fault = none := hfault nofun
    subst hfault
    rw [Agenda.step_cons, Agenda.step_cons]
    by_cases helapse : ∃ target, task = .elapse target
    · obtain ⟨target, rfl⟩ := helapse
      rcases elapse_matches setup hc.echo hc.linked hc.dated hc.undisturbed.silent target
        with hm | ⟨clock', journal', hp, hecho⟩
      · exact .inr ⟨nofun, hc.accompanied hm rfl⟩
      · left
        rw [hp]
        exact ⟨clock', journal', ⟨hecho, fun hno => absurd rfl (hno target rest), hc.linked,
          hc.dated, hc.undisturbed⟩, rfl, fun _ => rfl⟩
    · have hother : ∀ target, task ≠ .elapse target := fun target heq => helapse ⟨target, heq⟩
      have hnow := hc.now_eq fun target _ heq => hother target (List.cons.inj heq).1
      have hm := perform_matches setup hc.echo hnow hc.linked hc.dated
        hc.undisturbed.silent (hc.undisturbed.plain task List.mem_cons_self) hother
      exact .inr ⟨nofun, hc.accompanied hm rfl⟩

theorem Accompanied.ended {a b : Agenda Sitting Task Fault} (h : Accompanied a b)
    (hb : b.tasks = []) : a.tasks = [] := by
  obtain ⟨clock, journal, -, rfl, -⟩ := h
  exact hb

/-! ## Moves in a sitting and its echo -/

/-- What two sittings leave behind: the same fault and the same sitting, apart from the alarms and
the notices of what came too late. -/
structure Agrees (o o' : Sitting × Option Fault) : Prop where
  fault_eq : o'.2 = o.2
  sitting_eq : o'.1 = { o.1 with
    clock := { o.1.clock with alarms := o'.1.clock.alarms }
    journal := o'.1.journal }
  audible_eq : o'.1.journal.filter Entry.isAudible = o.1.journal.filter Entry.isAudible

theorem Companion.agrees {fault : Option Fault} (h : Companion clock journal s []) :
    Agrees (s, fault) ({ s with clock, journal }, fault) := by
  refine ⟨rfl, ?_, h.echo.audible_eq.symm⟩
  have hclock : ({ s.clock with alarms := clock.alarms } : Clock Purpose) = clock :=
    congrArg (fun now => ({ now, alarms := clock.alarms } : Clock Purpose)) (h.now_eq nofun)
  show _ = { s with clock := { s.clock with alarms := clock.alarms }, journal }
  rw [hclock]

/-- A move is completed in a sitting and in its echo. -/
theorem Companion.completes (h : Companion clock journal s []) (hb : clock.Beats)
    (hint : 1 ≤ setup.rules.tickInterval) (m : Move) :
    ∃ s' clock' journal' fault, Completes setup.honouring s m s' fault ∧
      Completes setup.ignoring { s with clock, journal } m
        { s' with clock := clock', journal := journal' } fault ∧
      Companion clock' journal' s' [] ∧ clock'.Beats := by
  have hplain : ∀ t ∈ [Task.move m], t.Plain := fun t ht => by
    rw [List.mem_singleton.mp ht]
    exact .move m
  have hstart : Accompanied (s.start m) (start { s with clock, journal } m) :=
    ⟨clock, journal, ⟨h.echo, fun _ => h.now_eq nofun, h.linked, h.dated,
      ⟨h.undisturbed.silent, hplain⟩⟩, rfl, fun _ => rfl⟩
  obtain ⟨n, hover, hbeats⟩ := exists_end setup.ignoring hint
    (a := start { s with clock, journal } m) (fun _ _ hmem => nomatch hplain _ hmem) hb
  obtain ⟨k, hover', hrel⟩ := Agenda.exists_run_of_simulates
    (fun _ _ => Accompanied.ended) (fun _ _ => Accompanied.step) hstart hover
  obtain ⟨clock', journal', hc, heq, -⟩ := hrel
  rw [heq] at hbeats
  rw [hover'] at hc
  generalize hend : (s.start m).run (perform setup.honouring) k = e at *
  obtain ⟨s', tasks, fault⟩ := e
  cases hover'
  exact ⟨s', clock', journal', fault, ⟨k, hend⟩, ⟨n, heq⟩, hc, hbeats⟩

theorem Companion.conducts (h : Companion clock journal s []) (hb : clock.Beats)
    (hint : 1 ≤ setup.rules.tickInterval) (moves : List Move) :
    ∃ outcomes outcomes', Conducts setup.honouring s moves outcomes ∧
      Conducts setup.ignoring { s with clock, journal } moves outcomes' ∧
      List.Forall₂ Agrees outcomes outcomes' := by
  induction moves generalizing s clock journal with
  | nil => exact ⟨[], [], .nil, .nil, .nil⟩
  | cons m moves ih =>
    obtain ⟨s', clock', journal', fault, hs, ht, hc, hbeats⟩ := h.completes hb hint m
    obtain ⟨outcomes, outcomes', hos, hot, hall⟩ := ih hc hbeats
    exact ⟨_, _, .cons hs hos, .cons ht hot, .cons hc.agrees hall⟩

/-- **The moves made decide what they leave behind.** -/
theorem Conducts.unique {moves : List Move} {outcomes outcomes' : List (Sitting × Option Fault)}
    (h : Conducts setup s moves outcomes) (h' : Conducts setup s moves outcomes') :
    outcomes' = outcomes := by
  induction h generalizing outcomes' with
  | nil => cases h'; rfl
  | @cons s t m fault moves outcomes hc _ ih =>
    cases h' with
    | cons hc' hrest =>
      obtain ⟨rfl, rfl⟩ := Agenda.EndsIn.unique hc hc'
      rw [ih hrest]

/-- **Cancelling an alarm is redundant.** Whatever moves are made and whatever the listeners do, the
moves leave the same behind whether alarms that are cancelled stay silent or not, apart from the
alarms that go on running and the notices of what came too late; in particular the listeners are
called the same and the same faults come up. Each way the moves leave behind one thing only. -/
theorem conducts_with_or_without_cancelling (setup : Setup) (hint : 1 ≤ setup.rules.tickInterval)
    (sheets : Table (List Problem)) (onResult onChange : List (List Move)) (moves : List Move) :
    ∃ outcomes outcomes',
      (∀ o, Conducts setup.honouring (opening sheets onResult onChange) moves o ↔ o = outcomes) ∧
      (∀ o, Conducts setup.ignoring (opening sheets onResult onChange) moves o ↔ o = outcomes') ∧
      List.Forall₂ Agrees outcomes outcomes' := by
  have hstart : Companion {} [] (opening sheets onResult onChange) [] :=
    ⟨.refl _ _, fun _ => rfl, .opening .., fun _ h => absurd h List.not_mem_nil,
      ⟨rfl, fun _ h => absurd h List.not_mem_nil⟩⟩
  obtain ⟨outcomes, outcomes', h, h', hall⟩ := hstart.conducts
    (fun _ h => absurd h List.not_mem_nil) hint moves
  refine ⟨outcomes, outcomes', fun o => ⟨h.unique, ?_⟩, fun o => ⟨h'.unique, ?_⟩, hall⟩
  · rintro rfl
    exact h
  · rintro rfl
    exact h'

/-- The round ends while its advance is pending, and its listener starts over. -/
theorem conducts_retry_with_or_without_cancelling :
    1 ≤ ({} : Setup).rules.tickInterval ∧ ∃ outcomes outcomes',
      (∀ o, Conducts ({} : Setup).honouring (opening (Table.insert {} "sums"
        [{ id := 1, text := "2 + 3" }]) [[.retry]] [])
          [.present "sums" false, .submit 1 5.0, .finish, .wait 5000] o ↔ o = outcomes) ∧
      (∀ o, Conducts ({} : Setup).ignoring (opening (Table.insert {} "sums"
        [{ id := 1, text := "2 + 3" }]) [[.retry]] [])
          [.present "sums" false, .submit 1 5.0, .finish, .wait 5000] o ↔ o = outcomes') ∧
      List.Forall₂ Agrees outcomes outcomes' :=
  ⟨by decide, conducts_with_or_without_cancelling {} (by decide) _ _ _ _⟩

end TimedQuiz.Sitting
