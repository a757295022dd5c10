import TimedQuiz.Proofs.HouseRules
import TimedQuiz.Proofs.Sitting.Standstill
import TimedQuiz.Proofs.Sitting.Waiting

/-!
# Clocks that spin

* `Ticking` — a round is played on which nobody acts, and its ticker stops the clock;
* `Spins` — a round is played, and its ticker has no interval.

Main statements: `Ticking.rings` — such a ticker rings as often as one likes, always at the same
moment; `Reachable.wait_ends_unless_spins` — with rules that are accepted, every other wait comes to
an end.
-/

namespace TimedQuiz.Sitting

variable {setup : Setup} {s t : Sitting} {past : List (Agenda Sitting Task Fault)}
  {a : Agenda Sitting Task Fault} {ms : Int}

/-! ## A ticker that rings for ever -/

/-- A round is played on which nobody acts, and its ticker stops the clock. -/
structure Ticking (s : Sitting) (i : Nat) (alarm : Alarm Purpose) : Prop where
  passive : s.Passive
  active : s.round.phase = .active
  stalls : s.clock.Stalls i alarm
  armed : alarm.armed = true
  payload_eq : alarm.payload = .tick s.round.generation

namespace Ticking

variable {i : Nat} {alarm : Alarm Purpose} {target : Int}

theorem withJournal (h : Ticking s i alarm) (journal : List Entry) :
    Ticking { s with journal } i alarm :=
  ⟨⟨h.passive.onResult_eq, h.passive.onChange_eq, h.passive.onWording_eq, h.passive.disposed_eq⟩,
    h.active, h.stalls, h.armed, h.payload_eq⟩

/-- The ticker rings, and the round counts another second. -/
theorem perform_eq (setup : Setup) (h : Ticking s i alarm) (hle : s.clock.now ≤ target) :
    ∃ t, perform setup (.elapse target) s =
        .done t (setup.announcement ++ [.elapse target]) ∧ Ticking t i alarm ∧
      t.clock = s.clock := by
  have hi : s.intake (.elapse target) =
      .event s (.tick s.round.generation) [.elapse target] := by
    rw [intake_elapse (h.stalls.earliest?_eq hle) h.stalls.at_position h.armed, h.stalls.ring_eq,
      h.payload_eq, deliver, if_neg (not_not_intro rfl)]
  have htick : (s.round.next setup.rules setup.wording (.tick s.round.generation)).outcome = _ :=
    (Round.Moves.tick h.active).outcome_eq
  have hp := perform_of_moved hi h.passive.onWording_eq h.passive.disposed_eq htick
  rw [heeded_eq_nil setup h.passive.onResult_eq] at hp
  refine ⟨_, hp, ⟨⟨?_, ?_, ?_, ?_⟩, h.active, h.stalls, h.armed, h.payload_eq⟩, rfl⟩
  · show (if setup.tellsResults ∧ (none : Option Report).isSome then _ else s.onResult) = []
    rw [if_neg (by simp), h.passive.onResult_eq]
  · exact h.passive.onChange_eq
  · exact h.passive.onWording_eq
  · exact h.passive.disposed_eq

/-- The round is shown, if there is anybody to show it to. -/
theorem goes_announcement (setup : Setup) (h : Ticking s i alarm) (target : Int) :
    ∃ t, (keeper setup).Goes ((keeper setup).upTo target setup.announcement s) []
        ((keeper setup).upTo target [] t) ∧ Ticking t i alarm ∧ t.clock = s.clock := by
  cases htells : setup.tellsChanges with
  | false =>
    have hnone : setup.announcement = [] := by simp [Setup.announcement, htells]
    rw [hnone]
    exact ⟨s, .stay, h, rfl⟩
  | true =>
    have hone : setup.announcement = [.announce] := by simp [Setup.announcement, htells]
    have hshown : s.announce =
        ({ s with journal := .shown s.round :: s.journal }, ([] : List Task)) := by
      simp [announce, record, h.passive.onChange_eq]
    refine ⟨{ s with journal := .shown s.round :: s.journal }, ?_, h.withJournal _, rfl⟩
    rw [hone]
    have hstep : ((keeper setup).upTo target [.announce] s).step (keeper setup).perform =
        (keeper setup).upTo target [] { s with journal := .shown s.round :: s.journal } := by
      show Agenda.mk s.announce.1 (s.announce.2 ++ [.elapse target]) none = _
      rw [hshown]
      rfl
    exact .of_step (Timekeeper.upTo_ne_nil _ _ _ _) rfl hstep .stay

/-- The ticker rings once more, at the same moment, and everything is as before. -/
theorem goes (setup : Setup) (h : Ticking s i alarm) (hle : s.clock.now ≤ target) :
    ∃ t, (keeper setup).Goes ((keeper setup).upTo target [] s) [(i, s.clock.now)]
        ((keeper setup).upTo target [] t) ∧ Ticking t i alarm ∧ t.clock = s.clock := by
  obtain ⟨t, hp, ht, hclock⟩ := h.perform_eq setup hle
  obtain ⟨u, hgoes, hu, hclock'⟩ := ht.goes_announcement setup target
  refine ⟨u, ?_, hu, hclock'.trans hclock⟩
  have hmark : (keeper setup).mark ((keeper setup).upTo target [] s) = some (i, s.clock.now) := by
    rw [Timekeeper.mark_upTo_nil]
    exact h.stalls.earliest?_eq hle
  have hstep : ((keeper setup).upTo target [] s).step (perform setup) =
      (keeper setup).upTo target setup.announcement t := by
    show (perform setup (.elapse target) s).agenda [] = _
    rw [hp, Verdict.agenda, List.append_nil]
    rfl
  exact .of_step (Timekeeper.upTo_ne_nil _ _ _ _) hmark hstep hgoes

/-- **The ticker rings for ever**, always at the same moment. -/
theorem rings (setup : Setup) (h : Ticking s i alarm) (hms : 0 ≤ ms) (n : Nat) :
    (keeper setup).Rings s ms (List.replicate n (i, s.clock.now)) := by
  have hle : s.clock.now ≤ s.clock.now + ms := by omega
  show (keeper setup).Hears s (s.clock.now + ms) _
  generalize s.clock.now + ms = target at hle
  induction n generalizing s with
  | zero => exact ⟨_, .stay⟩
  | succ n ih =>
    obtain ⟨t, hgoes, ht, hclock⟩ := h.goes setup hle
    obtain ⟨a, hrest⟩ := ih ht (hclock ▸ hle)
    rw [hclock] at hrest
    exact ⟨a, hgoes.trans hrest⟩

end Ticking

/-- A wait that comes to an end lets no more alarms ring than there are tasks to be done. -/
theorem rings_le_of_completes {fault : Option Fault} (h : Completes setup s (.wait ms) t fault) :
    ∃ bound, ∀ rings, (keeper setup).Rings s ms rings → rings.length ≤ bound := by
  obtain ⟨n, hn⟩ := h
  cases n with
  | zero => cases hn
  | succ n =>
    rw [Agenda.run_succ_of_ne (List.cons_ne_nil _ _)] at hn
    refine ⟨n, ?_⟩
    rintro rings ⟨a, hgoes⟩
    exact hgoes.length_le (congrArg Agenda.tasks hn)

theorem Ticking.not_completes {i : Nat} {alarm : Alarm Purpose} (h : Ticking s i alarm)
    (hms : 0 ≤ ms) (t : Sitting) (fault : Option Fault) :
    ¬ Completes setup s (.wait ms) t fault := by
  intro hends
  obtain ⟨bound, hbound⟩ := rings_le_of_completes hends
  have hlong := hbound _ (h.rings setup hms (bound + 1))
  rw [List.length_replicate] at hlong
  omega

/-! ## The result -/

/-- A round is played, and its ticker has no interval. -/
def Spins (setup : Setup) (s : Sitting) : Prop :=
  setup.rules.tickInterval = 0 ∧ s.round.phase = .active ∧ s.disposed = false

theorem Reachable.ticking {sheets : Table (List Problem)}
    (h : Reachable setup (opening sheets [] []) past a) (hcancel : setup.honoursCancel = true)
    (hdelay : 0 ≤ setup.rules.advanceDelay) (hforward : ∀ b ∈ past, waitsBack b.tasks = false)
    (hidle : a.tasks = []) (hspins : Spins setup a.state) :
    ∃ i alarm, Ticking a.state i alarm := by
  obtain ⟨htick, hactive, hopen⟩ := hspins
  have hl := h.linked hcancel (.opening ..)
  have hu := h.unattended
  obtain ⟨i, alarm, hstalls, hpay⟩ := (h.atStandstill hcancel htick hdelay hforward).stalls
    ⟨hactive, hopen, hidle ▸ List.not_mem_nil⟩
  exact ⟨i, alarm, ⟨hu.onResult_eq, hu.onChange_eq, hu.onWording_eq, hopen⟩, hactive, hstalls,
    (hl.level i alarm hstalls.at_position).trans hstalls.ticks.2, hpay⟩

/-- **Rules that are accepted make the clock spin only where the ticker has no interval**, and then
only while a round is played. In every other case a wait comes to an end, by itself or broken off
where the wording refuses a text, and only so many alarms ring on the way. Where the ticker has no
interval and a round is played, no wait comes to an end, however short: the ticker rings as often as
one likes, always at the moment at which the wait began. -/
theorem Reachable.wait_ends_unless_spins {vars : Table String} {sheets : Table (List Problem)}
    (hrules : HouseRules.ofVariables vars = .ok setup.rules) (hcancel : setup.honoursCancel = true)
    (h : Reachable setup (opening sheets [] []) past a)
    (hforward : ∀ b ∈ past, waitsBack b.tasks = false) (hidle : a.tasks = []) (hms : 0 ≤ ms) :
    (¬ Spins setup a.state → (∃ t fault, Completes setup a.state (.wait ms) t fault) ∧
      ∃ bound, ∀ rings, (keeper setup).Rings a.state ms rings → rings.length ≤ bound) ∧
    (Spins setup a.state → (∀ t fault, ¬ Completes setup a.state (.wait ms) t fault) ∧
      ∃ i, ∀ n, (keeper setup).Rings a.state ms (List.replicate n (i, a.state.clock.now))) := by
  obtain ⟨hdelay, hinterval⟩ := HouseRules.ofVariables_nonneg hrules
  have hl := h.linked hcancel (.opening ..)
  constructor
  · intro hspins
    suffices ∃ t fault, Completes setup a.state (.wait ms) t fault by
      obtain ⟨t, fault, hends⟩ := this
      exact ⟨⟨t, fault, hends⟩, rings_le_of_completes hends⟩
    by_cases htick : setup.rules.tickInterval = 0
    · -- no alarm runs
      have hstand := h.atStandstill hcancel htick hdelay hforward
      have hnone : ¬ Played a.state a.tasks := fun hp => hspins ⟨htick, hp.1, hp.2.1⟩
      refine ⟨_, none, (leadsTo_wait.trans (leadsTo_arrive fun j b hb hrun => ?_)).completes⟩
      exact absurd ⟨b, hb, hrun⟩ (hstand.not_runs hl hnone j)
    · have hbeats := h.beats (by omega) fun _ hmem => absurd hmem List.not_mem_nil
      exact exists_completes (by omega) hbeats _
  · intro hspins
    obtain ⟨i, alarm, hticking⟩ := h.ticking hcancel hdelay hforward hidle hspins
    exact ⟨hticking.not_completes hms, i, hticking.rings setup hms⟩

/-- An interval of zero is accepted. -/
theorem ofVariables_zero :
    HouseRules.ofVariables (Table.insert {} "MATHQUIZ_TICK_INTERVAL_MS" "0") =
      .ok { tickInterval := 0 } := rfl

/-- The shortest interval there is makes the ticker ring twice in two milliseconds, and the wait
comes to an end. -/
theorem wait_ends_while_ticking :
    ∃ past a, Reachable { rules := { tickInterval := 1 } }
        (opening (Table.insert {} "sums" [{ id := 1, text := "2 + 3" }]) [] []) past a ∧
      a.tasks = [] ∧ a.state.round.phase = .active ∧ a.state.disposed = false ∧
      (∃ t fault, Completes { rules := { tickInterval := 1 } } a.state (.wait 2) t fault) ∧
      (keeper { rules := { tickInterval := 1 } }).Rings a.state 2 [(0, 1), (0, 2)] ∧
      ∃ bound, ∀ rings, (keeper { rules := { tickInterval := 1 } }).Rings a.state 2 rings →
        rings.length ≤ bound := by
  have haccepted : HouseRules.ofVariables (Table.insert {} "MATHQUIZ_TICK_INTERVAL_MS" "1") =
      .ok { tickInterval := 1 } := rfl
  have opened : Reachable { rules := { tickInterval := 1 } }
      (opening (Table.insert {} "sums" [{ id := 1, text := "2 + 3" }]) [] []) [] _ := .start
  have shown := (opened.call (m := .present "sums" false) rfl trivial).step.step
  obtain ⟨hends, bound, hbound⟩ := (shown.wait_ends_unless_spins haccepted rfl (by decide +kernel)
    rfl (show (0 : Int) ≤ 2 by decide)).1 fun hspins => absurd hspins.1 (by decide)
  refine ⟨_, _, shown, rfl, rfl, rfl, hends, ?_, bound, hbound⟩
  -- the ticker rings, the round is shown, and the ticker rings again
  show ∃ b, (keeper { rules := { tickInterval := 1 } }).Goes
    ((keeper { rules := { tickInterval := 1 } }).upTo 2 [] _)
    ((some (0, 1)).toList ++ (none.toList ++ ((some (0, 2)).toList ++ []))) b
  exact ⟨_, .of_step (List.cons_ne_nil _ _) rfl rfl <| .of_step (List.cons_ne_nil _ _) rfl rfl <|
    .of_step (List.cons_ne_nil _ _) rfl rfl .stay⟩

/-- **The clock may spin.** One problem has been handed in, nobody acts on the sitting, and the
shortest wait there is never comes to an end. -/
theorem clock_spins_without_interval :
    HouseRules.ofVariables (Table.insert {} "MATHQUIZ_TICK_INTERVAL_MS" "0") =
        .ok { tickInterval := 0 } ∧
      ∃ past a, Reachable { rules := { tickInterval := 0 } }
          (opening (Table.insert {} "sums" [{ id := 1, text := "2 + 3" }]) [] []) past a ∧
        a.tasks = [] ∧
        (∀ t fault, ¬ Completes { rules := { tickInterval := 0 } } a.state (.wait 0) t fault) ∧
        ∀ n, ∃ rings, (keeper { rules := { tickInterval := 0 } }).Rings a.state 0 rings ∧
          rings.length = n := by
  have opened : Reachable { rules := { tickInterval := 0 } }
      (opening (Table.insert {} "sums" [{ id := 1, text := "2 + 3" }]) [] []) [] _ := .start
  have shown := (opened.call (m := .present "sums" false) rfl trivial).step.step
  obtain ⟨i, alarm, hticking⟩ := shown.ticking rfl (by decide) (by decide +kernel) rfl
    ⟨rfl, rfl, rfl⟩
  refine ⟨ofVariables_zero, _, _, shown, rfl, ?_, ?_⟩
  · exact hticking.not_completes (Int.le_refl 0)
  · exact fun n => ⟨_, hticking.rings _ (Int.le_refl 0) n, List.length_replicate⟩

end TimedQuiz.Sitting
