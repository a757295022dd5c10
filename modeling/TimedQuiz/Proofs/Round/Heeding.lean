import TimedQuiz.Proofs.Problem.Isolation
import TimedQuiz.Proofs.Scoring.Assessment

/-!
# What a round heeds

The guards that keep a transition from breaking off stand in several functions: the stage of the
round, the generation of what comes due, and the list that will be graded. Here they are said once,
for each kind of event, and of any round at all, also of one that no run leads to.

* `Round.Heeds` — what it takes for an event to move a round;
* `Transition.roundFrom`, `Transition.effects` — what a transition leaves and what it asks for.

Main statement: `Round.next_total` — with a wording that never refuses, every event gives a
transition; it moves the round if the round heeds it, and otherwise nothing happens at all.
-/

namespace TimedQuiz

/-- The round after a transition. -/
def Transition.roundFrom (r : Round) : Transition → Round
  | .ignored => r
  | .moved r' _ _ => r'

/-- What a transition asks for: first its orders to the timers, then to hand out its report. -/
def Transition.effects : Transition → List (TimerOrder ⊕ Report)
  | .ignored => []
  | .moved _ orders report => orders.map .inl ++ report.toList.map .inr

/-! ## Grading -/

section

variable {wording : Wording} {ps : List Problem} {fault : Fault}

/-- **The grading of a list that is not empty breaks off only if the wording refuses a text.** -/
theorem wording_of_assess (hne : ps ≠ []) (h : (assess wording ps).outcome = .error fault) :
    ∃ key reason, fault = .wording reason ∧ wording.say key = .error reason := by
  obtain ⟨n, hn⟩ := scoreOf_ok hne
  rcases Recorded.bind_eq_error h with h | ⟨score, -, h⟩
  · rw [hn] at h
    cases h
  · rcases Recorded.bind_eq_error h with h | ⟨title, -, h⟩
    · exact ⟨_, Wording.refusal_of_ask h⟩
    · rcases Recorded.bind_eq_error h with h | ⟨feedback, -, h⟩
      · exact ⟨_, Wording.refusal_of_ask h⟩
      · cases h

end

namespace Round

variable {rules : HouseRules} {wording : Wording} {r : Round} {event : Event}

/-! ## Faults -/

theorem wording_of_finishWith {problems : List Problem} {fault : Fault}
    (h : (r.finishWith wording problems).outcome = .error fault) :
    ∃ key reason, fault = .wording reason ∧ wording.say key = .error reason := by
  unfold finishWith at h
  split at h
  · cases h
  · rename_i hcond
    simp only [not_or, List.isEmpty_iff] at hcond
    rcases Recorded.bind_eq_error h with h | ⟨report, -, h⟩
    · exact wording_of_assess hcond.2 h
    · cases h

/-- **Nothing but a refusal of the wording can break off a transition**: no list is graded that is
empty, and no share of right answers is out of range. -/
theorem wording_of_next {fault : Fault} (h : (r.next rules wording event).outcome = .error fault) :
    ∃ key reason, fault = .wording reason ∧ wording.say key = .error reason := by
  cases event with
  | finish given => exact wording_of_finishWith h
  | advance order =>
    simp only [next, advance] at h
    split at h
    · cases h
    · split at h
      · exact wording_of_finishWith h
      · cases h
  | load problems => cases h
  | submit id answer => cases h
  | retry => cases h
  | back => cases h
  | forward => cases h
  | tick generation => cases h
  | teardown => cases h

/-! ## Guards -/

/-- What it takes for an event to move the round. -/
def Heeds (r : Round) : Event → Prop
  | .load _ => True
  | .submit id _ => r.phase = .active ∧ ∃ before p after, r.problems = before ++ p :: after ∧
      (∀ q ∈ before, q.id ≠ id) ∧ p.id = id ∧ p.isAnswered = false
  | .advance order => r.phase = .active ∧ order.generation = r.generation
  | .finish given => r.phase = .active ∧ given.getD r.problems ≠ []
  | .retry => r.phase = .completed
  | .back => r.phase = .active ∧ r.index ≠ 0
  | .forward => r.phase = .active ∧ r.index < r.lastIndex
  | .tick generation => r.phase = .active ∧ generation = r.generation
  | .teardown => True

/-- The first problem with an identity, found. -/
theorem find?_id_iff {id : Int} {p : Problem} {ps : List Problem} :
    ps.find? (fun p => decide (p.id = id)) = some p ↔
      ∃ before after, ps = before ++ p :: after ∧ (∀ q ∈ before, q.id ≠ id) ∧ p.id = id := by
  rw [List.find?_eq_some_iff_append]
  constructor
  · rintro ⟨hid, before, after, rfl, hbefore⟩
    exact ⟨before, after, rfl, fun q hq => by simpa using hbefore q hq, by simpa using hid⟩
  · rintro ⟨before, after, rfl, hbefore, hid⟩
    exact ⟨by simpa using hid, before, after, rfl, fun q hq => by simpa using hbefore q hq⟩

/-- An event that moves a round is heeded. -/
theorem Moves.heeds {r' : Round} {orders : List TimerOrder} {report : Option Report}
    (h : Moves rules wording r event r' orders report) : r.Heeds event := by
  cases h with
  | load problems => trivial
  | submit id answer p hphase hfind hopen =>
    obtain ⟨before, after, hproblems, hbefore, hid⟩ := find?_id_iff.mp hfind
    exact ⟨hphase, before, p, after, hproblems, hbefore, hid, hopen⟩
  | finish given report hphase hne _ => exact ⟨hphase, hne⟩
  | advanceToEnd order report hphase hgen _ _ _ => exact ⟨hphase, hgen⟩
  | advance order hphase hgen _ => exact ⟨hphase, hgen⟩
  | retry hphase => exact hphase
  | back hphase hne => exact ⟨hphase, hne⟩
  | forward hphase hlt => exact ⟨hphase, hlt⟩
  | tick hphase => exact ⟨hphase, rfl⟩
  | teardown => trivial

/-- An event that is heeded moves the round, unless the wording stands in the way. -/
theorem Heeds.moves (hw : wording.Willing) (h : r.Heeds event) :
    ∃ r' orders report, Moves rules wording r event r' orders report := by
  cases event with
  | load problems => exact ⟨_, _, _, .load problems⟩
  | submit id answer =>
    obtain ⟨hphase, before, p, after, hproblems, hbefore, hid, hopen⟩ := h
    have hfind := find?_id_iff.mpr ⟨before, after, hproblems, hbefore, hid⟩
    exact ⟨_, _, _, .submit id answer p hphase hfind hopen⟩
  | advance order =>
    obtain ⟨hphase, hgen⟩ := h
    have hne : r.problems ≠ [] := (phase_eq_active_iff.mp hphase).2
    by_cases hlast : order.count - 1 ≤ order.index
    · obtain ⟨report, hreport⟩ := assess_ok hw hne
      exact ⟨_, _, _, .advanceToEnd order report hphase hgen hlast hne hreport⟩
    · exact ⟨_, _, _, .advance order hphase hgen (Int.not_le.mp hlast)⟩
  | finish given =>
    obtain ⟨hphase, hne⟩ := h
    obtain ⟨report, hreport⟩ := assess_ok hw hne
    exact ⟨_, _, _, .finish given report hphase hne hreport⟩
  | retry => exact ⟨_, _, _, .retry h⟩
  | back => exact ⟨_, _, _, .back h.1 h.2⟩
  | forward => exact ⟨_, _, _, .forward h.1 h.2⟩
  | tick generation =>
    obtain ⟨hphase, rfl⟩ := h
    exact ⟨_, _, _, .tick hphase⟩
  | teardown => exact ⟨_, _, _, .teardown⟩

/-- A round that does not end after all has put nothing on record. -/
theorem finishWith_of_ignored {problems : List Problem}
    (h : (r.finishWith wording problems).outcome = .ok .ignored) :
    r.finishWith wording problems = pure .ignored := by
  unfold finishWith at h ⊢
  split at h
  · rename_i hcond
    rw [if_pos hcond]
  · obtain ⟨report, -, h⟩ := Recorded.bind_eq_ok h
    cases h

/-- A transition that ignores its event has put nothing on record either. -/
theorem next_of_ignored (h : (r.next rules wording event).outcome = .ok .ignored) :
    r.next rules wording event = pure .ignored := by
  have plain : ∀ {t : Transition}, (pure t : Recorded Transition).outcome = .ok .ignored →
      (pure t : Recorded Transition) = pure .ignored := by
    intro t h
    rw [Except.ok.inj h]
  cases event with
  | finish given => exact finishWith_of_ignored h
  | advance order =>
    simp only [next, advance] at h ⊢
    split at h
    · rename_i hcond
      rw [if_pos hcond]
    · rename_i hcond
      rw [if_neg hcond]
      split at h
      · rename_i hlast
        rw [if_pos hlast]
        exact finishWith_of_ignored h
      · cases h
  | load problems => cases h
  | submit id answer => exact plain h
  | retry => exact plain h
  | back => exact plain h
  | forward => exact plain h
  | tick generation => exact plain h
  | teardown => cases h

/-- **Every event gives a transition**, whatever the round is, also one that no run leads to, and
whatever the event carries, provided the wording never refuses a text. An event that the round
heeds moves it. Any other is ignored: nothing is put on record, the round stays the same, and
nothing is asked for. A load resolves its problems to the last one. And whatever the wording, a
refusal of its own is all that can break off a transition: there is no scoring of nothing, no
quotient out of range, and no infinity to make an integer of. -/
theorem next_total (rules : HouseRules) (hw : wording.Willing) (r : Round) (event : Event)
    (spare : Nat) :
    ∃ t, (r.next rules wording event).outcome = .ok t ∧
      (r.Heeds event → ∃ r' orders report, t = .moved r' orders report) ∧
      (¬ r.Heeds event → r.next rules wording event = pure .ignored ∧ t = .ignored ∧
        t.roundFrom r = r ∧ t.effects = []) ∧
      (∀ problems, event = .load problems → ∃ noted,
        Problem.resolveInTurn (Expr.Stack.framesNeeded + spare) problems =
          .ok ((t.roundFrom r).problems, noted)) ∧
      ∀ (other : Wording) (fault : Fault), (r.next rules other event).outcome = .error fault →
        ∃ key reason, fault = .wording reason ∧ other.say key = .error reason := by
  obtain ⟨t, ht⟩ := next_ok (r := r) rules hw event
  refine ⟨t, ht, ?_, ?_, ?_, fun other fault => wording_of_next⟩
  · intro hheeds
    have hmoves : ∃ r' orders report, Moves rules wording r event r' orders report :=
      hheeds.moves hw
    obtain ⟨r', orders, report, hmoves⟩ := hmoves
    exact ⟨r', orders, report, Except.ok.inj (ht.symm.trans hmoves.outcome_eq)⟩
  · intro hdeaf
    have hignored : t = .ignored := by
      cases t with
      | ignored => rfl
      | moved r' orders report => exact absurd (moves_of_next ht).heeds hdeaf
    rw [hignored] at ht
    exact ⟨next_of_ignored ht, hignored, by rw [hignored]; rfl, by rw [hignored]; rfl⟩
  · rintro problems rfl
    cases ht
    exact ⟨_, Problem.resolveInTurn_eq spare problems⟩

/-- A round that no run leads to, with a position and a generation below zero and with a right
answer that nobody has given: it ends when it is given an explicit list, and not when that is
empty. -/
theorem next_total_of_strange :
    Wording.echo.Willing ∧
      let strange : Round :=
        { problems := [{ id := 0, text := "1+1", isCorrect := true }], index := -5,
          generation := -1 }
      (∃ t, (strange.next {} .echo (.finish (some strange.problems))).outcome = .ok t ∧
        ∃ r' orders report, t = .moved r' orders report) ∧
      ∃ t, (strange.next {} .echo (.finish (some []))).outcome = .ok t ∧ t.effects = [] := by
  have hw : Wording.echo.Willing := fun key => ⟨_, rfl⟩
  refine ⟨hw, ?_, ?_⟩
  · obtain ⟨t, ht, hmoved, -⟩ := next_total {} hw
      { problems := [{ id := 0, text := "1+1", isCorrect := true }], index := -5,
        generation := -1 } (.finish (some [{ id := 0, text := "1+1", isCorrect := true }])) 0
    exact ⟨t, ht, hmoved ⟨rfl, nofun⟩⟩
  · obtain ⟨t, ht, -, hignored, -⟩ := next_total {} hw
      { problems := [{ id := 0, text := "1+1", isCorrect := true }], index := -5,
        generation := -1 } (.finish (some [])) 0
    exact ⟨t, ht, (hignored fun h => h.2 rfl).2.2.2⟩

end Round

end TimedQuiz
