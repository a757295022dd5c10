import TimedQuiz.Round.Transition

/-!
# The ways in which a round moves

* `Round.Moves` — every way in which an event moves a round, with the orders and the report;
* `Round.Supersedes` — what was set for a generation has no effect on the round any more;
* `Round.Follows` — the round is the same one further on, or a later one.

Main statements: `Round.moves_of_next`, `Round.Moves.outcome_eq` — an event moves a round in these
ways, and in no other; `Round.Moves.follows` — generations never go back, and a completed one is
never active again.
-/

namespace TimedQuiz

namespace Recorded

variable {α β : Type}

@[simp] theorem pure_entries (a : α) : (pure a : Recorded α).entries = [] := rfl

theorem bind_ok {x : Recorded α} {a : α} (h : x.outcome = .ok a) (f : α → Recorded β) :
    (x >>= f).outcome = (f a).outcome ∧ (x >>= f).entries = x.entries ++ (f a).entries := by
  constructor <;> simp [bind, andThen, h]

theorem bind_error {x : Recorded α} {fault : Fault} (h : x.outcome = .error fault)
    (f : α → Recorded β) :
    (x >>= f).outcome = .error fault ∧ (x >>= f).entries = x.entries := by
  constructor <;> simp [bind, andThen, h]

/-- A value in the end needs a value at first. -/
theorem bind_eq_ok {x : Recorded α} {f : α → Recorded β} {b : β}
    (h : (x >>= f).outcome = .ok b) : ∃ a, x.outcome = .ok a ∧ (f a).outcome = .ok b := by
  cases hx : x.outcome with
  | error fault => rw [(bind_error hx f).1] at h; cases h
  | ok a => rw [(bind_ok hx f).1] at h; exact ⟨a, rfl, h⟩

/-- A fault in the end is one of the first computation, or of what goes on with its value. -/
theorem bind_eq_error {x : Recorded α} {f : α → Recorded β} {fault : Fault}
    (h : (x >>= f).outcome = .error fault) :
    x.outcome = .error fault ∨ ∃ a, x.outcome = .ok a ∧ (f a).outcome = .error fault := by
  cases hx : x.outcome with
  | error fault' => rw [(bind_error hx f).1] at h; cases h; exact .inl rfl
  | ok a => rw [(bind_ok hx f).1] at h; exact .inr ⟨a, rfl, h⟩

end Recorded

namespace Round

variable (rules : HouseRules) (wording : Wording) (r : Round)

/-- The round at its end, with its report. -/
def finished (problems : List Problem) (report : Report) : Round :=
  { r with problems, completed := true, result := some report }

/-- The order of an advance from where the round stands. -/
def nextAdvance : Advance := { generation := r.generation, index := r.index, count := r.size }

/-- Every way in which an event moves a round. -/
inductive Moves : Event → Round → List TimerOrder → Option Report → Prop
  | load (problems : List Problem) :
      Moves (.load problems)
        { problems := problems.map Problem.resolved, generation := r.generation + 1 }
        (stopAll ++ if problems.isEmpty then [] else [.startTicker (r.generation + 1)]) none
  | submit (id : Int) (answer : Float) (p : Problem) : r.phase = .active →
      r.problems.find? (fun p => decide (p.id = id)) = some p → p.isAnswered = false →
      Moves (.submit id answer)
        { r with problems := answerFirst id answer rules.tolerance r.problems }
        [.scheduleAdvance r.nextAdvance] none
  | finish (given : Option (List Problem)) (report : Report) : r.phase = .active →
      given.getD r.problems ≠ [] →
      (assess wording (given.getD r.problems)).outcome = .ok report →
      Moves (.finish given) (r.finished (given.getD r.problems) report) stopAll (some report)
  | advanceToEnd (order : Advance) (report : Report) : r.phase = .active →
      order.generation = r.generation → order.count - 1 ≤ order.index → r.problems ≠ [] →
      (assess wording r.problems).outcome = .ok report →
      Moves (.advance order) (r.finished r.problems report) stopAll (some report)
  | advance (order : Advance) : r.phase = .active → order.generation = r.generation →
      order.index < order.count - 1 →
      Moves (.advance order) { r with index := min (order.index + 1) r.lastIndex } [] none
  | retry : r.phase = .completed →
      Moves .retry
        { problems := r.problems.map Problem.withoutAnswer, generation := r.generation + 1 }
        (stopAll ++ [.startTicker (r.generation + 1)]) none
  | back : r.phase = .active → r.index ≠ 0 → Moves .back { r with index := r.index - 1 } [] none
  | forward : r.phase = .active → r.index < r.lastIndex →
      Moves .forward { r with index := r.index + 1 } [] none
  | tick : r.phase = .active →
      Moves (.tick r.generation) { r with elapsed := r.elapsed + 1 } [] none
  | teardown : Moves .teardown { r with generation := r.generation + 1 } stopAll none

variable {rules wording r}

theorem moved_of_during {stage : Phase} {t : Transition} {r' : Round} {orders : List TimerOrder}
    {report : Option Report} (h : t.during stage r = .moved r' orders report) :
    r.phase = stage ∧ t = .moved r' orders report := by
  unfold Transition.during at h
  split at h
  · exact ⟨by assumption, h⟩
  · cases h

theorem moved_of_finishWith {problems : List Problem} {r' : Round} {orders : List TimerOrder}
    {report : Option Report}
    (h : (r.finishWith wording problems).outcome = .ok (.moved r' orders report)) :
    r.phase = .active ∧ problems ≠ [] ∧ ∃ rep, (assess wording problems).outcome = .ok rep ∧
      r' = r.finished problems rep ∧ orders = stopAll ∧ report = some rep := by
  unfold finishWith at h
  split at h
  · cases h
  · rename_i hcond
    simp only [not_or, Decidable.not_not, List.isEmpty_iff] at hcond
    obtain ⟨rep, hrep, h⟩ := Recorded.bind_eq_ok h
    cases h
    exact ⟨hcond.1, hcond.2, rep, hrep, rfl, rfl, rfl⟩

/-- **An event moves a round in one of the ways listed.** -/
theorem moves_of_next {event : Event} {r' : Round} {orders : List TimerOrder}
    {report : Option Report}
    (h : (r.next rules wording event).outcome = .ok (.moved r' orders report)) :
    Moves rules wording r event r' orders report := by
  cases event with
  | load problems => cases h; exact .load problems
  | submit id answer =>
    obtain ⟨hphase, h⟩ := moved_of_during (Except.ok.inj h)
    unfold submit at h
    split at h
    · cases h
    · rename_i p hp
      split at h
      · cases h
      · rename_i hanswered
        cases h
        exact .submit id answer p hphase hp (by simpa using hanswered)
  | advance order =>
    simp only [next, advance] at h
    split at h
    · cases h
    · rename_i hcond
      simp only [not_or, Decidable.not_not] at hcond
      split at h
      · rename_i hlast
        obtain ⟨hphase, hne, rep, hrep, rfl, rfl, rfl⟩ := moved_of_finishWith h
        exact .advanceToEnd order rep hphase hcond.1 hlast hne hrep
      · cases h
        exact .advance order hcond.2 hcond.1 (by omega)
  | finish given =>
    obtain ⟨hphase, hne, rep, hrep, rfl, rfl, rfl⟩ := moved_of_finishWith h
    exact .finish given rep hphase hne hrep
  | retry =>
    obtain ⟨hphase, h⟩ := moved_of_during (Except.ok.inj h)
    cases h
    exact .retry hphase
  | back =>
    obtain ⟨hphase, h⟩ := moved_of_during (Except.ok.inj h)
    unfold back at h
    split at h <;> cases h
    exact .back hphase (by assumption)
  | forward =>
    obtain ⟨hphase, h⟩ := moved_of_during (Except.ok.inj h)
    unfold forward at h
    split at h <;> cases h
    exact .forward hphase (by omega)
  | tick generation =>
    obtain ⟨hphase, h⟩ := moved_of_during (Except.ok.inj h)
    unfold tick at h
    split at h
    · cases h
    · rename_i hgen
      cases h
      rw [Decidable.not_not.mp hgen]
      exact .tick hphase
  | teardown => cases h; exact .teardown

theorem finishWith_of_assess {problems : List Problem} {rep : Report} (hphase : r.phase = .active)
    (hne : problems ≠ []) (hrep : (assess wording problems).outcome = .ok rep) :
    (r.finishWith wording problems).outcome =
      .ok (.moved (r.finished problems rep) stopAll (some rep)) := by
  have hopen : ¬(r.phase ≠ .active ∨ problems.isEmpty) := by simp [hphase, hne]
  rw [finishWith, if_neg hopen, (Recorded.bind_ok hrep _).1]
  rfl

/-- **In each of the ways listed the round is moved.** -/
theorem Moves.outcome_eq {event : Event} {r' : Round} {orders : List TimerOrder}
    {report : Option Report} (h : Moves rules wording r event r' orders report) :
    (r.next rules wording event).outcome = .ok (.moved r' orders report) := by
  have during : ∀ {stage : Phase} {t : Transition}, r.phase = stage →
      (pure (t.during stage r) : Recorded Transition).outcome = .ok t :=
    fun hphase => congrArg Except.ok (if_pos hphase)
  cases h with
  | load problems => rfl
  | submit id answer p hphase hfind hopen =>
    refine (during hphase).trans (congrArg Except.ok ?_)
    simp only [Round.submit, hfind, hopen, nextAdvance]
    rfl
  | finish given rep hphase hne hrep => exact finishWith_of_assess hphase hne hrep
  | advanceToEnd order rep hphase hgen hlast hne hrep =>
    have hvalid : ¬(order.generation ≠ r.generation ∨ r.phase ≠ .active) := by simp [hgen, hphase]
    rw [next, Round.advance, if_neg hvalid, if_pos hlast]
    exact finishWith_of_assess hphase hne hrep
  | advance order hphase hgen hlt =>
    have hvalid : ¬(order.generation ≠ r.generation ∨ r.phase ≠ .active) := by simp [hgen, hphase]
    rw [next, Round.advance, if_neg hvalid, if_neg (Int.not_le.mpr hlt)]
    rfl
  | retry hphase => exact during hphase
  | back hphase hne => exact (during hphase).trans (congrArg Except.ok (if_neg hne))
  | forward hphase hlt =>
    exact (during hphase).trans (congrArg Except.ok (if_neg (Int.not_le.mpr hlt)))
  | tick hphase =>
    exact (during hphase).trans (congrArg Except.ok (if_neg (not_not_intro rfl)))
  | teardown => rfl

/-! ## Generations -/

theorem phase_eq_active_iff : r.phase = .active ↔ r.completed = false ∧ r.problems ≠ [] := by
  unfold phase
  split
  · simp_all
  · split <;> simp_all

theorem phase_eq_completed_iff : r.phase = .completed ↔ r.completed = true := by
  unfold phase
  split
  · simp_all
  · split <;> simp_all

/-- What was set for a generation has no effect any more: a later one has begun, or that one is
completed. -/
def Supersedes (r : Round) (generation : Int) : Prop :=
  generation < r.generation ∨ (generation = r.generation ∧ r.completed = true)

/-- The second round is the first one further on, or a later one. -/
def Follows (r r' : Round) : Prop :=
  r.generation < r'.generation ∨
    (r.generation = r'.generation ∧ (r.completed = true → r'.completed = true))

theorem Follows.refl (r : Round) : r.Follows r := .inr ⟨rfl, id⟩

theorem Follows.le {r r' : Round} (h : r.Follows r') : r.generation ≤ r'.generation := by
  rcases h with h | h <;> omega

theorem Follows.supersedes {r r' : Round} (h : r.Follows r') {generation : Int}
    (hs : r.Supersedes generation) : r'.Supersedes generation := by
  rcases hs with hlt | ⟨rfl, hc⟩
  · exact .inl (Int.lt_of_lt_of_le hlt h.le)
  · exact h.imp_right fun h => ⟨h.1, h.2 hc⟩

/-- **Generations never go back, and a completed one is never active again.** -/
theorem Moves.follows {event : Event} {r' : Round} {orders : List TimerOrder}
    {report : Option Report} (h : Moves rules wording r event r' orders report) : r.Follows r' := by
  cases h with
  | load problems => exact .inl (Int.lt_succ _)
  | retry _ => exact .inl (Int.lt_succ _)
  | teardown => exact .inl (Int.lt_succ _)
  | finish given report _ _ _ => exact .inr ⟨rfl, fun _ => rfl⟩
  | advanceToEnd order report _ _ _ _ _ => exact .inr ⟨rfl, fun _ => rfl⟩
  | submit _ answer p _ _ _ => exact .inr ⟨rfl, id⟩
  | advance order _ _ _ => exact .inr ⟨rfl, id⟩
  | back _ _ => exact .inr ⟨rfl, id⟩
  | forward _ _ => exact .inr ⟨rfl, id⟩
  | tick _ => exact .inr ⟨rfl, id⟩

/-- Timers are stopped only by a move that supersedes all that was set before. -/
theorem Moves.orders_cases {event : Event} {r' : Round} {orders : List TimerOrder}
    {report : Option Report} (h : Moves rules wording r event r' orders report) :
    orders = [] ∨ orders = [.scheduleAdvance r.nextAdvance] ∨
      ∃ more, orders = stopAll ++ more ∧ (more = [] ∨ more = [.startTicker r'.generation]) ∧
        ∀ generation ≤ r.generation, r'.Supersedes generation := by
  have later : ∀ generation ≤ r.generation, generation < r.generation + 1 :=
    fun generation h => Int.lt_add_one_of_le h
  have ended : ∀ (problems : List Problem) (rep : Report), ∀ generation ≤ r.generation,
      (r.finished problems rep).Supersedes generation := by
    intro problems rep generation hle
    by_cases heq : generation = r.generation
    · exact .inr ⟨heq, rfl⟩
    · exact .inl (Int.lt_iff_le_and_ne.mpr ⟨hle, heq⟩)
  cases h with
  | load problems =>
    refine .inr (.inr ⟨_, rfl, ?_, fun g hg => .inl (later g hg)⟩)
    split
    · exact .inl rfl
    · exact .inr rfl
  | submit _ answer p _ _ _ => exact .inr (.inl rfl)
  | finish given report _ _ _ => exact .inr (.inr ⟨[], rfl, .inl rfl, ended _ _⟩)
  | advanceToEnd order report _ _ _ _ _ => exact .inr (.inr ⟨[], rfl, .inl rfl, ended _ _⟩)
  | retry _ => exact .inr (.inr ⟨_, rfl, .inr rfl, fun g hg => .inl (later g hg)⟩)
  | teardown => exact .inr (.inr ⟨[], rfl, .inl rfl, fun g hg => .inl (later g hg)⟩)
  | advance order _ _ _ => exact .inl rfl
  | back _ _ => exact .inl rfl
  | forward _ _ => exact .inl rfl
  | tick _ => exact .inl rfl

/-- Advances are ordered from where the round stands. -/
theorem Moves.eq_of_mem_orders {event : Event} {r' : Round} {orders : List TimerOrder}
    {report : Option Report} (h : Moves rules wording r event r' orders report) {order : Advance}
    (hmem : .scheduleAdvance order ∈ orders) : order = r.nextAdvance := by
  rcases h.orders_cases with rfl | rfl | ⟨more, rfl, rfl | rfl, -⟩
  · cases hmem
  · cases List.mem_singleton.mp hmem
    rfl
  · simp [stopAll] at hmem
  · simp [stopAll] at hmem

/-- Only the end of a round asks for a wording. -/
theorem ends_of_asked {event : Event} {key : String} {r' : Round} {orders : List TimerOrder}
    {report : Option Report} (hasked : .asked key ∈ (r.next rules wording event).entries)
    (h : (r.next rules wording event).outcome = .ok (.moved r' orders report)) :
    r'.completed = true ∧ orders = stopAll := by
  cases moves_of_next h with
  | finish given report _ _ _ => exact ⟨rfl, rfl⟩
  | advanceToEnd order report _ _ _ _ _ => exact ⟨rfl, rfl⟩
  | advance order hphase hgen hlt =>
    have hlast : ¬ order.count - 1 ≤ order.index := by omega
    simp [next, advance, hphase, hgen, hlast] at hasked
  | load problems => simp [next, load] at hasked
  | submit _ _ _ _ _ _ => exact absurd hasked List.not_mem_nil
  | retry _ => exact absurd hasked List.not_mem_nil
  | back _ _ => exact absurd hasked List.not_mem_nil
  | forward _ _ => exact absurd hasked List.not_mem_nil
  | tick _ => exact absurd hasked List.not_mem_nil
  | teardown => exact absurd hasked List.not_mem_nil

/-- A superseded advance is ignored. -/
theorem next_advance_of_supersedes {order : Advance} (h : r.Supersedes order.generation) :
    r.next rules wording (.advance order) = pure .ignored := by
  have hcond : order.generation ≠ r.generation ∨ r.phase ≠ .active := by
    rcases h with hlt | ⟨-, hc⟩
    · exact .inl (Int.ne_of_lt hlt)
    · exact .inr fun hactive => by simp [phase_eq_active_iff.mp hactive] at hc
  simp only [next, advance, if_pos hcond]

/-- A superseded tick is ignored. -/
theorem next_tick_of_supersedes {generation : Int} (h : r.Supersedes generation) :
    r.next rules wording (.tick generation) = pure .ignored := by
  simp only [next, Transition.during, tick]
  rcases h with hlt | ⟨-, hc⟩
  · rw [if_pos (Int.ne_of_lt hlt), ite_self]
  · rw [if_neg]
    exact fun hactive => by simp [phase_eq_active_iff.mp hactive] at hc

end Round

end TimedQuiz
