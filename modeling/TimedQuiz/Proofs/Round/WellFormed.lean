import TimedQuiz.Proofs.Round.Moves

/-!
# Well-formed rounds

* `Problem.Sound` — the answers in a problem fit its text and each other;
* `Event.Proper` — the events that a sitting brings to its round;
* `Round.WellFormed` — what holds of a round at all times;
* `Problem.label` — what a round never changes in its problems.

Main statements: `Round.Moves.wellFormed` — every move keeps a round well formed;
`Round.Moves.labels_eq` — no move but a load changes the problems beyond their answers.
-/

namespace TimedQuiz

namespace Problem

/-- The correct answer is the one worked out from the text; without an answer of the user nothing
is right, and with one it is right if it is nearer to the correct answer than the tolerance. -/
structure Sound (tolerance : Float) (p : Problem) : Prop where
  correct_eq : p.correct = p.resolved.correct
  unanswered : p.isAnswered = false → p.user = none ∧ p.isCorrect = false
  answered : p.isAnswered = true → ∃ x c, p.user = some x ∧ p.correct = some c ∧
    p.isCorrect = decide ((x - c).abs < tolerance)

variable {tolerance : Float} {p : Problem}

theorem resolved_sound (p : Problem) : p.resolved.Sound tolerance :=
  ⟨rfl, fun _ => ⟨rfl, rfl⟩, nofun⟩

theorem Sound.withoutAnswer (h : p.Sound tolerance) : p.withoutAnswer.Sound tolerance :=
  ⟨h.correct_eq, fun _ => ⟨rfl, rfl⟩, nofun⟩

theorem Sound.withAnswer (h : p.Sound tolerance) (answer : Float) :
    (p.withAnswer answer tolerance).Sound tolerance := by
  refine ⟨h.correct_eq, nofun, fun _ => ?_⟩
  obtain ⟨c, hc⟩ : ∃ c, p.correct = some c := ⟨_, h.correct_eq⟩
  refine ⟨answer, c, rfl, hc, ?_⟩
  simp only [Problem.withAnswer, accepts, hc, Option.getD_some]

/-- What a round never changes in a problem: its identity and its text. -/
def label (p : Problem) : Int × String := (p.id, p.text)

@[simp] theorem label_resolved (p : Problem) : p.resolved.label = p.label := rfl

@[simp] theorem label_withoutAnswer (p : Problem) : p.withoutAnswer.label = p.label := rfl

end Problem

/-- An event that brings no problems of its own into a round that is under way, and no position
before the first. -/
def Event.Proper : Event → Prop
  | .finish given => given = none
  | .advance order => 0 ≤ order.index
  | _ => True

namespace Round

variable {rules : HouseRules} {wording : Wording} {r r' : Round} {event : Event}
  {orders : List TimerOrder} {report : Option Report}

/-! ## Giving an answer -/

/-- Every problem after an answer was given is one of those before, with the answer or without. -/
theorem mem_answerFirst {id : Int} {answer tolerance : Float} {ps : List Problem} {p : Problem}
    (h : p ∈ answerFirst id answer tolerance ps) :
    p ∈ ps ∨ ∃ q ∈ ps, p = q.withAnswer answer tolerance := by
  induction ps with
  | nil => cases h
  | cons q qs ih =>
    rw [answerFirst] at h
    split at h
    · rcases List.mem_cons.mp h with rfl | h
      · exact .inr ⟨q, List.mem_cons_self, rfl⟩
      · exact .inl (List.mem_cons_of_mem q h)
    · rcases List.mem_cons.mp h with rfl | h
      · exact .inl List.mem_cons_self
      · rcases ih h with h | ⟨x, hx, rfl⟩
        · exact .inl (List.mem_cons_of_mem q h)
        · exact .inr ⟨x, List.mem_cons_of_mem q hx, rfl⟩

@[simp] theorem map_label_answerFirst (id : Int) (answer tolerance : Float) (ps : List Problem) :
    (answerFirst id answer tolerance ps).map Problem.label = ps.map Problem.label := by
  induction ps with
  | nil => rfl
  | cons q qs ih =>
    rw [answerFirst]
    split
    · rfl
    · rw [List.map_cons, List.map_cons, ih]

@[simp] theorem length_answerFirst (id : Int) (answer tolerance : Float) (ps : List Problem) :
    (answerFirst id answer tolerance ps).length = ps.length := by
  have h := congrArg List.length (map_label_answerFirst id answer tolerance ps)
  simpa only [List.length_map] using h

@[simp] theorem answerFirst_eq_nil_iff {id : Int} {answer tolerance : Float} {ps : List Problem} :
    answerFirst id answer tolerance ps = [] ↔ ps = [] := by
  rw [← List.length_eq_zero_iff, length_answerFirst, List.length_eq_zero_iff]

/-! ## The invariant -/

variable (rules wording)

/-- What holds of a round at all times. -/
structure WellFormed (r : Round) : Prop where
  sound : ∀ p ∈ r.problems, p.Sound rules.tolerance
  index_nonneg : 0 ≤ r.index
  index_lt : r.problems ≠ [] → r.index < r.size
  index_zero : r.problems = [] → r.index = 0
  elapsed_nonneg : 0 ≤ r.elapsed
  completed_iff : r.completed = true ↔ r.result ≠ none
  graded : ∀ report, r.result = some report →
    r.problems ≠ [] ∧ (assess wording r.problems).outcome = .ok report

variable {rules wording}

theorem WellFormed.fresh {problems : List Problem} (generation : Int)
    (h : ∀ p ∈ problems, p.Sound rules.tolerance) :
    WellFormed rules wording { problems, generation } := by
  refine ⟨h, Int.le_refl 0, fun hne => ?_, fun _ => rfl, Int.le_refl 0, by simp, nofun⟩
  exact Int.natCast_pos.mpr (List.length_pos_iff.mpr hne)

theorem WellFormed.problems_ne_nil (h : r.WellFormed rules wording) (hc : r.completed = true) :
    r.problems ≠ [] := by
  obtain ⟨report, hres⟩ := Option.ne_none_iff_exists'.mp (h.completed_iff.mp hc)
  exact (h.graded report hres).1

theorem WellFormed.result_eq_none (h : r.WellFormed rules wording) (ha : r.phase = .active) :
    r.result = none := by
  have hc := (phase_eq_active_iff.mp ha).1
  cases hres : r.result with
  | none => rfl
  | some report =>
    rw [h.completed_iff.mpr (by simp [hres])] at hc
    cases hc

/-- The round shows another of its problems. -/
theorem WellFormed.withIndex (h : r.WellFormed rules wording) {index : Int} (h0 : 0 ≤ index)
    (hlt : index < r.size) : { r with index }.WellFormed rules wording := by
  refine { h with index_nonneg := h0, index_lt := fun _ => hlt, index_zero := fun hnil => ?_ }
  have hsize : r.size = 0 := by simp [size, show r.problems = [] from hnil]
  omega

theorem WellFormed.finished (h : r.WellFormed rules wording) (hne : r.problems ≠ [])
    {report : Report} (hgrade : (assess wording r.problems).outcome = .ok report) :
    (r.finished r.problems report).WellFormed rules wording := by
  refine { h with completed_iff := by simp [Round.finished], graded := fun rep hrep => ?_ }
  cases hrep
  exact ⟨hne, hgrade⟩

/-- **Every move keeps a round well formed.** -/
theorem Moves.wellFormed (hm : Moves rules wording r event r' orders report) (he : event.Proper)
    (h : r.WellFormed rules wording) : r'.WellFormed rules wording := by
  cases hm with
  | load problems =>
    refine .fresh _ fun p hp => ?_
    obtain ⟨q, -, rfl⟩ := List.mem_map.mp hp
    exact q.resolved_sound
  | submit id answer p hphase _ _ =>
    have hres := h.result_eq_none hphase
    have hsize : ((answerFirst id answer rules.tolerance r.problems).length : Int) = r.size :=
      congrArg Nat.cast (length_answerFirst ..)
    refine ⟨fun q hq => ?_, h.index_nonneg, fun hne => ?_, fun hnil => ?_, h.elapsed_nonneg,
      h.completed_iff, fun rep hrep => ?_⟩
    · rcases mem_answerFirst hq with hq | ⟨x, hx, rfl⟩
      · exact h.sound q hq
      · exact (h.sound x hx).withAnswer answer
    · show r.index < ((answerFirst id answer rules.tolerance r.problems).length : Int)
      rw [hsize]
      exact h.index_lt fun hnil => hne (answerFirst_eq_nil_iff.mpr hnil)
    · exact h.index_zero (answerFirst_eq_nil_iff.mp hnil)
    · exact absurd (hres.symm.trans hrep) nofun
  | finish given report hphase hne hgrade =>
    cases (show given = none from he)
    exact h.finished hne hgrade
  | advanceToEnd order report hphase _ _ hne hgrade => exact h.finished hne hgrade
  | advance order hphase _ _ =>
    have hlt := h.index_lt (phase_eq_active_iff.mp hphase).2
    have h0 := h.index_nonneg
    have ho : 0 ≤ order.index := he
    refine h.withIndex ?_ ?_ <;> simp only [lastIndex] <;> omega
  | retry hphase =>
    refine .fresh _ fun p hp => ?_
    obtain ⟨q, hq, rfl⟩ := List.mem_map.mp hp
    exact (h.sound q hq).withoutAnswer
  | back hphase hne =>
    have hlt := h.index_lt (phase_eq_active_iff.mp hphase).2
    have h0 := h.index_nonneg
    exact h.withIndex (by omega) (by omega)
  | forward hphase hlt =>
    have h0 := h.index_nonneg
    simp only [lastIndex] at hlt
    exact h.withIndex (by omega) (by omega)
  | tick hphase =>
    have h0 := h.elapsed_nonneg
    exact { h with elapsed_nonneg := show 0 ≤ r.elapsed + 1 by omega }
  | teardown => exact { h with }

/-- **No move but a load changes the problems beyond their answers.** -/
theorem Moves.labels_eq (hm : Moves rules wording r event r' orders report)
    (hload : ∀ problems, event ≠ .load problems)
    (hfinish : ∀ problems, event ≠ .finish (some problems)) :
    r'.problems.map Problem.label = r.problems.map Problem.label := by
  cases hm with
  | load problems => exact absurd rfl (hload problems)
  | submit id answer p _ _ _ => exact map_label_answerFirst ..
  | finish given report _ _ _ =>
    cases given with
    | none => rfl
    | some problems => exact absurd rfl (hfinish problems)
  | advanceToEnd order report _ _ _ _ _ => rfl
  | advance order _ _ _ => rfl
  | retry _ => simp only [List.map_map, Function.comp_def, Problem.label_withoutAnswer]
  | back _ _ => rfl
  | forward _ _ => rfl
  | tick _ => rfl
  | teardown => rfl

end Round

end TimedQuiz
