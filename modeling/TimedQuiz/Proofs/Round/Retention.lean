import TimedQuiz.Proofs.Round.WellFormed

/-!
# What a round keeps, and how it ends

* `Round.Retains` — the second round keeps the answers of the first, and its report once there is
  one.

Main statements: `Round.Moves.retains` — only a load and another try lose what a round has;
`Round.Moves.end_cases` — a report comes with the end of a round, and with nothing else.
-/

namespace TimedQuiz

namespace Round

variable {rules : HouseRules} {wording : Wording} {r r' r'' : Round} {event : Event}
  {orders : List TimerOrder} {report : Option Report} {rep : Report}

/-- The second round keeps the answers of the first, and its report once there is one. -/
structure Retains (r r' : Round) : Prop where
  answers : ∀ (i : Nat) (p : Problem), r.problems[i]? = some p → p.isAnswered = true →
    r'.problems[i]? = some p
  report : r.completed = true → r'.completed = true ∧ r'.result = r.result

theorem Retains.refl (r : Round) : r.Retains r := ⟨fun _ _ h _ => h, fun h => ⟨h, rfl⟩⟩

theorem Retains.trans (h : r.Retains r') (h' : r'.Retains r'') : r.Retains r'' := by
  constructor
  · intro i p hp hanswered
    exact h'.answers i p (h.answers i p hp hanswered) hanswered
  · intro hc
    obtain ⟨hc', hres⟩ := h.report hc
    obtain ⟨hc'', hres'⟩ := h'.report hc'
    exact ⟨hc'', hres'.trans hres⟩

/-- Giving an answer to a problem that has none leaves those that have one alone. -/
theorem getElem?_answerFirst_of_isAnswered {id : Int} {answer tolerance : Float} {q : Problem}
    {ps : List Problem} (hfirst : ps.find? (fun p => decide (p.id = id)) = some q)
    (hq : q.isAnswered = false) {i : Nat} {p : Problem} (hp : ps[i]? = some p)
    (hanswered : p.isAnswered = true) : (answerFirst id answer tolerance ps)[i]? = some p := by
  induction ps generalizing i with
  | nil => cases hp
  | cons x xs ih =>
    rw [answerFirst]
    split
    · -- the first problem is the one that is given the answer
      rename_i hid
      rw [List.find?_cons_of_pos (by simpa using hid)] at hfirst
      cases hfirst
      cases i with
      | zero =>
        cases hp
        rw [hq] at hanswered
        cases hanswered
      | succ i => exact hp
    · rename_i hid
      rw [List.find?_cons_of_neg (by simpa using hid)] at hfirst
      cases i with
      | zero => exact hp
      | succ i => exact ih hfirst hp

/-- **Only a load and another try lose what a round has.** -/
theorem Moves.retains (hm : Moves rules wording r event r' orders report)
    (hload : ∀ problems, event ≠ .load problems) (hretry : event ≠ .retry)
    (hfinish : ∀ problems, event ≠ .finish (some problems)) : r.Retains r' := by
  have active : r.phase = .active → r.completed = true → False := by
    intro hphase hc
    rw [(phase_eq_active_iff.mp hphase).1] at hc
    cases hc
  cases hm with
  | load problems => exact absurd rfl (hload problems)
  | retry _ => exact absurd rfl hretry
  | submit id answer q hphase hfirst hq =>
    constructor
    · intro i p hp hanswered
      exact getElem?_answerFirst_of_isAnswered hfirst hq hp hanswered
    · intro hc
      exact ⟨hc, rfl⟩
  | finish given report hphase _ _ =>
    cases given with
    | some problems => exact absurd rfl (hfinish problems)
    | none => exact ⟨fun _ _ hp _ => hp, fun hc => (active hphase hc).elim⟩
  | advanceToEnd order report hphase _ _ _ _ =>
    exact ⟨fun _ _ hp _ => hp, fun hc => (active hphase hc).elim⟩
  | advance order _ _ _ => exact ⟨fun _ _ hp _ => hp, fun hc => ⟨hc, rfl⟩⟩
  | back _ _ => exact ⟨fun _ _ hp _ => hp, fun hc => ⟨hc, rfl⟩⟩
  | forward _ _ => exact ⟨fun _ _ hp _ => hp, fun hc => ⟨hc, rfl⟩⟩
  | tick _ => exact ⟨fun _ _ hp _ => hp, fun hc => ⟨hc, rfl⟩⟩
  | teardown => exact ⟨fun _ _ hp _ => hp, fun hc => ⟨hc, rfl⟩⟩

variable (wording) in
/-- The round ends as it stands, with the report on its problems. -/
structure Closes (r r' : Round) (orders : List TimerOrder) (report : Report) : Prop where
  active : r.phase = .active
  round_eq : r' = r.finished r.problems report
  orders_eq : orders = stopAll
  graded : (assess wording r.problems).outcome = .ok report

theorem Closes.phase_eq (h : Closes wording r r' orders rep) : r'.phase = .completed := by
  rw [h.round_eq]
  exact phase_eq_completed_iff.mpr rfl

/-- **A report comes with the end of a round, and with nothing else.** -/
theorem Moves.end_cases (hm : Moves rules wording r event r' orders report)
    (hfinish : ∀ problems, event ≠ .finish (some problems)) :
    (∃ rep, report = some rep ∧ Closes wording r r' orders rep) ∨
      (report = none ∧ (r.phase = .active → r'.completed = false)) := by
  have active : r.phase = .active → r.completed = false :=
    fun hphase => (phase_eq_active_iff.mp hphase).1
  cases hm with
  | finish given report hphase _ hgrade =>
    cases given with
    | some problems => exact absurd rfl (hfinish problems)
    | none => exact .inl ⟨report, rfl, hphase, rfl, rfl, hgrade⟩
  | advanceToEnd order report hphase _ _ _ hgrade =>
    exact .inl ⟨report, rfl, hphase, rfl, rfl, hgrade⟩
  | load problems => exact .inr ⟨rfl, fun _ => rfl⟩
  | retry _ => exact .inr ⟨rfl, fun _ => rfl⟩
  | submit _ _ _ _ _ _ => exact .inr ⟨rfl, active⟩
  | advance order _ _ _ => exact .inr ⟨rfl, active⟩
  | back _ _ => exact .inr ⟨rfl, active⟩
  | forward _ _ => exact .inr ⟨rfl, active⟩
  | tick _ => exact .inr ⟨rfl, active⟩
  | teardown => exact .inr ⟨rfl, active⟩

end Round

end TimedQuiz
