import TimedQuiz.Proofs.Round.WellFormed

/-!
# Answering the problems

* `Problem.solution` — what the answers to a problem are measured against;
* `Round.answerAll` — the problems with answers to the first of them;
* `Round.unanswered` — the problems that are left;
* `Round.midway` — the first round of a list of problems, with answers to the first of them.

Main statements: `answerFirst_answerAll` — an answer to the next problem is the next answer, if no
two problems have the same identity; `correctCount_answerAll` — the right ones are those near enough
to the solution; `submit_midway` — an answer to the problem on show.
-/

namespace TimedQuiz

/-- What the answers to a problem are measured against: zero if its expression is not read. -/
def Problem.solution (p : Problem) : Float :=
  match p.worth with
  | .ok x => x
  | .error _ => Float.ofBits 0

namespace Round

/-- The problems with an answer to each of the first. -/
def answerAll (tolerance : Float) : List Problem → List Float → List Problem
  | [], _ => []
  | p :: ps, [] => p :: ps
  | p :: ps, x :: xs => p.withAnswer x tolerance :: answerAll tolerance ps xs

variable {tolerance : Float} {ps : List Problem} {xs : List Float} {p : Problem}

@[simp] theorem answerAll_nil (tolerance : Float) (ps : List Problem) :
    answerAll tolerance ps [] = ps := by
  cases ps with
  | nil => rfl
  | cons p ps => rfl

@[simp] theorem length_answerAll (tolerance : Float) (ps : List Problem) (xs : List Float) :
    (answerAll tolerance ps xs).length = ps.length := by
  induction ps generalizing xs with
  | nil => rfl
  | cons p ps ih =>
    cases xs with
    | nil => rfl
    | cons x xs => simp [answerAll, ih]

@[simp] theorem map_id_answerAll (tolerance : Float) (ps : List Problem) (xs : List Float) :
    (answerAll tolerance ps xs).map (·.id) = ps.map (·.id) := by
  induction ps generalizing xs with
  | nil => rfl
  | cons p ps ih =>
    cases xs with
    | nil => rfl
    | cons x xs => simp [answerAll, ih, Problem.withAnswer]

theorem answerAll_eq_nil_iff : answerAll tolerance ps xs = [] ↔ ps = [] := by
  rw [← List.length_eq_zero_iff, length_answerAll, List.length_eq_zero_iff]

/-- The problem at a position has the answer at that position. -/
theorem getElem?_answerAll_of_some {i : Nat} {x : Float} (hx : xs[i]? = some x) :
    (answerAll tolerance ps xs)[i]? = ps[i]?.map (·.withAnswer x tolerance) := by
  induction ps generalizing xs i with
  | nil => rfl
  | cons p ps ih =>
    cases xs with
    | nil => cases hx
    | cons y ys =>
      cases i with
      | zero =>
        cases hx
        rfl
      | succ i => exact ih hx

/-- Where there is no answer, the problem is as it was. -/
theorem getElem?_answerAll_of_none {i : Nat} (hx : xs[i]? = none) :
    (answerAll tolerance ps xs)[i]? = ps[i]? := by
  induction ps generalizing xs i with
  | nil => rfl
  | cons p ps ih =>
    cases xs with
    | nil => rfl
    | cons y ys =>
      cases i with
      | zero => cases hx
      | succ i => exact ih hx

/-- Exactly the first problems are answered. -/
theorem isAnswered_answerAll (hnone : ∀ q ∈ ps, q.isAnswered = false) {i : Nat}
    (hp : (answerAll tolerance ps xs)[i]? = some p) :
    p.isAnswered = true ↔ i < xs.length := by
  cases hx : xs[i]? with
  | some x =>
    rw [getElem?_answerAll_of_some hx] at hp
    obtain ⟨q, -, rfl⟩ := Option.map_eq_some_iff.mp hp
    exact iff_of_true rfl (List.getElem?_eq_some_iff.mp hx).1
  | none =>
    rw [getElem?_answerAll_of_none hx] at hp
    have hopen := hnone p (List.mem_of_getElem? hp)
    have hlen := List.getElem?_eq_none_iff.mp hx
    rw [hopen]
    exact iff_of_false nofun (by omega)

theorem id_ne_of_nodup {q : Problem} {i : Nat} (hids : ((q :: ps).map (·.id)).Nodup)
    (hp : ps[i]? = some p) : q.id ≠ p.id := by
  rw [List.map_cons, List.nodup_cons] at hids
  intro heq
  exact hids.1 (heq ▸ List.mem_map.mpr ⟨p, List.mem_of_getElem? hp, rfl⟩)

/-- The first problem with the identity of the next one is the next one. -/
theorem find?_answerAll (hids : (ps.map (·.id)).Nodup) (hp : ps[xs.length]? = some p) :
    (answerAll tolerance ps xs).find? (fun q => decide (q.id = p.id)) = some p := by
  induction ps generalizing xs with
  | nil => cases hp
  | cons q ps ih =>
    cases xs with
    | nil =>
      cases hp
      exact List.find?_cons_of_pos (by simp)
    | cons x xs =>
      have hne : q.id ≠ p.id := id_ne_of_nodup hids hp
      rw [answerAll, List.find?_cons_of_neg (by simp [Problem.withAnswer, hne])]
      exact ih (List.nodup_cons.mp hids).2 hp

/-- **An answer to the next problem is the next answer.** -/
theorem answerFirst_answerAll (hids : (ps.map (·.id)).Nodup) (hp : ps[xs.length]? = some p)
    (x : Float) : answerFirst p.id x tolerance (answerAll tolerance ps xs) =
      answerAll tolerance ps (xs ++ [x]) := by
  induction ps generalizing xs with
  | nil => cases hp
  | cons q ps ih =>
    cases xs with
    | nil =>
      cases hp
      simp [answerAll, answerFirst]
    | cons y ys =>
      have hne : (q.withAnswer y tolerance).id ≠ p.id := id_ne_of_nodup hids hp
      rw [answerAll, answerFirst, if_neg hne, ih (List.nodup_cons.mp hids).2 hp]
      rfl

/-- **The right answers are those near enough to the solution.** -/
theorem correctCount_answerAll (tolerance : Float) {problems : List Problem}
    (hlen : xs.length = problems.length) :
    correctCount (answerAll tolerance (problems.map Problem.resolved) xs) =
      (problems.zip xs).countP fun q => decide ((q.2 - q.1.solution).abs < tolerance) := by
  induction problems generalizing xs with
  | nil => rfl
  | cons p ps ih =>
    cases xs with
    | nil => cases hlen
    | cons x xs =>
      have hrest := ih (Nat.succ.inj hlen)
      rw [correctCount] at hrest ⊢
      rw [List.map_cons, answerAll, List.countP_cons, List.zip_cons_cons, List.countP_cons, hrest]
      rfl

/-! ## The problems that are left -/

/-- The identities of the problems without an answer. -/
def unanswered (problems : List Problem) : List Int :=
  (problems.filter fun p => !p.isAnswered).map (·.id)

variable {id : Int}

theorem unanswered_cons_of_answered (h : p.isAnswered = true) :
    unanswered (p :: ps) = unanswered ps := by
  simp [unanswered, h]

theorem unanswered_cons_of_open (h : p.isAnswered = false) :
    unanswered (p :: ps) = p.id :: unanswered ps := by
  simp [unanswered, h]

theorem unanswered_resolved (ps : List Problem) :
    unanswered (ps.map Problem.resolved) = ps.map (·.id) := by
  induction ps with
  | nil => rfl
  | cons p ps ih => exact congrArg (p.id :: ·) ih

theorem mem_ids_of_mem_unanswered (h : id ∈ unanswered ps) : id ∈ ps.map (·.id) := by
  obtain ⟨p, hp, rfl⟩ := List.mem_map.mp h
  exact List.mem_map.mpr ⟨p, (List.mem_filter.mp hp).1, rfl⟩

/-- The first problem with an identity that is left is left. -/
theorem find?_of_mem_unanswered (hids : (ps.map (·.id)).Nodup) (h : id ∈ unanswered ps) :
    ∃ p, ps.find? (fun p => decide (p.id = id)) = some p ∧ p.isAnswered = false := by
  induction ps with
  | nil => cases h
  | cons q ps ih =>
    rw [List.map_cons, List.nodup_cons] at hids
    by_cases hq : q.id = id
    · refine ⟨q, List.find?_cons_of_pos (by simpa using hq), ?_⟩
      cases hanswered : q.isAnswered with
      | false => rfl
      | true =>
        -- another problem with the identity would be left
        rw [unanswered_cons_of_answered hanswered] at h
        exact absurd (hq ▸ mem_ids_of_mem_unanswered h) hids.1
    · rw [List.find?_cons_of_neg (by simpa using hq)]
      refine ih hids.2 ?_
      cases hanswered : q.isAnswered with
      | true => rwa [unanswered_cons_of_answered hanswered] at h
      | false =>
        rw [unanswered_cons_of_open hanswered] at h
        exact (List.mem_cons.mp h).resolve_left (Ne.symm hq)

/-- An answer takes its problem from those that are left. -/
theorem unanswered_answerFirst (hfind : ps.find? (fun p => decide (p.id = id)) = some p)
    (hopen : p.isAnswered = false) (x tolerance : Float) :
    unanswered (answerFirst id x tolerance ps) = (unanswered ps).erase id := by
  induction ps with
  | nil => cases hfind
  | cons q ps ih =>
    by_cases hq : q.id = id
    · rw [List.find?_cons_of_pos (by simpa using hq)] at hfind
      cases hfind
      rw [answerFirst, if_pos hq, unanswered_cons_of_answered rfl, unanswered_cons_of_open hopen,
        hq, List.erase_cons_head]
    · rw [List.find?_cons_of_neg (by simpa using hq)] at hfind
      rw [answerFirst, if_neg hq]
      cases hanswered : q.isAnswered with
      | true =>
        rw [unanswered_cons_of_answered hanswered, unanswered_cons_of_answered hanswered]
        exact ih hfind
      | false =>
        rw [unanswered_cons_of_open hanswered, unanswered_cons_of_open hanswered,
          List.erase_cons_tail (by simpa using hq), ih hfind]

theorem map_id_answerFirst (id : Int) (x tolerance : Float) (ps : List Problem) :
    (answerFirst id x tolerance ps).map (·.id) = ps.map (·.id) := by
  have h := congrArg (List.map Prod.fst) (map_label_answerFirst id x tolerance ps)
  rw [List.map_map, List.map_map] at h
  exact h

/-! ## The first round -/

/-- The first round of a list of problems, with answers to the first of them. -/
def midway (tolerance : Float) (problems : List Problem) (xs : List Float) (index elapsed : Int) :
    Round where
  problems := answerAll tolerance (problems.map Problem.resolved) xs
  index
  elapsed
  generation := 1

section Midway

variable {problems : List Problem} {index elapsed : Int}

theorem phase_midway (hne : problems ≠ []) :
    (midway tolerance problems xs index elapsed).phase = .active := by
  refine phase_eq_active_iff.mpr ⟨rfl, ?_⟩
  rw [midway, Ne, answerAll_eq_nil_iff, List.map_eq_nil_iff]
  exact hne

theorem size_midway : (midway tolerance problems xs index elapsed).size = problems.length := by
  simp [midway, size]

/-- The first problem without an answer is the one on show. -/
theorem currentProblem_midway {i : Nat} (hlen : xs.length = i) (hp : problems[i]? = some p) :
    (midway tolerance problems xs i elapsed).currentProblem = some p.resolved := by
  have hindex : (0 : Int) ≤ i := Int.natCast_nonneg i
  have hnone : xs[i]? = none := List.getElem?_eq_none (by omega)
  rw [currentProblem, midway, if_pos hindex, Int.toNat_natCast, getElem?_answerAll_of_none hnone,
    List.getElem?_map, hp]
  rfl

/-- **An answer to the problem on show is taken**, and an advance is ordered. -/
theorem submit_midway (rules : HouseRules) (wording : Wording) (elapsed : Int)
    (hids : (problems.map (·.id)).Nodup) {i : Nat} (hlen : xs.length = i)
    (hp : problems[i]? = some p) (x : Float) :
    Moves rules wording (midway rules.tolerance problems xs i elapsed) (.submit p.id x)
      (midway rules.tolerance problems (xs ++ [x]) i elapsed)
      [.scheduleAdvance (midway rules.tolerance problems xs i elapsed).nextAdvance] none := by
  subst hlen
  have hresolved : (problems.map Problem.resolved)[xs.length]? = some p.resolved := by
    rw [List.getElem?_map, hp]
    rfl
  have hidsResolved : ((problems.map Problem.resolved).map (·.id)).Nodup := by
    rw [List.map_map]
    exact hids
  have hanswer : answerFirst p.id x rules.tolerance
      (answerAll rules.tolerance (problems.map Problem.resolved) xs) =
      answerAll rules.tolerance (problems.map Problem.resolved) (xs ++ [x]) :=
    answerFirst_answerAll hidsResolved hresolved x
  have hactive : (midway rules.tolerance problems xs xs.length elapsed).phase = .active :=
    phase_midway (List.ne_nil_of_mem (List.mem_of_getElem? hp))
  have hround : midway rules.tolerance problems (xs ++ [x]) xs.length elapsed =
      { midway rules.tolerance problems xs xs.length elapsed with
        problems := answerFirst p.id x rules.tolerance
          (answerAll rules.tolerance (problems.map Problem.resolved) xs) } := by
    simp only [midway, hanswer]
  rw [hround]
  exact .submit p.id x p.resolved hactive (find?_answerAll hidsResolved hresolved) rfl

end Midway

end Round

end TimedQuiz
