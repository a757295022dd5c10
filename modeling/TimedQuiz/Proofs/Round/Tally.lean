import TimedQuiz.Proofs.Round.Position
import TimedQuiz.Proofs.Round.Retention

/-!
# Answers and the advances ordered for them

From where a round begins to where it begins again, an answer stays as it was given, and each answer
taken is matched by one order of an advance.

* `TimerOrder.isAdvance` — the orders that are counted;
* `Round.FirstWith` — the first problem with an identity, and where it stands;
* `Round.Begins` — an occasion begins the round, with other problems or with the same once more;
* `Round.JustBegun`, `Round.GoesOn` — the runs up to such an occasion, and those without any.

Main statements: `after_submit` — what an answer does; `answeredCount_afterAll` — as many advances
are ordered as problems are answered; `answers_given_once` — both, over every run.
-/

namespace TimedQuiz

/-- The order is one of an advance. -/
def TimerOrder.isAdvance : TimerOrder → Bool
  | .scheduleAdvance _ => true
  | _ => false

instance : DecidablePred Event.Renews := fun event =>
  match event with
  | .load _ | .retry => isTrue trivial
  | .submit _ _ | .advance _ | .finish _ | .back | .forward | .tick _ | .teardown => isFalse id

namespace Round

/-- The first of the problems with an identity, and its position. -/
structure FirstWith (ps : List Problem) (id : Int) (i : Nat) (p : Problem) : Prop where
  here : ps[i]? = some p
  id_eq : p.id = id
  none_before : ∀ j q, j < i → ps[j]? = some q → q.id ≠ id

/-- The occasion begins the round, with another list of problems or with the same once more. -/
def Begins (r : Round) (o : Occasion) : Prop := o.event.Renews ∧ r.transitionAt o ≠ .ignored

instance (r : Round) (o : Occasion) : Decidable (r.Begins o) := instDecidableAnd

/-- Nothing has happened yet, or the last occasion has begun the round. -/
def JustBegun (os : List Occasion) : Prop :=
  os = [] ∨ ∃ earlier o, os = earlier ++ [o] ∧ (afterAll {} earlier).Begins o

/-- None of the occasions begins the round anew. -/
def GoesOn : Round → List Occasion → Prop
  | _, [] => True
  | r, o :: os => ¬ r.Begins o ∧ GoesOn (r.after o) os

instance decidableGoesOn : ∀ (r : Round) (os : List Occasion), Decidable (r.GoesOn os)
  | _, [] => isTrue trivial
  | r, o :: os => @instDecidableAnd _ _ _ (decidableGoesOn (r.after o) os)

variable {rules : HouseRules} {wording : Wording} {r r' : Round} {event : Event}
  {orders : List TimerOrder} {report : Option Report} {o : Occasion} {os os' : List Occasion}
  {id : Int} {i : Nat} {p : Problem}

theorem goesOn_append : r.GoesOn (os ++ os') ↔ r.GoesOn os ∧ (r.afterAll os).GoesOn os' := by
  induction os generalizing r with
  | nil => simp [GoesOn]
  | cons o os ih => rw [List.cons_append, GoesOn, GoesOn, ih, and_assoc, afterAll_cons]

/-- **Every run has a last point at which the round begins.** -/
theorem exists_justBegun_goesOn (os : List Occasion) :
    ∃ before since, os = before ++ since ∧ JustBegun before ∧
      (afterAll {} before).GoesOn since := by
  induction os using List.reverseRecOn with
  | nil => exact ⟨[], [], rfl, .inl rfl, trivial⟩
  | append_singleton os o ih =>
    obtain ⟨before, since, rfl, hbegun, hgoes⟩ := ih
    by_cases hbegins : (afterAll {} (before ++ since)).Begins o
    · exact ⟨_, [], (List.append_nil _).symm, .inr ⟨_, o, rfl, hbegins⟩, trivial⟩
    · refine ⟨before, since ++ [o], List.append_assoc .., hbegun, ?_⟩
      rw [goesOn_append]
      rw [afterAll_append] at hbegins
      exact ⟨hgoes, hbegins, trivial⟩

/-! ## One answer -/

theorem find?_eq_some_iff_firstWith {ps : List Problem} :
    ps.find? (fun q => decide (q.id = id)) = some p ↔ ∃ i, FirstWith ps id i p := by
  rw [List.find?_eq_some_iff_getElem]
  constructor
  · rintro ⟨hid, i, hi, rfl, hnone⟩
    refine ⟨i, List.getElem?_eq_getElem hi, of_decide_eq_true hid, fun j q hj hq => ?_⟩
    obtain ⟨_, rfl⟩ := List.getElem?_eq_some_iff.mp hq
    simpa using hnone j hj
  · rintro ⟨i, hp, hid, hnone⟩
    obtain ⟨hi, hget⟩ := List.getElem?_eq_some_iff.mp hp
    refine ⟨decide_eq_true hid, i, hi, hget, fun j hj => ?_⟩
    simpa using hnone j ps[j] hj (List.getElem?_eq_getElem _)

/-- The answer goes to the position of the first problem with the identity. -/
theorem FirstWith.answerFirst_eq_set {ps : List Problem} (h : FirstWith ps id i p)
    (answer tolerance : Float) :
    answerFirst id answer tolerance ps = ps.set i (p.withAnswer answer tolerance) := by
  induction ps generalizing i with
  | nil => cases h.here
  | cons q ps ih =>
    cases i with
    | zero =>
      cases h.here
      exact if_pos h.id_eq
    | succ i =>
      have hq : q.id ≠ id := h.none_before 0 q (Nat.succ_pos i) rfl
      have hrest : FirstWith ps id i p :=
        ⟨h.here, h.id_eq, fun j q hj => h.none_before (j + 1) q (Nat.succ_lt_succ hj)⟩
      rw [answerFirst, if_neg hq, List.set_cons_succ, ih hrest]

/-- An answer makes one more answered problem. -/
theorem countP_answerFirst {ps : List Problem}
    (hfirst : ps.find? (fun q => decide (q.id = id)) = some p) (hopen : p.isAnswered = false)
    (answer tolerance : Float) :
    (answerFirst id answer tolerance ps).countP (·.isAnswered) = ps.countP (·.isAnswered) + 1 := by
  obtain ⟨i, hfirst⟩ := find?_eq_some_iff_firstWith.mp hfirst
  obtain ⟨hi, hget⟩ := List.getElem?_eq_some_iff.mp hfirst.here
  have hnew : (p.withAnswer answer tolerance).isAnswered = true := rfl
  rw [hfirst.answerFirst_eq_set, List.countP_set hi, hget, hopen, hnew]
  simp

/-- **The answer to a problem without one** goes to the first problem with the identity, changes
nothing else, and orders one advance. -/
theorem after_submit {answer : Float} (hevent : o.event = .submit id answer)
    (hactive : r.phase = .active) (hfirst : FirstWith r.problems id i p)
    (hopen : p.isAnswered = false) :
    r.after o =
        { r with problems := r.problems.set i (p.withAnswer answer o.rules.tolerance) } ∧
      r.ordersAt o = [.scheduleAdvance r.nextAdvance] := by
  have hfind := find?_eq_some_iff_firstWith.mpr ⟨i, hfirst⟩
  have hm : Moves o.rules o.wording r (.submit id answer) _ _ _ :=
    .submit id answer p hactive hfind hopen
  rw [← hevent] at hm
  rw [← hfirst.answerFirst_eq_set]
  simp only [after, ordersAt, hm.transitionAt_eq, and_self]

/-! ## The count -/

/-- A move makes as many answered problems as it orders advances, unless it begins the round. -/
theorem Moves.answeredCount_eq (hm : Moves rules wording r event r' orders report)
    (hkeeps : ¬ event.Renews) (hown : ∀ problems, event ≠ .finish (some problems)) :
    r'.answeredCount = r.answeredCount + orders.countP TimerOrder.isAdvance := by
  cases hm with
  | load problems => exact absurd trivial hkeeps
  | retry _ => exact absurd trivial hkeeps
  | submit id answer p _ hfirst hopen => exact countP_answerFirst hfirst hopen answer _
  | finish given report _ _ _ =>
    cases given with
    | some problems => exact absurd rfl (hown problems)
    | none => rfl
  | advanceToEnd order report _ _ _ _ _ => rfl
  | advance order _ _ _ => rfl
  | back _ _ => rfl
  | forward _ _ => rfl
  | tick _ => rfl
  | teardown => rfl

/-- Where a round begins, no problem is answered. -/
theorem Moves.answeredCount_of_renews (hm : Moves rules wording r event r' orders report)
    (hrenews : event.Renews) : r'.answeredCount = 0 := by
  cases hm with
  | load problems => simp [answeredCount, Problem.resolved]
  | retry _ => simp [answeredCount, Problem.withoutAnswer]
  | _ => cases hrenews

theorem answeredCount_of_justBegun (h : JustBegun os) : (afterAll {} os).answeredCount = 0 := by
  rcases h with rfl | ⟨earlier, o, rfl, hrenews, hmoved⟩
  · rfl
  · rw [afterAll_snoc]
    rcases (afterAll {} earlier).transitionAt_cases o with ⟨hignored, -⟩ | ⟨report, -, hm⟩
    · exact absurd hignored hmoved
    · exact hm.answeredCount_of_renews hrenews

/-- What an occasion does to the answers, unless it begins the round: there are as many more as
advances are ordered, and those there were stay. -/
theorem after_of_goesOn (hgoes : ¬ r.Begins o)
    (hown : ∀ problems, o.event ≠ .finish (some problems)) :
    (r.after o).answeredCount = r.answeredCount + (r.ordersAt o).countP TimerOrder.isAdvance ∧
      r.Retains (r.after o) := by
  rcases r.transitionAt_cases o with ⟨-, hsame, hnone⟩ | ⟨report, htransition, hm⟩
  · rw [hsame, hnone]
    exact ⟨rfl, .refl r⟩
  · have hkeeps : ¬ o.event.Renews := fun hrenews => hgoes ⟨hrenews, by rw [htransition]; nofun⟩
    refine ⟨hm.answeredCount_eq hkeeps hown, hm.retains ?_ ?_ hown⟩
    · exact fun problems heq => hkeeps (heq ▸ trivial)
    · exact fun heq => hkeeps (heq ▸ trivial)

/-- **As long as a round goes on, it has one more answer for every advance ordered.** -/
theorem answeredCount_afterAll (hgoes : r.GoesOn os)
    (hown : ∀ o ∈ os, ∀ problems, o.event ≠ .finish (some problems)) :
    (r.afterAll os).answeredCount =
      r.answeredCount + (r.allOrders os).countP TimerOrder.isAdvance := by
  induction os generalizing r with
  | nil => rfl
  | cons o os ih =>
    obtain ⟨hone, hrest⟩ := hgoes
    obtain ⟨hcount, -⟩ := after_of_goesOn hone (hown o List.mem_cons_self)
    rw [afterAll_cons, ih hrest fun o ho => hown o (List.mem_cons_of_mem _ ho), hcount, allOrders,
      List.countP_append, Nat.add_assoc]

/-- As long as a round goes on, its answers stay. -/
theorem retains_afterAll (hgoes : r.GoesOn os)
    (hown : ∀ o ∈ os, ∀ problems, o.event ≠ .finish (some problems)) :
    r.Retains (r.afterAll os) := by
  induction os generalizing r with
  | nil => exact .refl r
  | cons o os ih =>
    obtain ⟨hone, hrest⟩ := hgoes
    obtain ⟨-, hkept⟩ := after_of_goesOn hone (hown o List.mem_cons_self)
    exact hkept.trans (ih hrest fun o ho => hown o (List.mem_cons_of_mem _ ho))

/-- **Answers are given once, and each orders one advance.** Since the round has begun, as many
advances have been ordered as problems are answered; and an answer to an active round whose first
problem with the identity has none is what this problem keeps, whatever happens until the round
begins again, while it touches nothing else and orders one advance. -/
theorem answers_given_once {before since : List Occasion} (hbegun : JustBegun before)
    (hgoes : (afterAll {} before).GoesOn since)
    (hown : ∀ o ∈ since, ∀ problems, o.event ≠ .finish (some problems)) :
    ((afterAll {} before).allOrders since).countP TimerOrder.isAdvance =
        (afterAll {} (before ++ since)).answeredCount ∧
      ∀ done o later id answer i p, since = done ++ o :: later → o.event = .submit id answer →
        (afterAll {} (before ++ done)).phase = .active →
        FirstWith (afterAll {} (before ++ done)).problems id i p → p.isAnswered = false →
          let given : Problem := { p with
            user := some answer
            isCorrect := p.accepts answer o.rules.tolerance
            isAnswered := true }
          let r := afterAll {} (before ++ done)
          r.after o = { r with problems := r.problems.set i given } ∧
            r.ordersAt o = [.scheduleAdvance r.nextAdvance] ∧
            (afterAll {} (before ++ since)).problems[i]? = some given := by
  constructor
  · rw [afterAll_append, answeredCount_afterAll hgoes hown, answeredCount_of_justBegun hbegun,
      Nat.zero_add]
  · rintro done o later id answer i p rfl hevent hactive hfirst hopen given r
    obtain ⟨hafter, horders⟩ := after_submit hevent hactive hfirst hopen
    refine ⟨hafter, horders, ?_⟩
    -- the answer stands where it was given, and what follows retains it
    have hlt : i < r.problems.length := (List.getElem?_eq_some_iff.mp hfirst.here).1
    have hgiven : (r.after o).problems[i]? = some given := by
      rw [hafter]
      exact List.getElem?_set_self hlt
    have hlater : (r.after o).GoesOn later := by
      have hrest := (goesOn_append.mp hgoes).2.2
      rwa [← afterAll_append] at hrest
    have hkept := retains_afterAll hlater fun x hx => hown x (by simp [hx])
    rw [← List.append_assoc, afterAll_append, afterAll_cons]
    exact hkept.answers i given hgiven rfl

/-- Three problems are handed in, the first two with the same identity; the first is answered, the
round is ended and begun over. -/
def begunOver : List Occasion :=
  [{ event := .load [{ id := 1, text := "2 + 3" }, { id := 1, text := "4" },
      { id := 2, text := "6" }] },
    { event := .submit 1 5.0 }, { event := .finish none }, { event := .retry }]

/-- What is answered, twice, and whatever else comes before the round is ended. -/
def answeredTwice : List Occasion :=
  [{ event := .forward }, { event := .submit 1 5.0 }, { event := .submit 1 4.0 },
    { event := .submit 9 1.0 }, { event := .retry }, { event := .submit 2 7.0 },
    { event := .tick 2 }, { event := .back }, { event := .teardown }, { event := .finish none },
    { event := .submit 1 4.0 }]

theorem answers_given_once_of_same_id :
    JustBegun begunOver ∧ (afterAll {} begunOver).GoesOn answeredTwice ∧
      ((afterAll {} begunOver).allOrders answeredTwice).countP TimerOrder.isAdvance = 2 ∧
      (afterAll {} (begunOver ++ answeredTwice)).problems[0]? =
        some { id := 1, text := "2 + 3", correct := some 5.0, user := some 5.0,
               isCorrect := true, isAnswered := true } := by
  have hbegun : JustBegun begunOver :=
    .inr ⟨begunOver.take 3, _, rfl, by decide +kernel⟩
  have hgoes : (afterAll {} begunOver).GoesOn answeredTwice := by decide +kernel
  have hown : ∀ o ∈ answeredTwice, ∀ problems, o.event ≠ .finish (some problems) := by
    simp [answeredTwice]
  obtain ⟨hcount, honce⟩ := answers_given_once hbegun hgoes hown
  have hactive : (afterAll {} (begunOver ++ answeredTwice.take 1)).phase = .active := by
    decide +kernel
  have hfirst : FirstWith (afterAll {} (begunOver ++ answeredTwice.take 1)).problems 1 0
      { id := 1, text := "2 + 3", correct := some 5.0 } :=
    ⟨by decide +kernel, rfl, fun j q hj => absurd hj (Nat.not_lt_zero j)⟩
  obtain ⟨-, -, hkept⟩ := honce (answeredTwice.take 1) _ _ 1 5.0 0 _ rfl rfl hactive hfirst rfl
  refine ⟨hbegun, hgoes, hcount.trans (by decide +kernel), hkept.trans (by decide +kernel)⟩

end Round

end TimedQuiz
