import TimedQuiz.Proofs.Round.Run
import TimedQuiz.Proofs.Round.WellFormed
import TimedQuiz.Proofs.Scoring.Assessment

/-!
# Answers in one order or another

While a round is under way, an answer goes to the first problem with its identity, whatever the
round shows and however much time has passed. So answers to problems of different identities can
change places, and the result is the same.

* `Given`, `Given.enter` — an answer, and what it makes of the problems;
* `Event.Inner` — the events that neither begin a round nor end it;
* `Occasion.given?` — the answer given at an occasion.

Main statements: `Given.enter_comm` — two answers can change places; `problems_afterAll` — the
problems depend on the answers alone; `same_result_in_any_order`.
-/

namespace TimedQuiz

/-- An answer to the problem with an identity, under the tolerance of its moment. -/
structure Given where
  id : Int
  answer : Float
  tolerance : Float

namespace Given

/-- The answer goes to the first problem with its identity, unless that one has its answer
already. -/
def enter (g : Given) : List Problem → List Problem
  | [] => []
  | p :: ps =>
    if p.id = g.id then
      (if p.isAnswered then p else p.withAnswer g.answer g.tolerance) :: ps
    else p :: enter g ps

/-- The answers are entered one after the other. -/
def enterAll (gs : List Given) (ps : List Problem) : List Problem :=
  gs.foldl (fun ps g => g.enter ps) ps

variable {g h : Given} {gs gs' : List Given} {ps : List Problem} {p : Problem}

theorem enter_cons_of_eq (hp : p.id = g.id) : g.enter (p :: ps) =
    (if p.isAnswered then p else p.withAnswer g.answer g.tolerance) :: ps := if_pos hp

theorem enter_cons_of_ne (hp : p.id ≠ g.id) : g.enter (p :: ps) = p :: g.enter ps := if_neg hp

/-- An answer leaves the identity of its problem. -/
theorem id_ite_withAnswer (p : Problem) (g : Given) :
    (if p.isAnswered then p else p.withAnswer g.answer g.tolerance).id = p.id := by
  split <;> rfl

/-- **Answers to problems with different identities can change places.** -/
theorem enter_comm (hne : g.id ≠ h.id) (ps : List Problem) :
    g.enter (h.enter ps) = h.enter (g.enter ps) := by
  induction ps with
  | nil => rfl
  | cons p ps ih =>
    by_cases hg : p.id = g.id
    · have hh : p.id ≠ h.id := hg ▸ hne
      rw [enter_cons_of_ne hh, enter_cons_of_eq hg, enter_cons_of_eq hg, enter_cons_of_ne]
      rwa [id_ite_withAnswer]
    · by_cases hh : p.id = h.id
      · rw [enter_cons_of_eq hh, enter_cons_of_ne hg, enter_cons_of_eq hh, enter_cons_of_ne]
        rwa [id_ite_withAnswer]
      · rw [enter_cons_of_ne hh, enter_cons_of_ne hg, enter_cons_of_ne hg, enter_cons_of_ne hh, ih]

/-- Answers to problems with different identities come to the same in any order. -/
theorem enterAll_eq_of_perm (hperm : gs.Perm gs') (hids : (gs.map (·.id)).Nodup)
    (ps : List Problem) : enterAll gs ps = enterAll gs' ps := by
  apply hperm.foldl_eq'
  intro g hg h hh ps
  by_cases heq : g.id = h.id
  · rw [List.inj_on_of_nodup_map hids hg hh heq]
  · exact enter_comm (Ne.symm heq) ps

/-! ## The first problem with the identity -/

theorem enter_of_none (hfind : ps.find? (fun p => decide (p.id = g.id)) = none) :
    g.enter ps = ps := by
  induction ps with
  | nil => rfl
  | cons q ps ih =>
    rw [List.find?_eq_none] at hfind
    have hq : q.id ≠ g.id := by simpa using hfind q List.mem_cons_self
    rw [enter_cons_of_ne hq, ih]
    exact List.find?_eq_none.mpr fun p hp => hfind p (List.mem_cons_of_mem q hp)

theorem enter_of_answered (hfind : ps.find? (fun p => decide (p.id = g.id)) = some p)
    (hp : p.isAnswered = true) : g.enter ps = ps := by
  induction ps with
  | nil => rfl
  | cons q ps ih =>
    by_cases hq : q.id = g.id
    · rw [List.find?_cons_of_pos (by simpa using hq)] at hfind
      cases hfind
      rw [enter_cons_of_eq hq, if_pos hp]
    · rw [List.find?_cons_of_neg (by simpa using hq)] at hfind
      rw [enter_cons_of_ne hq, ih hfind]

theorem enter_of_open (hfind : ps.find? (fun p => decide (p.id = g.id)) = some p)
    (hp : p.isAnswered = false) :
    g.enter ps = Round.answerFirst g.id g.answer g.tolerance ps := by
  induction ps with
  | nil => rfl
  | cons q ps ih =>
    by_cases hq : q.id = g.id
    · rw [List.find?_cons_of_pos (by simpa using hq)] at hfind
      cases hfind
      rw [enter_cons_of_eq hq, if_neg (by simp [hp]), Round.answerFirst, if_pos hq]
    · rw [List.find?_cons_of_neg (by simpa using hq)] at hfind
      rw [enter_cons_of_ne hq, ih hfind, Round.answerFirst, if_neg hq]

end Given

/-- The event is an answer, a look at the problem before or after, or a second gone by: it neither
begins a round nor ends it. -/
def Event.Inner : Event → Prop
  | .submit _ _ | .back | .forward | .tick _ => True
  | .load _ | .advance _ | .finish _ | .retry | .teardown => False

instance : DecidablePred Event.Inner := fun event =>
  match event with
  | .submit _ _ | .back | .forward | .tick _ => isTrue trivial
  | .load _ | .advance _ | .finish _ | .retry | .teardown => isFalse id

/-- The answer that an event gives, under a tolerance. -/
def Event.given? (tolerance : Float) : Event → Option Given
  | .submit id answer => some { id, answer, tolerance }
  | _ => none

/-- The answer given at an occasion. -/
def Occasion.given? (o : Occasion) : Option Given := o.event.given? o.rules.tolerance

namespace Round

variable {r r' : Round} {o : Occasion} {os os' : List Occasion} {rules : HouseRules}
  {wording : Wording} {event : Event} {orders : List TimerOrder} {report : Option Report}

/-! ## A round under way -/

theorem Moves.of_inner (hm : Moves rules wording r event r' orders report)
    (hactive : r.phase = .active) (hinner : event.Inner) :
    r'.phase = .active ∧
      r'.problems = Given.enterAll (event.given? rules.tolerance).toList r.problems := by
  cases hm with
  | submit id answer p _ hfind hopen =>
    obtain ⟨hcompleted, hne⟩ := phase_eq_active_iff.mp hactive
    refine ⟨phase_eq_active_iff.mpr ⟨hcompleted, mt answerFirst_eq_nil_iff.mp hne⟩, ?_⟩
    exact (Given.enter_of_open (g := ⟨id, answer, rules.tolerance⟩) hfind hopen).symm
  | back _ _ => exact ⟨hactive, rfl⟩
  | forward _ _ => exact ⟨hactive, rfl⟩
  | tick _ => exact ⟨hactive, rfl⟩
  | load _ => cases hinner
  | finish _ _ _ _ _ => cases hinner
  | advanceToEnd _ _ _ _ _ _ _ => cases hinner
  | advance _ _ _ _ => cases hinner
  | retry _ => cases hinner
  | teardown => cases hinner

/-- An answer that is ignored has no problem to go to. -/
theorem enterAll_of_ignored (hactive : r.phase = .active) (hignored : r.transitionAt o = .ignored) :
    Given.enterAll o.given?.toList r.problems = r.problems := by
  unfold Occasion.given?
  cases hevent : o.event with
  | submit id answer =>
    show Given.enter ⟨id, answer, o.rules.tolerance⟩ r.problems = r.problems
    cases hfind : r.problems.find? fun p => decide (p.id = id) with
    | none => exact Given.enter_of_none hfind
    | some p =>
      cases hp : p.isAnswered with
      | true => exact Given.enter_of_answered hfind hp
      | false =>
        have hm : Moves o.rules o.wording r (.submit id answer) _ _ _ :=
          .submit id answer p hactive hfind hp
        rw [← hevent] at hm
        rw [hm.transitionAt_eq] at hignored
        cases hignored
  | _ => rfl

/-- A round under way goes on at an inner event, and of its problems only that answered changes. -/
theorem after_of_inner (hactive : r.phase = .active) (hinner : o.event.Inner) :
    (r.after o).phase = .active ∧
      (r.after o).problems = Given.enterAll o.given?.toList r.problems := by
  rcases r.transitionAt_cases o with ⟨hignored, hsame, -⟩ | ⟨report, -, hm⟩
  · rw [hsame]
    exact ⟨hactive, (enterAll_of_ignored hactive hignored).symm⟩
  · exact hm.of_inner hactive hinner

/-- **The problems of a round under way depend on the answers alone.** -/
theorem problems_afterAll (hactive : r.phase = .active) (hinner : ∀ o ∈ os, o.event.Inner) :
    (r.afterAll os).phase = .active ∧
      (r.afterAll os).problems = Given.enterAll (os.filterMap Occasion.given?) r.problems := by
  induction os generalizing r with
  | nil => exact ⟨hactive, rfl⟩
  | cons o os ih =>
    obtain ⟨hone, hproblems⟩ := after_of_inner hactive (hinner o List.mem_cons_self)
    obtain ⟨hall, hrest⟩ := ih hone fun o ho => hinner o (List.mem_cons_of_mem _ ho)
    refine ⟨hall, ?_⟩
    rw [afterAll_cons, hrest, hproblems]
    cases hgiven : o.given? with
    | none => rw [List.filterMap_cons_none hgiven]; rfl
    | some g => rw [List.filterMap_cons_some hgiven]; rfl

/-- **The result does not depend on the order of the answers.** A round under way takes the same
answers, to problems of different identities, in two orders; meanwhile it shows one problem or
another, and time passes, in each case as it may. The problems are the same in the end, and so is
the report if it is then ended by hand, with a wording that never refuses. -/
theorem same_result_in_any_order (rules : HouseRules) (hactive : r.phase = .active)
    (hinner : ∀ o ∈ os ++ os', o.event.Inner)
    (hperm : (os.filterMap Occasion.given?).Perm (os'.filterMap Occasion.given?))
    (hids : ((os.filterMap Occasion.given?).map (·.id)).Nodup) (hwording : wording.Willing) :
    (r.afterAll os).problems = (r.afterAll os').problems ∧
      ∃ report, ∀ s, s = r.afterAll os ∨ s = r.afterAll os' →
        s.transitionAt { rules, wording, event := .finish none } =
          .moved (s.finished s.problems report) stopAll (some report) := by
  obtain ⟨hphase, hproblems⟩ :=
    problems_afterAll hactive fun o ho => hinner o (List.mem_append_left _ ho)
  obtain ⟨hphase', hproblems'⟩ :=
    problems_afterAll hactive fun o ho => hinner o (List.mem_append_right _ ho)
  have hsame : (r.afterAll os).problems = (r.afterAll os').problems := by
    rw [hproblems, hproblems', Given.enterAll_eq_of_perm hperm hids]
  have hne := (phase_eq_active_iff.mp hphase).2
  obtain ⟨report, hreport⟩ := assess_ok hwording hne
  refine ⟨hsame, report, fun s hs => ?_⟩
  have hs : s.phase = .active ∧ s.problems = (r.afterAll os).problems := by
    rcases hs with rfl | rfl
    · exact ⟨hphase, rfl⟩
    · exact ⟨hphase', hsame.symm⟩
  have hm : Moves rules wording s (.finish none) _ _ _ :=
    .finish none report hs.1 (hs.2 ▸ hne) (hs.2 ▸ hreport)
  exact hm.transitionAt_eq (o := { rules, wording, event := .finish none })

/-- Three problems, the first two of the same identity. -/
abbrev sharedIdentity : Round where
  problems := [{ id := 1, text := "2 + 3", correct := some 5.0 },
    { id := 1, text := "4", correct := some 4.0 }, { id := 2, text := "6", correct := some 6.0 }]
  index := 1
  generation := 1

/-- Two answers, first to last, with a step and a tick in between. -/
abbrev firstToLast : List Occasion :=
  [{ event := .submit 1 5.0 }, { event := .forward }, { event := .tick 1 },
    { event := .submit 2 7.0 }]

/-- The same answers, last to first, after a step back and a tick of another generation. -/
abbrev lastToFirst : List Occasion :=
  [{ event := .back }, { event := .tick 9 }, { event := .submit 2 7.0 },
    { event := .submit 1 5.0 }]

theorem same_result_in_any_order_of_shared_identity :
    sharedIdentity.phase = .active ∧
      (firstToLast.filterMap Occasion.given?).Perm (lastToFirst.filterMap Occasion.given?) ∧
      (sharedIdentity.afterAll firstToLast).problems =
        (sharedIdentity.afterAll lastToFirst).problems ∧
      (sharedIdentity.afterAll firstToLast).problems.map (·.isCorrect) = [true, false, false] ∧
      ∃ report, (sharedIdentity.afterAll lastToFirst).transitionAt { event := .finish none } =
        .moved ((sharedIdentity.afterAll lastToFirst).finished
          (sharedIdentity.afterAll lastToFirst).problems report) stopAll (some report) := by
  have hactive : sharedIdentity.phase = .active := by decide
  have hperm : (firstToLast.filterMap Occasion.given?).Perm
      (lastToFirst.filterMap Occasion.given?) := by
    let tolerance := ({} : HouseRules).tolerance
    exact List.Perm.swap (Given.mk 2 7.0 tolerance) (Given.mk 1 5.0 tolerance) []
  have hwording : (Wording.ofCatalog .builtIn).Willing := fun _ => ⟨_, rfl⟩
  obtain ⟨hsame, report, hreport⟩ := same_result_in_any_order {} hactive (by decide) hperm
    (by decide) hwording
  exact ⟨hactive, hperm, hsame, by decide +kernel, report, hreport _ (.inr rfl)⟩

end Round

end TimedQuiz
