import Mathlib.Data.List.Induction
import TimedQuiz.Proofs.Round.Run
import TimedQuiz.Proofs.Round.WellFormed

/-!
# The position in a round

The position is that of one of the problems, and zero if there is none. One thing alone can upset
this: the end of the round with other problems than those that it was conducted with, which are
taken over while the position stays.

* `Round.InPlace` — the position is one of those that there are;
* `Round.Outside` — it is past the last one;
* `Genuine` — advances come only if the round has ordered them;
* `LeftShort` — the round has ended with problems too few for its position.

Main statement: `Round.inPlace_unless_left_short`.
-/

namespace TimedQuiz

/-- The event begins a round with another list of problems, or with the same once more. -/
def Event.Renews : Event → Prop
  | .load _ => True
  | .retry => True
  | _ => False

namespace Round

/-- The position is that of one of the problems; if there is none, it is zero. -/
structure InPlace (r : Round) : Prop where
  nonneg : 0 ≤ r.index
  lt : r.problems ≠ [] → r.index < r.size
  zero : r.problems = [] → r.index = 0

/-- There are problems, and the position is past the last of them. -/
def Outside (r : Round) : Prop := r.problems ≠ [] ∧ r.size ≤ r.index

/-- What holds of the position at all times. -/
structure Seated (r : Round) : Prop where
  nonneg : 0 ≤ r.index
  zero : r.problems = [] → r.index = 0
  active : r.phase = .active → r.index < r.size
  filled : r.phase = .completed → r.problems ≠ []

/-- The first round ends as the second with the problems that the event brings, and these are too
few for its position. -/
def EndsShort (r : Round) (event : Event) (r' : Round) : Prop :=
  r.phase = .active ∧ r'.phase = .completed ∧
    ∃ problems, event = .finish (some problems) ∧ (problems.length : Int) ≤ r.index

variable {rules : HouseRules} {wording : Wording} {r r' : Round} {event : Event}
  {orders : List TimerOrder} {report : Option Report} {start : Round} {os : List Occasion}
  {o : Occasion}

/-! ## One move -/

theorem Seated.fresh {problems : List Problem} (generation : Int) :
    Seated { problems, generation } := by
  refine ⟨Int.le_refl 0, fun _ => rfl, fun hactive => ?_, fun hc => ?_⟩
  · exact Int.natCast_pos.mpr (List.length_pos_iff.mpr (phase_eq_active_iff.mp hactive).2)
  · cases phase_eq_completed_iff.mp hc

theorem Seated.not_outside (h : r.Seated) (hactive : r.phase = .active) : ¬ r.Outside :=
  fun hout => Int.not_le.mpr (h.active hactive) hout.2

theorem problems_eq_nil_of_loading (h : r.phase = .loading) : r.problems = [] := by
  unfold phase at h
  split at h
  · cases h
  · split at h
    · exact List.isEmpty_iff.mp (by assumption)
    · cases h

/-- Only a completed round can have its position past the last problem. -/
theorem Seated.completed (h : r.Seated) (hout : r.Outside) : r.phase = .completed := by
  cases hphase : r.phase with
  | completed => rfl
  | active => exact absurd hout (h.not_outside hphase)
  | loading => exact absurd (problems_eq_nil_of_loading hphase) hout.1

theorem Seated.inPlace_iff (h : r.Seated) : r.InPlace ↔ ¬ r.Outside := by
  constructor
  · exact fun hin hout => Int.not_le.mpr (hin.lt hout.1) hout.2
  · exact fun hout => ⟨h.nonneg, fun hne => Int.not_le.mp fun hle => hout ⟨hne, hle⟩, h.zero⟩

theorem size_answerFirst (id : Int) (answer tolerance : Float) (r : Round) :
    size { r with problems := answerFirst id answer tolerance r.problems } = r.size :=
  congrArg Nat.cast (length_answerFirst ..)

/-- The round shows another of its problems. -/
theorem Seated.withIndex (h : r.Seated) {index : Int} (h0 : 0 ≤ index) (hlt : index < r.size) :
    { r with index }.Seated := by
  refine ⟨h0, fun hnil => ?_, fun _ => hlt, h.filled⟩
  have hsize : r.size = 0 := by simp [size, show r.problems = [] from hnil]
  omega

theorem Seated.finished (h : r.Seated) {problems : List Problem} (hne : problems ≠ [])
    (rep : Report) : (r.finished problems rep).Seated := by
  refine ⟨h.nonneg, fun hnil => absurd hnil hne, fun hactive => ?_, fun _ => hne⟩
  cases (phase_eq_active_iff.mp hactive).1

/-- What holds of the position survives every move; an end with other problems is no exception,
since the round is not active after it. -/
theorem Moves.seated (hm : Moves rules wording r event r' orders report) (h : r.Seated)
    (hadvance : ∀ order, event = .advance order → 0 ≤ order.index) : r'.Seated := by
  have h0 := h.nonneg
  cases hm with
  | load problems => exact .fresh _
  | retry _ => exact .fresh _
  | finish given rep _ hne _ => exact h.finished hne rep
  | advanceToEnd order rep _ _ _ hne _ => exact h.finished hne rep
  | submit id answer p hactive _ _ =>
    have hlt := h.active hactive
    have hne := (phase_eq_active_iff.mp hactive).2
    rw [← size_answerFirst id answer rules.tolerance] at hlt
    exact ⟨h0, fun hnil => h.zero (answerFirst_eq_nil_iff.mp hnil), fun _ => hlt,
      fun _ hnil => hne (answerFirst_eq_nil_iff.mp hnil)⟩
  | advance order hactive _ _ =>
    have hlt := h.active hactive
    have horder := hadvance order rfl
    refine h.withIndex ?_ ?_ <;> simp only [lastIndex] <;> omega
  | back hactive hne =>
    have hlt := h.active hactive
    exact h.withIndex (by omega) (by omega)
  | forward hactive hlt =>
    simp only [lastIndex] at hlt
    exact h.withIndex (by omega) (by omega)
  | tick _ => exact ⟨h0, h.zero, h.active, h.filled⟩
  | teardown => exact ⟨h0, h.zero, h.active, h.filled⟩

/-- Where a round begins, its position is not past the last problem. -/
theorem Moves.not_outside_of_renews (hm : Moves rules wording r event r' orders report)
    (h : r.Seated) (hrenews : event.Renews) : ¬ r'.Outside := by
  have hadvance : ∀ order, event = .advance order → 0 ≤ order.index := by
    rintro order rfl
    cases hrenews
  intro hout
  have hc := phase_eq_completed_iff.mp ((hm.seated h hadvance).completed hout)
  cases hm with
  | load problems => cases hc
  | retry _ => cases hc
  | _ => cases hrenews

/-- As long as a round goes on with its own problems, its position is past the last one only if it
was so before. -/
theorem Moves.outside_iff_of_goesOn (hm : Moves rules wording r event r' orders report)
    (h : r.Seated) (hadvance : ∀ order, event = .advance order → 0 ≤ order.index)
    (hkeeps : ¬ event.Renews) (hown : ∀ problems, event ≠ .finish (some problems)) :
    r'.Outside ↔ r.Outside := by
  have hseated := hm.seated h hadvance
  cases hm with
  | load problems => exact absurd trivial hkeeps
  | retry _ => exact absurd trivial hkeeps
  | finish given rep _ _ _ =>
    cases given with
    | none => exact Iff.rfl
    | some problems => exact absurd rfl (hown problems)
  | submit id answer p _ _ _ =>
    rw [Outside, Outside, size_answerFirst, Ne, answerFirst_eq_nil_iff]
  | advance order hactive _ _ =>
    exact iff_of_false (hseated.not_outside hactive) (h.not_outside hactive)
  | back hactive _ => exact iff_of_false (hseated.not_outside hactive) (h.not_outside hactive)
  | forward hactive _ => exact iff_of_false (hseated.not_outside hactive) (h.not_outside hactive)
  | advanceToEnd order rep _ _ _ _ _ => exact Iff.rfl
  | tick _ => exact Iff.rfl
  | teardown => exact Iff.rfl

/-- An end with other problems leaves the position past the last of these if they are too few. -/
theorem Moves.outside_iff_of_finish {problems : List Problem}
    (hm : Moves rules wording r (.finish (some problems)) r' orders report) :
    r'.Outside ↔ r.EndsShort (.finish (some problems)) r' := by
  cases hm with
  | finish given rep hactive hne _ =>
    constructor
    · exact fun hout => ⟨hactive, phase_eq_completed_iff.mpr rfl, problems, rfl, hout.2⟩
    · rintro ⟨-, -, _, heq, hle⟩
      cases heq
      exact ⟨hne, hle⟩

/-- A move leaves the position past the last problem if it ends the round short, or if it was there
and the round is not begun anew. -/
theorem Moves.outside_iff (hm : Moves rules wording r event r' orders report) (h : r.Seated)
    (hadvance : ∀ order, event = .advance order → 0 ≤ order.index) :
    r'.Outside ↔ r.EndsShort event r' ∨ r.Outside ∧ ¬ event.Renews := by
  by_cases hother : ∃ problems, event = .finish (some problems)
  · obtain ⟨problems, rfl⟩ := hother
    rw [hm.outside_iff_of_finish, iff_comm, or_iff_left_iff_imp]
    -- such an end moves active rounds alone, and these have their place
    rintro ⟨hout, -⟩
    cases hm with
    | finish given rep hactive _ _ => exact absurd hout (h.not_outside hactive)
  · have hown : ∀ problems, event ≠ .finish (some problems) := fun ps heq => hother ⟨ps, heq⟩
    have hlong : ¬ r.EndsShort event r' := fun hends => hother (hends.2.2.imp fun _ => And.left)
    rw [or_iff_right hlong]
    by_cases hrenews : event.Renews
    · exact iff_of_false (hm.not_outside_of_renews h hrenews) fun hr => hr.2 hrenews
    · rw [hm.outside_iff_of_goesOn h hadvance hrenews hown, and_iff_left hrenews]

/-- The same for an occasion, which may also have no effect. -/
theorem outside_after_iff (h : r.Seated)
    (hadvance : ∀ order, o.event = .advance order → 0 ≤ order.index) :
    (r.after o).Outside ↔ r.EndsShort o.event (r.after o) ∨ r.Outside ∧ ¬ o.event.Renews := by
  rcases r.transitionAt_cases o with ⟨hignored, hsame, -⟩ | ⟨report, -, hm⟩
  · have effect : ∀ {event r' orders report}, o.event = event →
        ¬ Moves o.rules o.wording r event r' orders report := by
      intro event r' orders report hevent hm
      subst hevent
      rw [hm.transitionAt_eq] at hignored
      cases hignored
    rw [hsame]
    constructor
    · -- a completed round is begun anew whenever that is asked for
      refine fun hout => .inr ⟨hout, fun hrenews => ?_⟩
      cases hevent : o.event with
      | load problems => exact effect hevent (.load problems)
      | retry => exact effect hevent (.retry (h.completed hout))
      | _ =>
        rw [hevent] at hrenews
        exact hrenews
    · rintro (⟨hactive, hended, -⟩ | ⟨hout, -⟩)
      · rw [hactive] at hended
        cases hended
      · exact hout
  · exact hm.outside_iff h hadvance

theorem seated_after (h : r.Seated)
    (hadvance : ∀ order, o.event = .advance order → 0 ≤ order.index) : (r.after o).Seated := by
  rcases r.transitionAt_cases o with ⟨-, hsame, -⟩ | ⟨report, -, hm⟩
  · rw [hsame]
    exact h
  · exact hm.seated h hadvance

/-- Advances are ordered from the position, so never from a negative one. -/
theorem nonneg_of_mem_ordersAt (h : r.Seated) {order : Advance}
    (hmem : .scheduleAdvance order ∈ r.ordersAt o) : 0 ≤ order.index := by
  rcases r.transitionAt_cases o with ⟨-, -, hnone⟩ | ⟨report, -, hm⟩
  · rw [hnone] at hmem
    cases hmem
  · rw [hm.eq_of_mem_orders hmem]
    exact h.nonneg

/-! ## A run -/

/-- Every advance among the occasions was ordered at an earlier one. -/
def Genuine (start : Round) (os : List Occasion) : Prop :=
  ∀ before o further, os = before ++ o :: further → ∀ order, o.event = .advance order →
    .scheduleAdvance order ∈ start.allOrders before

/-- The round has ended with problems too few for its position, and has not been begun anew since.
-/
def LeftShort (start : Round) (os : List Occasion) : Prop :=
  ∃ before o further, os = before ++ o :: further ∧
    (start.afterAll before).EndsShort o.event ((start.afterAll before).after o) ∧
    ∀ later ∈ further, ¬ later.event.Renews

/-- A list with one more entry at its end is parted at that entry, or before it. -/
theorem snoc_eq_append_cons {α : Type} {xs before after : List α} {a x : α}
    (h : xs ++ [a] = before ++ x :: after) :
    (before = xs ∧ x = a ∧ after = []) ∨
      ∃ more, after = more ++ [a] ∧ xs = before ++ x :: more := by
  rcases List.eq_nil_or_concat after with rfl | ⟨more, y, rfl⟩
  · obtain ⟨rfl, ha⟩ := List.append_inj' h rfl
    cases ha
    exact .inl ⟨rfl, rfl, rfl⟩
  · rw [List.concat_eq_append, ← List.cons_append, ← List.append_assoc] at h
    obtain ⟨rfl, ha⟩ := List.append_inj' h rfl
    cases ha
    exact .inr ⟨more, List.concat_eq_append, rfl⟩

@[simp] theorem afterAll_snoc (start : Round) (os : List Occasion) (o : Occasion) :
    start.afterAll (os ++ [o]) = (start.afterAll os).after o := by
  rw [afterAll_append, afterAll_cons, afterAll_nil]

theorem allOrders_snoc (start : Round) (os : List Occasion) (o : Occasion) :
    start.allOrders (os ++ [o]) = start.allOrders os ++ (start.afterAll os).ordersAt o := by
  induction os generalizing start with
  | nil => simp [allOrders]
  | cons x os ih => simp [allOrders, ih]

theorem Genuine.init (h : Genuine start (os ++ [o])) : Genuine start os := by
  intro before x further hos
  exact h before x (further ++ [o]) (by simp [hos])

theorem Genuine.last (h : Genuine start (os ++ [o])) {order : Advance}
    (hevent : o.event = .advance order) : .scheduleAdvance order ∈ start.allOrders os :=
  h os o [] rfl order hevent

theorem genuine_of_no_advance (h : ∀ o ∈ os, ∀ order, o.event ≠ .advance order) :
    Genuine start os := by
  intro before o further hos order hevent
  exact absurd hevent (h o (by simp [hos]) order)

theorem Genuine.snoc (h : Genuine start os)
    (hlast : ∀ order, o.event = .advance order → .scheduleAdvance order ∈ start.allOrders os) :
    Genuine start (os ++ [o]) := by
  intro before x further hos
  rcases snoc_eq_append_cons hos with ⟨rfl, rfl, rfl⟩ | ⟨more, rfl, rfl⟩
  · exact hlast
  · exact h before x more rfl

theorem not_leftShort_nil (start : Round) : ¬ LeftShort start [] := by
  rintro ⟨before, o, further, heq, -⟩
  simp at heq

theorem leftShort_snoc (start : Round) (os : List Occasion) (o : Occasion) :
    LeftShort start (os ++ [o]) ↔
      (start.afterAll os).EndsShort o.event ((start.afterAll os).after o) ∨
        LeftShort start os ∧ ¬ o.event.Renews := by
  constructor
  · rintro ⟨before, x, further, heq, hends, hsince⟩
    rcases snoc_eq_append_cons heq with ⟨rfl, rfl, rfl⟩ | ⟨more, rfl, rfl⟩
    · exact .inl hends
    · exact .inr ⟨⟨before, x, more, rfl, hends, fun z hz => hsince z (by simp [hz])⟩,
        hsince o (by simp)⟩
  · rintro (hends | ⟨⟨before, x, further, rfl, hends, hsince⟩, hkeeps⟩)
    · exact ⟨os, o, [], rfl, hends, nofun⟩
    · refine ⟨before, x, further ++ [o], by simp, hends, fun z hz => ?_⟩
      rcases List.mem_append.mp hz with hz | hz
      · exact hsince z hz
      · rw [List.mem_singleton.mp hz]
        exact hkeeps

/-- What holds after every run in which advances come only if they were ordered. -/
theorem Genuine.seated (h : Genuine {} os) :
    (afterAll {} os).Seated ∧
      (∀ order, .scheduleAdvance order ∈ allOrders {} os → 0 ≤ order.index) ∧
      ((afterAll {} os).Outside ↔ LeftShort {} os) := by
  induction os using List.reverseRecOn with
  | nil => exact ⟨.fresh 0, nofun, iff_of_false (fun hout => hout.1 rfl) (not_leftShort_nil _)⟩
  | append_singleton os o ih =>
    obtain ⟨hseated, hordered, houtside⟩ := ih h.init
    have hadvance : ∀ order, o.event = .advance order → 0 ≤ order.index :=
      fun order hevent => hordered order (h.last hevent)
    refine ⟨?_, fun order hmem => ?_, ?_⟩
    · rw [afterAll_snoc]
      exact seated_after hseated hadvance
    · rw [allOrders_snoc] at hmem
      rcases List.mem_append.mp hmem with hmem | hmem
      · exact hordered order hmem
      · exact nonneg_of_mem_ordersAt hseated hmem
    · rw [afterAll_snoc, leftShort_snoc, outside_after_iff hseated hadvance, houtside]

/-- No problem is on show before there are any, and where the position is past the last. -/
theorem Seated.currentProblem_eq_none_iff (h : r.Seated) :
    r.currentProblem = none ↔ r.phase = .loading ∨ r.Outside := by
  have hcurrent : r.currentProblem = none ↔ r.size ≤ r.index := by
    have h0 := h.nonneg
    rw [currentProblem, if_pos h0, List.getElem?_eq_none_iff, size]
    omega
  rw [hcurrent]
  constructor
  · intro hle
    by_cases hnil : r.problems = []
    · left
      cases hphase : r.phase with
      | loading => rfl
      | active => exact absurd hnil (phase_eq_active_iff.mp hphase).2
      | completed => exact absurd hnil (h.filled hphase)
    · exact .inr ⟨hnil, hle⟩
  · rintro (hloading | hout)
    · have hnil : r.problems = [] := problems_eq_nil_of_loading hloading
      rw [h.zero hnil, size, hnil]
      exact Int.le_refl 0
    · exact hout.2

/-- **The position is that of one of the problems, whatever happens to a round**, unless the round
has ended with other problems that are too few for it; and then until a round is begun again. So
there is a problem on show at all times, those apart and the time before the first problems. -/
theorem inPlace_unless_left_short (h : Genuine {} os) :
    0 ≤ (afterAll {} os).index ∧
      ((afterAll {} os).InPlace ↔ ¬ LeftShort {} os) ∧
      (LeftShort {} os → (afterAll {} os).phase = .completed) ∧
      ((afterAll {} os).currentProblem = none ↔
        (afterAll {} os).phase = .loading ∨ LeftShort {} os) := by
  obtain ⟨hseated, -, houtside⟩ := h.seated
  refine ⟨hseated.nonneg, ?_, fun hshort => ?_, ?_⟩
  · rw [hseated.inPlace_iff, houtside]
  · exact hseated.completed (houtside.mpr hshort)
  · rw [hseated.currentProblem_eq_none_iff, houtside]

/-- The first of two problems is answered, its advance comes, and the round is ended with another
problem alone. -/
def answeredAndCut : List Occasion :=
  [twoProblems, { event := .submit 1 5.0 },
    { event := .advance { generation := 1, index := 0, count := 2 } },
    { event := .finish (some [{ id := 3, text := "5" }]) }]

theorem inPlace_unless_left_short_of_answered :
    Genuine {} answeredAndCut ∧ LeftShort {} answeredAndCut ∧
      ¬ (afterAll {} answeredAndCut).InPlace ∧
      (afterAll {} answeredAndCut).phase = .completed := by
  have hgenuine : Genuine {} answeredAndCut := by
    have hanswered : Genuine {} (answeredAndCut.take 2) :=
      genuine_of_no_advance (by simp [answeredAndCut])
    have hadvanced : Genuine {} (answeredAndCut.take 3) := hanswered.snoc fun order horder => by
      cases horder
      decide +kernel
    exact hadvanced.snoc nofun
  have hshort : LeftShort {} answeredAndCut := by
    refine ⟨answeredAndCut.take 3, _, [], rfl, ⟨?_, ?_, _, rfl, ?_⟩, nofun⟩ <;> decide +kernel
  obtain ⟨-, hiff, hcompleted, -⟩ := inPlace_unless_left_short hgenuine
  exact ⟨hgenuine, hshort, fun hin => hiff.mp hin hshort, hcompleted hshort⟩

/-- Two problems are handed in, the second is shown, and the round is ended with another problem
alone. -/
def shownAndCut : List Occasion :=
  [twoProblems, { event := .forward }, { event := .finish (some [{ id := 3, text := "5" }]) }]

/-- **The position can be past the last problem**, and then a completed round shows none. -/
theorem nothing_on_show_after_short_end :
    Genuine {} shownAndCut ∧ (afterAll {} shownAndCut).phase = .completed ∧
      (afterAll {} shownAndCut).problems ≠ [] ∧
      ¬ (afterAll {} shownAndCut).index < (afterAll {} shownAndCut).size ∧
      (afterAll {} shownAndCut).currentProblem = none := by
  have hgenuine : Genuine {} shownAndCut := genuine_of_no_advance (by simp [shownAndCut])
  exact ⟨hgenuine, by decide +kernel, by decide +kernel, by decide +kernel, by decide +kernel⟩

end Round

end TimedQuiz
