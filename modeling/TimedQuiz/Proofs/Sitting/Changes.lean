import TimedQuiz.Proofs.Round.Tally
import TimedQuiz.Proofs.Sitting.Advances
import TimedQuiz.Proofs.Sitting.Announcements

/-!
# What has changed when the listener for changes is called

Where the listener for results does nothing of its own, the listener for changes is called at once,
by the very next task after the one that has put a round in place. The round that it is shown
differs from the one before, with one exception.

* `Round.Differs` — the rounds differ in a number, or one is completed;
* `Overtaken` — the next task lets an advance reach a round that shows the problem already that it
  leads to;
* `Prompt` — the only announcement to be made is the next task, for the round just put in place.

Main statements: `Round.Moves.differs_or_same` — only an advance puts the round in place that there
was; `Reachable.shown_round_differs_unless_overtaken`. That an advance may find itself overtaken:
`shown_the_round_that_was`.
-/

namespace TimedQuiz

namespace Round

variable {rules : HouseRules} {wording : Wording} {r r' : Round} {e : Event}
  {orders : List TimerOrder} {report : Option Report}

/-- The rounds differ in their generation, their position, their time or the number of their
answers, or one of them is completed. -/
def Differs (r r' : Round) : Prop :=
  r'.generation ≠ r.generation ∨ r'.index ≠ r.index ∨ r'.elapsed ≠ r.elapsed ∨
    r'.completed ≠ r.completed ∨ r'.answeredCount ≠ r.answeredCount

theorem Differs.ne (h : r.Differs r') : r' ≠ r := by
  rintro rfl
  simp [Differs] at h

/-- The advance leads to the problem on show. -/
def ShowsAlready (r : Round) (order : Advance) : Prop :=
  order.index < order.count - 1 ∧ r.index = min (order.index + 1) r.lastIndex

/-- **Only an advance puts the round in place that there was**, when it leads to the problem on
show; every other move makes a difference. -/
theorem Moves.differs_or_same (hm : Moves rules wording r e r' orders report)
    (hown : ∀ problems, e ≠ .finish (some problems)) :
    (r.Differs r' ∧ ∀ order, e = .advance order → ¬ r.ShowsAlready order) ∨
      (r' = r ∧ ∃ order, e = .advance order ∧ r.ShowsAlready order) := by
  have ended : r.phase = .active → true ≠ r.completed := by
    intro hactive heq
    rw [(phase_eq_active_iff.mp hactive).1] at heq
    cases heq
  cases hm with
  | advance order _ _ hlt =>
    by_cases hsame : r.index = min (order.index + 1) r.lastIndex
    · exact .inr ⟨by rw [← hsame], order, rfl, hlt, hsame⟩
    · refine .inl ⟨.inr (.inl (Ne.symm hsame)), fun order' heq hshows => ?_⟩
      cases heq
      exact hsame hshows.2
  | advanceToEnd order report hactive _ hlast _ _ =>
    refine .inl ⟨.inr (.inr (.inr (.inl (ended hactive)))), fun order' heq hshows => ?_⟩
    cases heq
    exact Int.not_le.mpr hshows.1 hlast
  | load problems => exact .inl ⟨.inl (Int.ne_of_gt (Int.lt_succ _)), by rintro _ ⟨⟩⟩
  | retry _ => exact .inl ⟨.inl (Int.ne_of_gt (Int.lt_succ _)), by rintro _ ⟨⟩⟩
  | teardown => exact .inl ⟨.inl (Int.ne_of_gt (Int.lt_succ _)), by rintro _ ⟨⟩⟩
  | submit id answer p _ hfirst hopen =>
    refine .inl ⟨.inr (.inr (.inr (.inr ?_))), by rintro _ ⟨⟩⟩
    rw [answeredCount, countP_answerFirst hfirst hopen]
    exact Nat.succ_ne_self _
  | finish given report hactive _ _ =>
    cases given with
    | some problems => exact absurd rfl (hown problems)
    | none => exact .inl ⟨.inr (.inr (.inr (.inl (ended hactive)))), by rintro _ ⟨⟩⟩
  | back _ _ =>
    exact .inl ⟨.inr (.inl (Int.ne_of_lt (Int.sub_lt_self _ Int.one_pos))), by rintro _ ⟨⟩⟩
  | forward _ _ => exact .inl ⟨.inr (.inl (Int.ne_of_gt (Int.lt_succ _))), by rintro _ ⟨⟩⟩
  | tick _ => exact .inl ⟨.inr (.inr (.inl (Int.ne_of_gt (Int.lt_succ _)))), by rintro _ ⟨⟩⟩

theorem Moves.active_of_advance {order : Advance}
    (hm : Moves rules wording r (.advance order) r' orders report) : r.phase = .active := by
  cases hm with
  | advance _ hactive _ _ => exact hactive
  | advanceToEnd _ _ hactive _ _ _ _ => exact hactive

end Round

namespace Sitting

variable (setup : Setup)

/-- The next task lets an advance reach the round, which shows the problem already that the advance
leads to. -/
def Overtaken (b : Agenda Sitting Task Fault) : Prop :=
  ∃ order, AdvancesNext b order ∧ b.state.round.index = order.index + 1

/-- An announcement to be made is the next task, for the round that the task before has put in
place, and there is no other. -/
inductive Prompt (past : List (Agenda Sitting Task Fault)) (a : Agenda Sitting Task Fault) : Prop
  | nothing : a.tasks.countP Task.isAnnounce = 0 → Prompt past a
  | next {b : Agenda Sitting Task Fault} {earlier : List (Agenda Sitting Task Fault)}
      {rest : List Task} : past = b :: earlier → a = b.step (perform setup) →
      replaced setup b = some a.state.round → a.tasks = .announce :: rest →
      rest.countP Task.isAnnounce = 0 → Prompt past a

variable {setup} {s s' : Sitting} {task : Task} {rest after : List Task} {e : Event}
  {past : List (Agenda Sitting Task Fault)} {a b : Agenda Sitting Task Fault}

/-! ## Announcements are made at once -/

theorem Prompt.rest_countP (h : Prompt setup past a) (htasks : a.tasks = task :: rest) :
    rest.countP Task.isAnnounce = 0 := by
  cases h with
  | nothing hnone =>
    rw [htasks, List.countP_cons] at hnone
    omega
  | next _ _ _ hnext hnone =>
    rw [htasks] at hnext
    cases hnext
    exact hnone

/-- A step leaves at most the announcement of the round that it puts in place. -/
theorem Prompt.step (h : Prompt setup past a) (hq : Quiet a.state a.tasks)
    (hpassive : a.state.onResult.flatten = []) :
    Prompt setup (a :: past) (a.step (perform setup)) := by
  -- the round put in place is announced at once, if there is a listener
  have announced : ∀ {rest after : List Task},
      replaced setup a = some (a.step (perform setup)).state.round →
      after.countP Task.isAnnounce = 0 → rest.countP Task.isAnnounce = 0 →
      (a.step (perform setup)).tasks = setup.announcement ++ after ++ rest →
      Prompt setup (a :: past) (a.step (perform setup)) := by
    intro rest after hsome hafter hrest hleft
    have hnone : (after ++ rest).countP Task.isAnnounce = 0 := by
      rw [List.countP_append, hafter, hrest]
    rw [Setup.announcement] at hleft
    split at hleft
    · exact .next rfl rfl hsome hleft hnone
    · exact .nothing (hleft ▸ hnone)
  rcases hq.informs setup with ⟨hidle, hstep⟩ | hinforms
  · refine .nothing ?_
    rw [hstep, hidle]
    rfl
  · cases hinforms with
    | announced moves htasks _ _ hleft =>
      refine .nothing ?_
      rw [hleft, List.countP_append, countP_isAnnounce_map, h.rest_countP htasks]
    | still htasks _ _ _ _ hafter hleft =>
      refine .nothing ?_
      rw [hleft, List.countP_append, countP_isAnnounce_of_elapse hafter, h.rest_countP htasks]
    | failed _ _ _ _ _ hleft =>
      refine .nothing ?_
      rw [hleft]
      rfl
    | carriedOn htasks _ hsome _ hafter hleft =>
      exact announced hsome hafter (h.rest_countP htasks) hleft
    | @ended _ _ _ moves htasks _ _ hsome _ hafter hmoves hleft =>
      have hnone : moves = [] :=
        List.eq_nil_iff_forall_not_mem.mpr fun m hm => by simpa [hpassive] using hmoves m hm
      rw [hnone] at hleft
      exact announced hsome hafter (h.rest_countP htasks) hleft

/-- **Where the listener for results does nothing of its own, announcements are made at once.** -/
theorem Reachable.prompt {opening : Sitting} (h : Reachable setup opening past a)
    (hsilent : opening.onWording = []) (hpassive : opening.onResult.flatten = []) :
    Prompt setup past a := by
  induction h with
  | start => exact .nothing rfl
  | call _ _ _ _ => exact .nothing rfl
  | ring handle _ _ _ => exact .nothing rfl
  | @step past a hreach ih =>
    refine ih.step (hreach.quiet hsilent) (List.eq_nil_iff_forall_not_mem.mpr fun m hm => ?_)
    have hscripted := hreach.onResult_subset m hm
    rw [hpassive] at hscripted
    cases hscripted

/-- The listener for changes is called by an announcement, and by nothing else. -/
theorem Quiet.announces (hq : Quiet a.state a.tasks)
    (hcalled : (a.step (perform setup)).state.shown ≠ a.state.shown) :
    (∃ rest, a.tasks = .announce :: rest) ∧
      (a.step (perform setup)).state.shown = a.state.round :: a.state.shown := by
  rcases hq.informs setup with ⟨-, hstep⟩ | hinforms
  · exact absurd (by rw [hstep]) hcalled
  · cases hinforms with
    | announced _ htasks _ hshown _ => exact ⟨⟨_, htasks⟩, hshown⟩
    | still _ _ _ _ hshown _ _ => exact absurd hshown hcalled
    | carriedOn _ _ _ hshown _ _ => exact absurd hshown hcalled
    | ended _ _ _ _ hshown _ _ _ => exact absurd hshown hcalled
    | failed _ _ _ _ hshown _ => exact absurd hshown hcalled

/-! ## The round before -/

/-- A round is put in place by an event that moves the one there is. -/
theorem moves_of_replaced {round : Round} (h : replaced setup b = some round) :
    ∃ task rest s' e after orders report, b.tasks = task :: rest ∧
      b.state.intake task = .event s' e after ∧ b.state.disposed = false ∧
      Round.Moves setup.rules setup.wording b.state.round e round orders report := by
  obtain ⟨task, hhead, hassigned⟩ := Option.bind_eq_some_iff.mp h
  obtain ⟨rest, htasks⟩ : ∃ rest, b.tasks = task :: rest :=
    ⟨_, (List.cons_head?_tail hhead).symm⟩
  unfold assigned at hassigned
  split at hassigned
  · rename_i s' e after hi
    obtain ⟨ht, -, hdisposed⟩ := (takesUp_of_intake hi).taken_of_event
    split at hassigned
    · cases hassigned
    · rename_i hopen
      rw [ht.spared.round_eq] at hassigned
      unfold placed at hassigned
      split at hassigned
      · rename_i hout
        cases hassigned
        exact ⟨task, rest, s', e, after, _, _, htasks, hi, by simpa [hdisposed] using hopen,
          Round.moves_of_next hout⟩
      · cases hassigned
  · cases hassigned

/-- An advance of the present round leads to the problem on show exactly if it has been
overtaken. -/
theorem Reachable.showsAlready_iff {sheets : Table (List Problem)}
    {onResult onChange : List (List Move)}
    (h : Reachable setup (opening sheets onResult onChange) past b) {order : Advance}
    (hadvance : AdvancesNext b order) (hactive : b.state.round.phase = .active) :
    b.state.round.ShowsAlready order ↔ b.state.round.index = order.index + 1 := by
  obtain ⟨⟨number, hmem⟩, hgen⟩ := hadvance.mem_purposes
  obtain ⟨_, _, _, _, _, hcount, _, _⟩ := (h.accounted number order hmem).2 hgen
  have hlt := (h.steady (steady_opening ..)).round.index_lt
    (Round.phase_eq_active_iff.mp hactive).2
  rw [Round.ShowsAlready, hcount, Round.lastIndex]
  omega

/-- **The listener for changes is shown a round that differs from the one before**, in a number or
by being completed, unless an advance has been overtaken; and then it is shown the same round once
more. The listener for results does nothing of its own; that for changes may. -/
theorem Reachable.shown_round_differs_unless_overtaken {sheets : Table (List Problem)}
    {onResult onChange : List (List Move)} (hpassive : onResult.flatten = [])
    (h : Reachable setup (opening sheets onResult onChange) past a)
    (hcalled : (a.step (perform setup)).state.shown ≠ a.state.shown) :
    (a.step (perform setup)).state.shown = a.state.round :: a.state.shown ∧
      ∃ b earlier, past = b :: earlier ∧ a = b.step (perform setup) ∧
        replaced setup b = some a.state.round ∧
        ((b.state.round.Differs a.state.round ∧ ¬ Overtaken b) ∨
          (a.state.round = b.state.round ∧ Overtaken b)) := by
  obtain ⟨⟨rest, htasks⟩, hshown⟩ := (h.quiet rfl).announces hcalled
  refine ⟨hshown, ?_⟩
  cases h.prompt rfl hpassive with
  | nothing hnone =>
    rw [htasks, List.countP_cons_of_pos rfl] at hnone
    omega
  | @next b earlier _ hpast hstep hreplaced _ _ =>
    refine ⟨b, earlier, hpast, hstep, hreplaced, ?_⟩
    obtain ⟨task, rest', s', e, after, orders, report, htasks', hi, -, hm⟩ :=
      moves_of_replaced hreplaced
    have hb : Reachable setup (opening sheets onResult onChange) earlier b := (hpast ▸ h).before
    have hadvances : ∀ order, AdvancesNext b order ↔ e = .advance order := by
      intro order
      constructor
      · rintro ⟨task'', rest'', t, after', htasks'', hi'⟩
        rw [htasks'] at htasks''
        cases htasks''
        rw [hi] at hi'
        cases hi'
        rfl
      · rintro rfl
        exact ⟨task, rest', s', after, htasks', hi⟩
    rcases hm.differs_or_same (takesUp_of_intake hi).ne_finish_some with
      ⟨hdiffers, hnot⟩ | ⟨hsame, order, rfl, hshows⟩
    · left
      refine ⟨hdiffers, ?_⟩
      rintro ⟨order, hadvance, hindex⟩
      obtain rfl := (hadvances order).mp hadvance
      exact hnot order rfl ((hb.showsAlready_iff hadvance hm.active_of_advance).mpr hindex)
    · right
      have hadvance := (hadvances order).mpr rfl
      exact ⟨hsame, order, hadvance,
        (hb.showsAlready_iff hadvance hm.active_of_advance).mp hshows⟩

/-- The first of three problems is answered, its advance has reached the round, and the listener for
changes is about to be called. -/
theorem shown_round_differs_after_advance :
    ∃ past a, Reachable {} (opening (Table.insert {} "sums" [{ id := 1, text := "2 + 3" },
        { id := 2, text := "4 - 1" }, { id := 3, text := "6 / 2" }]) [[]] []) past a ∧
      (a.step (perform {})).state.shown = a.state.round :: a.state.shown ∧
      ∃ b earlier, past = b :: earlier ∧ b.state.round.Differs a.state.round := by
  have opened : Reachable {} (opening (Table.insert {} "sums" [{ id := 1, text := "2 + 3" },
      { id := 2, text := "4 - 1" }, { id := 3, text := "6 / 2" }]) [[]] []) [] _ := .start
  have shown := (opened.call (m := .present "sums" false) rfl trivial).step.step
  have answered := (shown.call (m := .submit 1 5.0) (List.isEmpty_iff.mp (by decide +kernel))
    trivial).step.step
  have advanced := (answered.call (m := .wait 1500) (List.isEmpty_iff.mp (by decide +kernel))
    trivial).step.step.step.step
  obtain ⟨hshown, b, earlier, hpast, -, -, ⟨hdiffers, -⟩ | ⟨hsame, -⟩⟩ :=
    advanced.shown_round_differs_unless_overtaken rfl (by decide +kernel)
  · exact ⟨_, _, advanced, hshown, b, earlier, hpast, hdiffers⟩
  · cases hpast
    exact absurd hsame (by decide +kernel)

/-- **The listener for changes is shown the round that was** if the client goes forward after an
answer: the advance that was ordered for it then leads to the problem on show. -/
theorem shown_the_round_that_was :
    ∃ past a b earlier, Reachable {} (opening (Table.insert {} "sums" [{ id := 1, text := "2 + 3" },
        { id := 2, text := "4 - 1" }, { id := 3, text := "6 / 2" }]) [] []) past a ∧
      past = b :: earlier ∧ a = b.step (perform {}) ∧ replaced {} b = some a.state.round ∧
      (a.step (perform {})).state.shown = a.state.round :: a.state.shown ∧
      a.state.round = b.state.round := by
  have opened : Reachable {} (opening (Table.insert {} "sums" [{ id := 1, text := "2 + 3" },
      { id := 2, text := "4 - 1" }, { id := 3, text := "6 / 2" }]) [] []) [] _ := .start
  have shown := (opened.call (m := .present "sums" false) rfl trivial).step.step
  have answered := (shown.call (m := .submit 1 5.0) (List.isEmpty_iff.mp (by decide +kernel))
    trivial).step.step
  have gone := (answered.call (m := .forward) (List.isEmpty_iff.mp (by decide +kernel))
    trivial).step.step
  have advanced := (gone.call (m := .wait 1500) (List.isEmpty_iff.mp (by decide +kernel))
    trivial).step.step.step.step
  exact ⟨_, _, _, _, advanced, rfl, rfl, by decide +kernel, by decide +kernel, by decide +kernel⟩

end Sitting

end TimedQuiz
