import TimedQuiz.Proofs.Sitting.Discipline
import TimedQuiz.Proofs.Sitting.Ending

/-!
# What the listener for changes is shown

A round that an event puts in place is announced once the event has taken effect, and the listener
for changes is then shown the round as it stands. If the event ends the round, the listener for
results acts before that, and the round may be another by then.

* `Sitting.shown` — the rounds that the listener for changes was shown;
* `replaced` — the round that the next task puts in place;
* `Move.SparesEnd` — the moves that leave a completed round as it is.

Main statement: `Reachable.shows_each_round`. That the listener is shown every round as it was put
in place fails where the listener for results starts over: `completed_round_not_shown`.
-/

namespace TimedQuiz

/-- The round that the listener for changes was shown. -/
def Entry.shown? : Entry → Option Round
  | .shown round => some round
  | _ => none

theorem Entry.isCall_of_shown? {entry : Entry} {round : Round} (h : entry.shown? = some round) :
    entry.isCall = true := by
  cases entry with
  | shown round => rfl
  | result report => rfl
  | notice n => cases h
  | asked key => cases h

/-- The listener for changes is to be called. -/
def Task.isAnnounce : Task → Bool
  | .announce => true
  | _ => false

/-- The move leaves a completed round as it is, and does not give up. -/
def Move.SparesEnd : Move → Prop
  | .present .. => False
  | .retry => False
  | .dispose => False
  | .giveUp _ => False
  | _ => True

/-- The task leaves a completed round as it is, as long as no alarm runs. -/
inductive Task.SparesEnd : Task → Prop
  | move {m : Move} : m.SparesEnd → SparesEnd (.move m)
  | elapse (target : Int) : SparesEnd (.elapse target)

namespace Sitting

/-- The rounds that the listener for changes was shown, the latest first. -/
def shown (s : Sitting) : List Round := s.journal.filterMap Entry.shown?

variable (setup : Setup)

/-- The round that the next task puts in place. -/
def replaced (a : Agenda Sitting Task Fault) : Option Round :=
  a.tasks.head?.bind (a.state.assigned setup)

/-- The round that the next task puts in place without ending one. -/
def carriedOn (a : Agenda Sitting Task Fault) : Option Round :=
  if EndsNext setup a then none else replaced setup a

variable {setup} {s s' : Sitting} {task : Task} {rest first after : List Task} {e : Event}
  {a : Agenda Sitting Task Fault} {past : List (Agenda Sitting Task Fault)}

/-! ## Calls and assignments of one step -/

theorem shown_eq_of_calls (s : Sitting) : s.shown = s.calls.filterMap Entry.shown? := by
  rw [shown, calls, List.filterMap_filter]
  apply List.filterMap_congr
  intro entry _
  cases h : entry.shown? with
  | none => exact (ite_self none).symm
  | some round => rw [if_pos (Entry.isCall_of_shown? h)]

theorem shown_announce (s : Sitting) : s.announce.1.shown = s.round :: s.shown := by
  rw [shown_eq_of_calls, calls_announce, shown_eq_of_calls]
  rfl

theorem filterMap_shown?_calls (setup : Setup) (report : Option Report) :
    (setup.calls report).filterMap Entry.shown? = [] := by
  cases report with
  | none => rfl
  | some report =>
    rw [Setup.calls]
    split <;> rfl

theorem replaced_of_idle (h : a.tasks = []) : replaced setup a = none := by
  rw [replaced, h]
  rfl

theorem replaced_of_cons (setup : Setup) (h : a.tasks = task :: rest) :
    replaced setup a = a.state.assigned setup task := by
  rw [replaced, h]
  rfl

theorem carriedOn_of_endsNext (h : EndsNext setup a) : carriedOn setup a = none := if_pos h

theorem carriedOn_of_replaced (h : replaced setup a = none) : carriedOn setup a = none := by
  rw [carriedOn, h, ite_self]

theorem Still.shown_eq (h : s.Still setup task s') : s'.shown = s.shown := by
  rw [shown_eq_of_calls, h.calls_eq, ← shown_eq_of_calls]

theorem shown_afterMove (hjournal : s'.journal = s.journal) (r : Round) (round : Round)
    (orders : List TimerOrder) (report : Option Report) :
    ((s'.record (r.next setup.rules setup.wording e).entries).afterMove setup round orders
      report).shown = s.shown := by
  rw [shown_eq_of_calls, calls_afterMove, calls_record_entries, List.filterMap_append,
    filterMap_shown?_calls, calls_eq_of_journal hjournal, ← shown_eq_of_calls]
  rfl

theorem countP_isAnnounce_map (moves : List Move) :
    (moves.map Task.move).countP Task.isAnnounce = 0 := by
  apply List.countP_eq_zero.mpr
  intro t ht
  obtain ⟨m, -, rfl⟩ := List.mem_map.mp ht
  nofun

theorem countP_isAnnounce_of_elapse (h : ∀ t ∈ after, ∃ target, t = .elapse target) :
    after.countP Task.isAnnounce = 0 := by
  apply List.countP_eq_zero.mpr
  intro t ht
  obtain ⟨target, rfl⟩ := h t ht
  nofun

theorem TakesUp.countP_isAnnounce (h : s.TakesUp task (.event s' e after)) :
    after.countP Task.isAnnounce = 0 := by
  rcases h.elapse_of_event with ⟨-, -, rfl, -⟩ | ⟨-, hafter⟩
  · rfl
  · exact countP_isAnnounce_of_elapse hafter

theorem countP_isAnnounce_cons (h : task ≠ .announce) (rest : List Task) :
    (task :: rest).countP Task.isAnnounce = rest.countP Task.isAnnounce := by
  apply List.countP_cons_of_neg
  cases task with
  | announce => exact absurd rfl h
  | move m => nofun
  | retire => nofun
  | elapse target => nofun
  | ring handle => nofun
  | conclude outcome entries => nofun

variable (setup) in
/-- What a step does to what the listener for changes has been shown and is still to be shown. -/
inductive Informs (a b : Agenda Sitting Task Fault) : Prop
  /-- The listener is shown the round. -/
  | announced {rest : List Task} (moves : List Move) : a.tasks = .announce :: rest →
      replaced setup a = none → b.state.shown = a.state.round :: a.state.shown →
      b.tasks = moves.map Task.move ++ rest → Informs a b
  /-- The round is left alone. -/
  | still {task : Task} {rest after : List Task} : a.tasks = task :: rest → task ≠ .announce →
      replaced setup a = none → b.state.round = a.state.round → b.state.shown = a.state.shown →
      (∀ t ∈ after, ∃ target, t = .elapse target) → b.tasks = after ++ rest → Informs a b
  /-- Another round is put in place, which ends none. -/
  | carriedOn {task : Task} {rest after : List Task} : a.tasks = task :: rest → task ≠ .announce →
      replaced setup a = some b.state.round → b.state.shown = a.state.shown →
      after.countP Task.isAnnounce = 0 → b.tasks = setup.announcement ++ after ++ rest → Informs a b
  /-- The round ends, and the listener for results acts before this is announced. -/
  | ended {task : Task} {rest after : List Task} {moves : List Move} : a.tasks = task :: rest →
      task ≠ .announce → EndsNext setup a → replaced setup a = some b.state.round →
      b.state.shown = a.state.shown → after.countP Task.isAnnounce = 0 →
      (∀ m ∈ moves, m ∈ a.state.onResult.flatten) →
      b.tasks = moves.map .move ++ setup.announcement ++ after ++ rest → Informs a b
  /-- All that was still to be done is dropped. -/
  | failed {task : Task} {rest : List Task} {s' : Sitting} {fault : Fault} :
      a.tasks = task :: rest → perform setup task a.state = .failed s' fault → task ≠ .announce →
      replaced setup a = none → b.state.shown = a.state.shown → b.tasks = [] → Informs a b

theorem step_announce (setup : Setup) (h : a.tasks = .announce :: rest) :
    a.step (perform setup) = { state := a.state.announce.1
                               tasks := (offered a.state.onChange).map .move ++ rest } := by
  rw [Agenda.step_of_tasks h]
  rfl

theorem Quiet.informs (setup : Setup) (h : Quiet a.state a.tasks) :
    (a.tasks = [] ∧ a.step (perform setup) = a) ∨ Informs setup a (a.step (perform setup)) := by
  rcases h.step_turns setup with hidle | ⟨task, rest, v, htasks, hperform, hstep, hturns⟩
  · exact .inl hidle
  · right
    have hreplaced := replaced_of_cons setup htasks
    cases hturns with
    | announced htask =>
      subst htask
      refine .announced (offered a.state.onChange) htasks hreplaced ?_ ?_
      · rw [hstep]
        exact shown_announce a.state
      · rw [hstep]
        rfl
    | @still s' after hs hafter =>
      have hround := hs.taken.spared.round_eq
      have hshown := hs.shown_eq
      refine .still htasks hs.ne_announce (hreplaced.trans hs.assigned_eq) ?_ ?_ hafter ?_
      · rw [hstep]
        exact hround
      · rw [hstep]
        exact hshown
      · rw [hstep]
        rfl
    | failed hs _ =>
      have hshown := hs.shown_eq
      refine .failed htasks hperform hs.ne_announce (hreplaced.trans hs.assigned_eq) ?_ ?_
      · rw [hstep]
        exact hshown
      · rw [hstep]
        rfl
    | @moved s' e after round orders report hi hd hout =>
      have htakes := takesUp_of_intake hi
      have hround : (a.step (perform setup)).state.round = round := by
        rw [hstep]
        exact afterMove_round ..
      have hshown : (a.step (perform setup)).state.shown = a.state.shown := by
        rw [hstep]
        exact shown_afterMove htakes.taken_of_event.2.1 ..
      have hassigned : replaced setup a = some (a.step (perform setup)).state.round := by
        rw [hreplaced, assigned_of_event hi hd, hout, hround]
        rfl
      rcases (Round.moves_of_next hout).end_cases htakes.ne_finish_some with
        ⟨report, rfl, hcloses⟩ | ⟨rfl, -⟩
      · have hend : EndsNext setup a := ⟨hcloses.active, by rw [hround, hcloses.phase_eq]⟩
        refine .ended htasks htakes.ne_announce_of_event hend hassigned hshown
          htakes.countP_isAnnounce (fun m hm => ?_) (congrArg Agenda.tasks hstep)
        rw [← htakes.taken_of_event.1.spared.onResult_eq]
        unfold heeded at hm
        split at hm
        · exact mem_flatten_of_offered hm
        · cases hm
      · refine .carriedOn htasks htakes.ne_announce_of_event hassigned hshown
          htakes.countP_isAnnounce ((congrArg Agenda.tasks hstep).trans ?_)
        simp [Verdict.agenda, heeded]

/-! ## As many calls as rounds -/

/-- Every round that is put in place is announced once, as long as nothing breaks off. -/
theorem Reachable.shown_length {opening : Sitting} (h : Reachable setup opening past a)
    (hsilent : opening.onWording = []) (hjournal : opening.journal = [])
    (hcancel : setup.honoursCancel = true) (hchanges : setup.tellsChanges = true)
    (hwording : setup.wording.Willing) (ho : Orderly setup opening []) :
    a.state.shown.length + a.tasks.countP Task.isAnnounce =
      (past.filterMap (replaced setup)).length := by
  have hone : setup.announcement.countP Task.isAnnounce = 1 := by
    rw [Setup.announcement, if_pos hchanges]
    rfl
  induction h with
  | start =>
    rw [shown, hjournal]
    rfl
  | call _ hover _ ih =>
    rw [List.filterMap_cons_none (replaced_of_idle hover), ← ih, hover]
    rfl
  | ring handle _ hover ih =>
    rw [List.filterMap_cons_none (replaced_of_idle hover), ← ih, hover]
    rfl
  | @step past a hreach ih =>
    rcases (hreach.quiet hsilent).informs setup with ⟨hidle, hstep⟩ | hinforms
    · rw [hstep, List.filterMap_cons_none (replaced_of_idle hidle), ih]
    · cases hinforms with
      | announced _ htasks hnone hshown hleft =>
        rw [List.filterMap_cons_none hnone, ← ih, hshown, hleft, htasks, List.countP_append,
          countP_isAnnounce_map, List.countP_cons_of_pos rfl, List.length_cons]
        omega
      | still htasks hne hnone _ hshown hafter hleft =>
        rw [List.filterMap_cons_none hnone, ← ih, hshown, hleft, htasks, List.countP_append,
          countP_isAnnounce_of_elapse hafter, countP_isAnnounce_cons hne]
        omega
      | carriedOn htasks hne hsome hshown hafter hleft =>
        rw [List.filterMap_cons_some hsome, List.length_cons, ← ih, hshown, hleft, htasks,
          List.countP_append, List.countP_append, hone, hafter, countP_isAnnounce_cons hne]
        omega
      | ended htasks hne _ hsome hshown hafter _ hleft =>
        rw [List.filterMap_cons_some hsome, List.length_cons, ← ih, hshown, hleft, htasks,
          List.countP_append, List.countP_append, List.countP_append, countP_isAnnounce_map, hone,
          hafter, countP_isAnnounce_cons hne]
        omega
      | failed htasks hperform _ _ _ _ =>
        have horderly := hreach.orderly hcancel hwording ho
        rw [htasks] at horderly
        exact (horderly.not_failed hwording (does_of_perform hperform)).elim

/-! ## Rounds that are shown as they were put in place -/

/-- A round that is put in place without ending one is the next thing that is shown. -/
theorem Reachable.carriedOn_sublist {opening : Sitting} (h : Reachable setup opening past a)
    (hsilent : opening.onWording = []) (hchanges : setup.tellsChanges = true) :
    (past.filterMap (carriedOn setup)).Sublist a.state.shown ∨
      ((∃ rest, a.tasks = .announce :: rest) ∧
        (past.filterMap (carriedOn setup)).Sublist (a.state.round :: a.state.shown)) := by
  have called : ∀ {past : List (Agenda Sitting Task Fault)} {a : Agenda Sitting Task Fault},
      a.tasks = [] → (past.filterMap (carriedOn setup)).Sublist a.state.shown ∨
        ((∃ rest, a.tasks = .announce :: rest) ∧
          (past.filterMap (carriedOn setup)).Sublist (a.state.round :: a.state.shown)) →
      ((a :: past).filterMap (carriedOn setup)).Sublist a.state.shown := by
    rintro past a hover (hsub | ⟨⟨rest, htasks⟩, -⟩)
    · rwa [List.filterMap_cons_none (carriedOn_of_replaced (replaced_of_idle hover))]
    · rw [hover] at htasks
      cases htasks
  induction h with
  | start => exact .inl (List.nil_sublist _)
  | call _ hover _ ih => exact .inl (called hover ih)
  | ring handle _ hover ih => exact .inl (called hover ih)
  | @step past a hreach ih =>
    -- a round is only still to be shown where that is the next task
    have before : ∀ {task : Task} {rest : List Task}, a.tasks = task :: rest → task ≠ .announce →
        (past.filterMap (carriedOn setup)).Sublist a.state.shown := by
      intro task rest htasks hne
      rcases ih with hsub | ⟨⟨rest', hrest⟩, -⟩
      · exact hsub
      · rw [htasks] at hrest
        exact absurd (List.cons.inj hrest).1 hne
    rcases (hreach.quiet hsilent).informs setup with ⟨hidle, hstep⟩ | hinforms
    · rw [hstep]
      exact .inl (called hidle ih)
    · cases hinforms with
      | announced _ _ hnone hshown _ =>
        left
        rw [List.filterMap_cons_none (carriedOn_of_replaced hnone), hshown]
        rcases ih with hsub | ⟨-, hsub⟩
        · exact hsub.cons _
        · exact hsub
      | still htasks hne hnone _ hshown _ _ =>
        left
        rw [List.filterMap_cons_none (carriedOn_of_replaced hnone), hshown]
        exact before htasks hne
      | failed htasks _ hne hnone hshown _ =>
        left
        rw [List.filterMap_cons_none (carriedOn_of_replaced hnone), hshown]
        exact before htasks hne
      | ended htasks hne hend _ hshown _ _ _ =>
        left
        rw [List.filterMap_cons_none (carriedOn_of_endsNext hend), hshown]
        exact before htasks hne
      | @carriedOn task rest after htasks hne hsome hshown _ hleft =>
        right
        refine ⟨⟨after ++ rest, ?_⟩, ?_⟩
        · rw [hleft, Setup.announcement, if_pos hchanges]
          rfl
        · rw [hshown]
          by_cases hend : EndsNext setup a
          · rw [List.filterMap_cons_none (carriedOn_of_endsNext hend)]
            exact (before htasks hne).cons _
          · have hcarried : Sitting.carriedOn setup a = some _ := (if_neg hend).trans hsome
            rw [List.filterMap_cons_some hcarried]
            exact (before htasks hne).cons_cons _

/-! ## Listeners for results that leave the round as it is -/

/-- Nothing of this reaches a completed round. -/
theorem TakesUp.ignored_of_sparesEnd (h : s.TakesUp task (.event s' e after))
    (hspares : task.SparesEnd) (hc : s.round.completed = true) (hnone : ∀ i, ¬ s.clock.Runs i)
    (rules : HouseRules) (wording : Wording) :
    s.round.next rules wording e = pure .ignored := by
  have hphase : s.round.phase ≠ .active := by
    rw [Round.phase_eq_completed_iff.mpr hc]
    nofun
  have strikes : ∀ {handle : Nat} {clock : Clock Purpose},
      ¬ s.Strikes task handle clock after := by
    intro handle clock hs
    cases hs with
    | inTurn hnext =>
      obtain ⟨a, ha⟩ := Clock.earliest?_eq_some_iff.mp hnext
      exact hnone handle ⟨a, ha.at_position, ha.running⟩
    | outOfTurn _ => cases hspares
  cases h with
  | submit _ => simp only [Round.next, Transition.during, if_neg hphase]
  | back => simp only [Round.next, Transition.during, if_neg hphase]
  | forward => simp only [Round.next, Transition.during, if_neg hphase]
  | finish => simp only [Round.next, Round.finishWith, if_pos (Or.inl hphase)]
  | advance hs _ _ => exact absurd hs strikes
  | tick hs _ => exact absurd hs strikes
  | sheet _ _ => cases hspares with | move hm => exact hm.elim
  | copy _ => cases hspares with | move hm => exact hm.elim
  | retry => cases hspares with | move hm => exact hm.elim
  | dispose _ => cases hspares with | move hm => exact hm.elim

/-- Time is all that goes on after a task that leaves a completed round as it is. -/
theorem Quiet.sparesEnd (h : Quiet a.state a.tasks) (htasks : a.tasks = task :: rest)
    (hspares : task.SparesEnd) (hc : a.state.round.completed = true)
    (hnone : ∀ i, ¬ a.state.clock.Runs i) :
    replaced setup a = none ∧ (a.step (perform setup)).state.round = a.state.round ∧
      (a.step (perform setup)).state.shown = a.state.shown ∧
      (∀ i, ¬ (a.step (perform setup)).state.clock.Runs i) ∧
      ∃ after, (∀ t ∈ after, t.SparesEnd) ∧ (a.step (perform setup)).tasks = after ++ rest := by
  rcases h.step_turns setup with ⟨hidle, -⟩ | ⟨task', rest', v, htasks', -, hstep, hturns⟩
  · rw [hidle] at htasks
    cases htasks
  · rw [htasks] at htasks'
    cases htasks'
    cases hturns with
    | announced htask =>
      subst htask
      cases hspares
    | @still s' after hs hafter =>
      have hshown := hs.shown_eq
      refine ⟨(replaced_of_cons setup htasks).trans hs.assigned_eq, ?_, ?_, ?_, after, ?_, ?_⟩
      · rw [hstep]
        exact hs.taken.spared.round_eq
      · rw [hstep]
        exact hshown
      · rw [hstep]
        exact fun i hrun => hnone i (hs.taken.runs hrun)
      · intro t ht
        obtain ⟨target, rfl⟩ := hafter t ht
        exact .elapse target
      · rw [hstep]
        rfl
    | moved hi _ hout =>
      rw [(takesUp_of_intake hi).ignored_of_sparesEnd hspares hc hnone] at hout
      cases hout
    | failed _ hreason =>
      rcases hreason with ⟨message, rfl⟩ | ⟨t, e, after, hi, hout⟩
      · cases hspares with
        | move hm => exact hm.elim
      · rw [(takesUp_of_intake hi).ignored_of_sparesEnd hspares hc hnone] at hout
        cases hout

variable (setup) in
/-- What was shown is what was put in place, but for a round that is still to be shown; until then
nothing replaces it. -/
inductive Informed (past : List (Agenda Sitting Task Fault)) (a : Agenda Sitting Task Fault) : Prop
  | upToDate : a.tasks.countP Task.isAnnounce = 0 →
      a.state.shown = past.filterMap (replaced setup) → Informed past a
  | toBeShown (before after : List Task) : a.tasks = before ++ .announce :: after →
      after.countP Task.isAnnounce = 0 →
      a.state.round :: a.state.shown = past.filterMap (replaced setup) →
      (before ≠ [] → a.state.round.completed = true ∧ (∀ i, ¬ a.state.clock.Runs i) ∧
        ∀ t ∈ before, t.SparesEnd) → Informed past a

theorem Informed.call (h : Informed setup past a) (hover : a.tasks = [])
    (hne : task ≠ .announce) :
    Informed setup (a :: past) { state := a.state, tasks := [task] } := by
  cases h with
  | upToDate _ hshown =>
    refine .upToDate (countP_isAnnounce_cons hne []) ?_
    rw [List.filterMap_cons_none (replaced_of_idle hover)]
    exact hshown
  | toBeShown before after htasks _ _ _ =>
    rw [hover] at htasks
    simp at htasks

theorem Informed.step (h : Informed setup past a) (hq : Quiet a.state a.tasks)
    (hl : Linked a.state) (hcancel : setup.honoursCancel = true)
    (hchanges : setup.tellsChanges = true) (hspares : ∀ m ∈ a.state.onResult.flatten, m.SparesEnd) :
    Informed setup (a :: past) (a.step (perform setup)) := by
  have hone : setup.announcement = [.announce] := if_pos hchanges
  cases h with
  | upToDate hcount hshown =>
    rcases hq.informs setup with ⟨hidle, hstep⟩ | hinforms
    · rw [hstep]
      refine .upToDate hcount ?_
      rw [List.filterMap_cons_none (replaced_of_idle hidle), hshown]
    · cases hinforms with
      | announced _ htasks _ _ _ =>
        rw [htasks, List.countP_cons_of_pos rfl] at hcount
        omega
      | still htasks hne hnone _ hsame hafter hleft =>
        rw [htasks, countP_isAnnounce_cons hne] at hcount
        refine .upToDate ?_ ?_
        · rw [hleft, List.countP_append, countP_isAnnounce_of_elapse hafter, hcount]
        · rw [hsame, hshown, List.filterMap_cons_none hnone]
      | failed _ _ _ hnone hsame hleft =>
        refine .upToDate ?_ ?_
        · rw [hleft]
          rfl
        · rw [hsame, hshown, List.filterMap_cons_none hnone]
      | @carriedOn task rest after htasks hne hsome hsame hafter hleft =>
        rw [htasks, countP_isAnnounce_cons hne] at hcount
        refine .toBeShown [] (after ++ rest) ?_ ?_ ?_ (absurd rfl)
        · rw [hleft, hone]
          rfl
        · rw [List.countP_append, hafter, hcount]
        · rw [hsame, hshown, List.filterMap_cons_some hsome]
      | @ended task rest after moves htasks hne hend hsome hsame hafter hmoves hleft =>
        rw [htasks, countP_isAnnounce_cons hne] at hcount
        refine .toBeShown (moves.map .move) (after ++ rest) ?_ ?_ ?_ fun _ => ⟨?_, ?_, ?_⟩
        · rw [hleft, hone]
          simp
        · rw [List.countP_append, hafter, hcount]
        · rw [hsame, hshown, List.filterMap_cons_some hsome]
        · exact Round.phase_eq_completed_iff.mp hend.2
        · exact hq.not_runs hl hcancel hend
        · intro t ht
          obtain ⟨m, hm, rfl⟩ := List.mem_map.mp ht
          exact .move (hspares m (hmoves m hm))
  | toBeShown before after htasks hcount hshown hbefore =>
    cases before with
    | nil =>
      have hreplaced : replaced setup a = none := replaced_of_cons setup htasks
      rw [step_announce setup htasks]
      refine .upToDate ?_ ?_
      · rw [List.countP_append, countP_isAnnounce_map, hcount]
      · rw [shown_announce, hshown, List.filterMap_cons_none hreplaced]
    | cons t before =>
      obtain ⟨hc, hnone, hall⟩ := hbefore (List.cons_ne_nil t before)
      obtain ⟨hreplaced, hround, hsame, hruns, more, hmore, hleft⟩ :=
        hq.sparesEnd htasks (hall t List.mem_cons_self) hc hnone
      refine .toBeShown (more ++ before) after ?_ hcount ?_ fun _ => ⟨?_, hruns, ?_⟩
      · exact hleft.trans (List.append_assoc more before _).symm
      · rw [hround, hsame, hshown, List.filterMap_cons_none hreplaced]
      · rw [hround]
        exact hc
      · intro t' ht'
        rcases List.mem_append.mp ht' with ht' | ht'
        · exact hmore t' ht'
        · exact hall t' (List.mem_cons_of_mem t ht')

theorem Reachable.onResult_subset {opening : Sitting} (h : Reachable setup opening past a) :
    ∀ m ∈ a.state.onResult.flatten, m ∈ opening.onResult.flatten := by
  apply h.invariant (I := fun s _ => ∀ m ∈ s.onResult.flatten, m ∈ opening.onResult.flatten)
  · exact fun _ => id
  · exact fun _ _ hs _ => hs
  · intro s task rest s' first hs hp m hm
    cases does_of_perform hp with
    | aside ht _ _ => exact hs m (ht.spared.onResult_eq ▸ hm)
    | held ht _ _ _ _ _ => exact hs m (ht.spared.onResult_eq ▸ hm)
    | moved _ _ _ _ hres _ =>
      rcases hres with rfl | rfl
      · exact hs m hm
      · exact hs m (mem_flatten_of_tail hm)
  · intro s task rest s' fault hs hp m hm
    cases does_of_perform hp with
    | gaveUp _ => exact hs m hm
    | broken ht _ _ => exact hs m (ht.spared.onResult_eq ▸ hm)

theorem Reachable.informed {opening : Sitting} (h : Reachable setup opening past a)
    (hsilent : opening.onWording = []) (hjournal : opening.journal = []) (hl : Linked opening)
    (hcancel : setup.honoursCancel = true) (hchanges : setup.tellsChanges = true)
    (hspares : ∀ m ∈ opening.onResult.flatten, m.SparesEnd) : Informed setup past a := by
  induction h with
  | start =>
    refine .upToDate rfl ?_
    rw [shown, hjournal]
    rfl
  | call _ hover _ ih => exact ih.call hover nofun
  | ring handle _ hover ih => exact ih.call hover nofun
  | @step past a hreach ih =>
    refine ih.step (hreach.quiet hsilent) (hreach.linked hcancel hl) hcancel hchanges ?_
    exact fun m hm => hspares m (hreach.onResult_subset m hm)

/-- **Every round that is put in place is announced once.** Those that end none are shown as they
were put in place, in their order; and if the listener for results leaves completed rounds as they
are, so are all others. Nobody may give up, and the wording refuses no text. -/
theorem Reachable.shows_each_round {sheets : Table (List Problem)}
    {onResult onChange : List (List Move)} (hcancel : setup.honoursCancel = true)
    (hchanges : setup.tellsChanges = true) (hwording : setup.wording.Willing)
    (hcalm : ∀ m ∈ (opening sheets onResult onChange).scripted, m.Calm)
    (h : Reachable setup (opening sheets onResult onChange) past a) (hidle : a.tasks = []) :
    a.state.shown.length = (past.filterMap (replaced setup)).length ∧
      (past.filterMap (carriedOn setup)).Sublist a.state.shown ∧
      ((∀ m ∈ onResult.flatten, m.SparesEnd) →
        a.state.shown = past.filterMap (replaced setup)) := by
  refine ⟨?_, ?_, fun hspares => ?_⟩
  · have hlength := h.shown_length rfl rfl hcancel hchanges hwording (.opening hcalm)
    rw [hidle] at hlength
    exact hlength
  · rcases h.carriedOn_sublist rfl hchanges with hsub | ⟨⟨rest, htasks⟩, -⟩
    · exact hsub
    · rw [hidle] at htasks
      cases htasks
  · cases h.informed rfl rfl (.opening ..) hcancel hchanges hspares with
    | upToDate _ hshown => exact hshown
    | toBeShown before after htasks _ _ _ =>
      rw [hidle] at htasks
      simp at htasks

/-- The listener for changes gives the only answer, and the round is ended by hand. -/
theorem shows_each_round_of_answered :
    ∃ past a, Reachable {} (opening (Table.insert {} "sums" [{ id := 1, text := "2 + 3" }])
        [[.back]] [[.submit 1 5.0]]) past a ∧
      a.tasks = [] ∧ a.state.shown = past.filterMap (replaced {}) ∧
      a.state.shown.map (fun r => (r.answeredCount, r.completed)) =
        [(1, true), (1, false), (0, false)] := by
  have opened : Reachable {} (opening (Table.insert {} "sums" [{ id := 1, text := "2 + 3" }])
      [[.back]] [[.submit 1 5.0]]) [] _ := .start
  have shown := (opened.call (m := .present "sums" false) rfl trivial).step.step.step.step
  have ended := (shown.call (m := .finish) rfl trivial).step.step.step
  have calm : ∀ m ∈ (opening (Table.insert {} "sums" [{ id := 1, text := "2 + 3" }])
      [[.back]] [[.submit 1 5.0]]).scripted, m.Calm := by
    intro m hm
    simp only [opening, scripted, List.append_nil, List.cons_append, List.nil_append,
      List.flatten_cons, List.flatten_nil, List.mem_cons, List.not_mem_nil, or_false] at hm
    rcases hm with rfl | rfl
    · trivial
    · trivial
  have spares : ∀ m ∈ [[Move.back]].flatten, m.SparesEnd := by
    intro m hm
    cases List.mem_singleton.mp hm
    trivial
  refine ⟨_, _, ended, ?_, ?_, ?_⟩
  · exact List.isEmpty_iff.mp (by decide +kernel)
  · refine (Reachable.shows_each_round rfl rfl (fun _ => ⟨_, rfl⟩) calm ended ?_).2.2 spares
    exact List.isEmpty_iff.mp (by decide +kernel)
  · decide +kernel

/-- **A round that ends is not shown if the listener for results starts ended**: the round that this
puts in place is shown twice instead. -/
theorem completed_round_not_shown :
    ∃ past a, Reachable {} (opening (Table.insert {} "sums" [{ id := 1, text := "2 + 3" }])
        [[.retry]] []) past a ∧
      a.tasks = [] ∧ ¬ a.state.shown.Perm (past.filterMap (replaced {})) := by
  have opened : Reachable {} (opening (Table.insert {} "sums" [{ id := 1, text := "2 + 3" }])
      [[.retry]] []) [] _ := .start
  have shown := (opened.call (m := .present "sums" false) rfl trivial).step.step
  have ended := (shown.call (m := .finish) rfl trivial).step.step.step.step
  refine ⟨_, _, ended, ?_, fun hperm => ?_⟩
  · exact List.isEmpty_iff.mp (by decide +kernel)
  · have hcount := hperm.countP_eq (·.completed)
    revert hcount
    decide +kernel

end Sitting

end TimedQuiz
