import TimedQuiz.Proofs.Sitting.Silent
import TimedQuiz.Proofs.Sitting.Timers

/-!
# What still runs after the end of a sitting

The end of a sitting takes three tasks: all alarms are stopped, the listener for changes is shown
the round, and then the sitting is over. What the listeners do in between still has its effect.

* `Move.Sets` — the moves that may set an alarm;
* `SetsNext` — the next task is such a move, and it sets the alarm at a position.

Main statement: `Reachable.set_while_ending` — an alarm that runs after the end of the sitting was
set by a listener while the sitting was ending. There may be one: `alarm_runs_after_end`.
-/

namespace TimedQuiz

/-- The move may set an alarm: the ticker of a round that begins, or that of an advance. -/
def Move.Sets : Move → Prop
  | .present .. => True
  | .submit .. => True
  | .retry => True
  | _ => False

namespace Round

/-- Alarms are set for a round that begins and after an answer, and for nothing else. -/
theorem Moves.sets_cases {rules : HouseRules} {wording : Wording} {r r' : Round} {e : Event}
    {orders : List TimerOrder} {report : Option Report}
    (hm : Moves rules wording r e r' orders report) :
    (∀ order ∈ orders, order = .cancelAdvances ∨ order = .stopTicker) ∨
      (∃ problems, e = .load problems) ∨ (∃ id answer, e = .submit id answer) ∨ e = .retry := by
  have stops : ∀ order ∈ stopAll, order = .cancelAdvances ∨ order = .stopTicker := by
    simp [stopAll]
  have none : ∀ order ∈ ([] : List TimerOrder), order = .cancelAdvances ∨ order = .stopTicker := by
    simp
  cases hm with
  | load problems => exact .inr (.inl ⟨problems, rfl⟩)
  | submit id answer p _ _ _ => exact .inr (.inr (.inl ⟨id, answer, rfl⟩))
  | retry _ => exact .inr (.inr (.inr rfl))
  | finish given report _ _ _ => exact .inl stops
  | advanceToEnd order report _ _ _ _ _ => exact .inl stops
  | teardown => exact .inl stops
  | advance order _ _ _ => exact .inl none
  | back _ _ => exact .inl none
  | forward _ _ => exact .inl none
  | tick _ => exact .inl none

end Round

namespace Sitting

variable (setup : Setup)

/-- The next task is a move that sets the alarm at a position, which then runs. -/
structure SetsNext (b : Agenda Sitting Task Fault) (m : Move) (i : Nat) : Prop where
  next : ∃ rest, b.tasks = .move m :: rest
  sets : m.Sets
  opened : b.state.disposed = false
  new : ¬ b.state.clock.Runs i
  runs : (b.step (perform setup)).state.clock.Runs i

variable {setup} {s s' : Sitting} {task : Task} {rest first after : List Task} {e : Event}
  {a : Agenda Sitting Task Fault} {past : List (Agenda Sitting Task Fault)}

/-! ## The alarms that begin to run -/

/-- Orders that only stop timers make no alarm run. -/
theorem runs_of_moved {orders : List TimerOrder} {round : Round}
    (hstop : ∀ order ∈ orders, order = .cancelAdvances ∨ order = .stopTicker) {i : Nat}
    (h : (s.moved setup round orders).clock.Runs i) : s.clock.Runs i := by
  unfold Sitting.moved at h
  suffices ∀ t : Sitting, (orders.foldl (carryOut setup) t).clock.Runs i → t.clock.Runs i from
    this { s with round } h
  clear h
  -- by induction on the orders
  induction orders with
  | nil =>
    intro t h
    exact h
  | cons order orders ih =>
    intro t h
    have hrun := ih (fun o ho => hstop o (List.mem_cons_of_mem order ho)) _ h
    rcases hstop order List.mem_cons_self with rfl | rfl
    · obtain ⟨clock, ht, hg⟩ := cancelAdvances_frame setup t
      rw [carryOut, ht] at hrun
      exact hrun.of_muted hg.1
    · obtain ⟨clock, ht, hg⟩ := stopTicker_frame setup t
      rw [carryOut, ht] at hrun
      exact hrun.of_muted hg.1

/-- Only a move that may set an alarm makes one run. -/
theorem TakesUp.sets_or_runs (htakes : s.TakesUp task (.event s' e after)) {round : Round}
    {orders : List TimerOrder} {report : Option Report}
    (hm : Round.Moves setup.rules setup.wording s.round e round orders report) {i : Nat}
    (h : (s'.moved setup round orders).clock.Runs i) :
    (∃ m, task = .move m ∧ m.Sets) ∨ s.clock.Runs i := by
  rcases hm.sets_cases with hstop | ⟨problems, rfl⟩ | ⟨id, answer, rfl⟩ | rfl
  · right
    exact htakes.taken_of_event.1.runs (runs_of_moved hstop h)
  · cases htakes with
    | sheet _ _ => exact .inl ⟨_, rfl, trivial⟩
    | copy _ => exact .inl ⟨_, rfl, trivial⟩
  · cases htakes with
    | submit _ => exact .inl ⟨_, rfl, trivial⟩
  · cases htakes with
    | retry => exact .inl ⟨_, rfl, trivial⟩

/-! ## The moves that listeners make -/

theorem Taken.scripted_subset (ht : s.Taken s') : ∀ m ∈ s'.scripted, m ∈ s.scripted := by
  intro m hm
  rw [mem_scripted, ht.spared.onResult_eq, ht.spared.onWording_eq] at hm
  rw [mem_scripted]
  refine hm.imp_right (Or.imp_left fun hm => ?_)
  rcases ht.spared.onChange_cases with heq | heq
  · exact heq ▸ hm
  · exact mem_flatten_of_tail (heq ▸ hm)

/-- The moves that come up are those of a script. -/
theorem Does.mem_scripted_of_move {m : Move} (hd : Does setup s task (.done s' first))
    (hm : .move m ∈ first) : m ∈ s.scripted := by
  have fresh : s.Fresh (.move m) → m ∈ s.scripted := by
    intro h
    cases h with
    | move hm => exact hm
  cases hd with
  | aside _ hafter _ => exact fresh (hafter _ hm)
  | moved _ _ _ hall _ _ => exact fresh (hall _ hm)
  | held _ _ _ hw hafter _ =>
    rcases List.mem_append.mp hm with hm | hm
    · obtain ⟨m', hm', heq⟩ := List.mem_map.mp hm
      cases heq
      exact mem_scripted.mpr (.inr (.inr (hw ▸ List.mem_append_left _ hm')))
    · rcases List.mem_cons.mp hm with heq | hm
      · cases heq
      · exact fresh (hafter _ hm)

/-- A move that is to be made is one of a script, unless it is all that is to be done. -/
theorem Reachable.mem_scripted_of_move {opening : Sitting} {m : Move}
    (h : Reachable setup opening past a) (hm : .move m ∈ a.tasks) :
    a.tasks = [.move m] ∨ m ∈ opening.scripted := by
  suffices (∀ m ∈ a.state.scripted, m ∈ opening.scripted) ∧
      ∀ m, .move m ∈ a.tasks → a.tasks = [.move m] ∨ m ∈ opening.scripted from this.2 m hm
  apply h.invariant (I := fun s tasks => (∀ m ∈ s.scripted, m ∈ opening.scripted) ∧
    ∀ m, .move m ∈ tasks → tasks = [.move m] ∨ m ∈ opening.scripted)
  · exact ⟨fun _ => id, fun m hm => absurd hm List.not_mem_nil⟩
  · rintro s task ⟨hs, -⟩ -
    refine ⟨hs, fun m hm => .inl ?_⟩
    rw [List.mem_singleton.mp hm]
  · rintro s task rest s' first ⟨hs, htasks⟩ hp
    have hd := does_of_perform hp
    refine ⟨fun m hm => hs m (hd.scripted_subset m hm), fun m hm => .inr ?_⟩
    rcases List.mem_append.mp hm with hm | hm
    · exact hs m (hd.mem_scripted_of_move hm)
    · rcases htasks m (List.mem_cons_of_mem task hm) with heq | hscript
      · rw [(List.cons.inj heq).2] at hm
        cases hm
      · exact hscript
  · rintro s task rest s' fault ⟨hs, -⟩ hp
    refine ⟨?_, fun m hm => absurd hm List.not_mem_nil⟩
    cases does_of_perform hp with
    | gaveUp _ => exact hs
    | broken ht _ _ => exact fun m hm => hs m (ht.scripted_subset m hm)

/-! ## From the beginning of the end -/

/-- The sitting is over, or it is ending. -/
def Ending (a : Agenda Sitting Task Fault) : Prop := a.state.disposed = true ∨ .retire ∈ a.tasks

theorem not_ending_of_idle (hopen : a.state.disposed = false) (hover : a.tasks = []) :
    ¬ Ending a := by
  rintro (hdisposed | hretire)
  · rw [hopen] at hdisposed
    cases hdisposed
  · rw [hover] at hretire
    cases hretire

/-- What a step lets run has run before, or is set by it, once the sitting is ending; and the task
that makes it end stops every alarm. -/
theorem Quiet.runs_step (h : Quiet a.state a.tasks) (hl : Linked a.state)
    (hcancel : setup.honoursCancel = true) (hend : Ending (a.step (perform setup))) {i : Nat}
    (hrun : (a.step (perform setup)).state.clock.Runs i) :
    Ending a ∧ (a.state.clock.Runs i ∨ ∃ m, SetsNext setup a m i) := by
  have elapses : ∀ {after rest : List Task}, (∀ t ∈ after, ∃ target, t = .elapse target) →
      .retire ∈ after ++ rest → .retire ∈ rest := by
    intro after rest hafter hmem
    rcases List.mem_append.mp hmem with hmem | hmem
    · obtain ⟨target, heq⟩ := hafter _ hmem
      cases heq
    · exact hmem
  have moves : ∀ {ms : List Move} {rest : List Task}, .retire ∈ ms.map Task.move ++ rest →
      .retire ∈ rest := by
    intro ms rest hmem
    rcases List.mem_append.mp hmem with hmem | hmem
    · obtain ⟨m, -, heq⟩ := List.mem_map.mp hmem
      cases heq
    · exact hmem
  rcases h.step_turns setup with ⟨-, hstep⟩ | ⟨task, rest, v, htasks, -, hstep, hturns⟩
  · rw [hstep] at hend hrun
    exact ⟨hend, .inl hrun⟩
  · -- a sitting that is ending now was so before, unless the task itself makes it end
    have before : ∀ {t : Sitting} {left : List Task},
        (task ≠ .retire → t.disposed = a.state.disposed) → (.retire ∈ left → .retire ∈ rest) →
        t.disposed = true ∨ .retire ∈ left → Ending a := by
      intro t left hd hmem hend
      by_cases htask : task = .retire
      · exact .inr (by rw [htasks, htask]; exact List.mem_cons_self)
      · rcases hend with hover | hretire
        · exact .inl ((hd htask).symm.trans hover)
        · exact .inr (by rw [htasks]; exact List.mem_cons_of_mem task (hmem hretire))
    have hrun' := hrun
    rw [hstep] at hend hrun
    cases hturns with
    | announced _ => exact ⟨before (fun _ => rfl) moves hend, .inl hrun⟩
    | still hs hafter =>
      exact ⟨before hs.disposed_eq (elapses hafter) hend, .inl (hs.taken.runs hrun)⟩
    | failed hs _ =>
      refine ⟨before hs.disposed_eq (fun hmem => ?_) hend, .inl (hs.taken.runs hrun)⟩
      cases hmem
    | @moved s' e after round orders report hi hd ho =>
      have htakes := takesUp_of_intake hi
      have hm := Round.moves_of_next ho
      obtain ⟨ht, -, hdisposed⟩ := htakes.taken_of_event
      have hclock : (s'.moved setup round orders).clock.Runs i := by
        rw [← afterMove_clock s' _ round orders report]
        exact hrun
      rcases htakes.elapse_of_event with ⟨-, rfl, -, -⟩ | ⟨-, hafter⟩
      · -- the end of the sitting begins, and no alarm runs any more
        cases hm with
        | teardown => exact absurd hclock ((hl.taken ht).not_runs_stopAll hcancel _ i)
      · refine ⟨before (fun _ => ?_) (fun hmem => ?_) hend, ?_⟩
        · exact (afterMove_disposed ..).trans hdisposed
        · replace hmem : .retire ∈ (s'.heeded setup report).map .move ++
              (setup.announcement ++ (after ++ rest)) := by
            simpa only [Verdict.agenda, List.append_assoc] using hmem
          rcases List.mem_append.mp (moves hmem) with hmem | hmem
          · cases Setup.eq_announce_of_mem hmem
          · exact elapses hafter hmem
        · by_cases hold : a.state.clock.Runs i
          · exact .inl hold
          · rcases htakes.sets_or_runs hm hclock with ⟨m, rfl, hsets⟩ | hruns
            · exact .inr ⟨m, ⟨rest, htasks⟩, hsets, hd, hold, hrun'⟩
            · exact absurd hruns hold

/-- An alarm that runs once the sitting is ending was set since, by a listener. -/
theorem Reachable.set_since {opening : Sitting} (h : Reachable setup opening past a)
    (hsilent : opening.onWording = []) (hl : Linked opening) (hcancel : setup.honoursCancel = true)
    (hstart : ∀ i, ¬ opening.clock.Runs i) (hend : Ending a) {i : Nat}
    (hrun : a.state.clock.Runs i) :
    ∃ b ∈ past, .retire ∈ b.tasks ∧ ∃ m ∈ opening.scripted, SetsNext setup b m i := by
  have extend : ∀ {past : List (Agenda Sitting Task Fault)} {c : Agenda Sitting Task Fault},
      (∃ b ∈ past, .retire ∈ b.tasks ∧ ∃ m ∈ opening.scripted, SetsNext setup b m i) →
      ∃ b ∈ c :: past, .retire ∈ b.tasks ∧ ∃ m ∈ opening.scripted, SetsNext setup b m i := by
    rintro past c ⟨b, hb, hset⟩
    exact ⟨b, List.mem_cons_of_mem c hb, hset⟩
  induction h with
  | start => exact absurd hrun (hstart i)
  | call _ _ _ ih =>
    rcases hend with hover | hretire
    · exact extend (ih (.inl hover) hrun)
    · cases List.mem_singleton.mp hretire
  | ring handle _ _ ih =>
    rcases hend with hover | hretire
    · exact extend (ih (.inl hover) hrun)
    · cases List.mem_singleton.mp hretire
  | @step past a hreach ih =>
    obtain ⟨hend', hrun' | ⟨m, hset⟩⟩ :=
      (hreach.quiet hsilent).runs_step (hreach.linked hcancel hl) hcancel hend hrun
    · exact extend (ih hend' hrun')
    · have hretire : .retire ∈ a.tasks := by
        rcases hend' with hover | hretire
        · rw [hset.opened] at hover
          cases hover
        · exact hretire
      obtain ⟨rest, htasks⟩ := hset.next
      rcases hreach.mem_scripted_of_move (htasks ▸ List.mem_cons_self) with halone | hm
      · rw [halone] at hretire
        cases List.mem_singleton.mp hretire
      · exact ⟨a, List.mem_cons_self, hretire, m, hm, hset⟩

/-- **An alarm that runs after the end of a sitting was set by a listener while it was ending**, by
presenting a list of problems, giving an answer or trying again. So if no listener does that, no
alarm runs from the end on, whatever else it does. -/
theorem Reachable.set_while_ending {sheets : Table (List Problem)}
    {onResult onChange : List (List Move)} (hcancel : setup.honoursCancel = true)
    (h : Reachable setup (opening sheets onResult onChange) past a)
    (hover : a.state.disposed = true) :
    (∀ i, a.state.clock.Runs i → ∃ b ∈ past, .retire ∈ b.tasks ∧
      ∃ m ∈ (onResult ++ onChange).flatten, SetsNext setup b m i) ∧
    ((∀ m ∈ (onResult ++ onChange).flatten, ¬ m.Sets) → ∀ i, ¬ a.state.clock.Runs i) := by
  have since : ∀ i, a.state.clock.Runs i → ∃ b ∈ past, .retire ∈ b.tasks ∧
      ∃ m ∈ (onResult ++ onChange).flatten, SetsNext setup b m i := by
    intro i hrun
    obtain ⟨b, hb, hretire, m, hm, hset⟩ := h.set_since rfl (.opening ..) hcancel
      (fun _ ⟨_, ha, _⟩ => nomatch ha) (.inl hover) hrun
    have hscripts : m ∈ (onResult ++ onChange).flatten := by
      simpa [scripted, opening] using hm
    exact ⟨b, hb, hretire, m, hscripts, hset⟩
  refine ⟨since, fun hnone i hrun => ?_⟩
  obtain ⟨b, -, -, m, hm, hset⟩ := since i hrun
  exact hnone m hm hset.sets

/-- The listener for changes presents another list while the sitting is ending, and the alarm that
this sets was set while it was ending. -/
theorem set_while_ending_on_present :
    ∃ past a i, Reachable {} (opening (Table.insert {} "sums" [{ id := 1, text := "2 + 3" }])
        [] [[.present "sums" true]]) past a ∧
      a.state.disposed = true ∧ a.state.clock.Runs i ∧ ∃ b ∈ past, .retire ∈ b.tasks ∧
        ∃ m ∈ [[Move.present "sums" true]].flatten, SetsNext {} b m i := by
  have opened : Reachable {} (opening (Table.insert {} "sums" [{ id := 1, text := "2 + 3" }])
      [] [[.present "sums" true]]) [] _ := .start
  have ended := (opened.call (m := .dispose) rfl trivial).step.step.step.step.step
  refine ⟨_, _, 0, ended, rfl, ?_, (Reachable.set_while_ending rfl ended rfl).1 0 ?_⟩
  · exact ⟨_, rfl, rfl⟩
  · exact ⟨_, rfl, rfl⟩

/-- **An alarm may run after the end of a sitting**, when nothing is left to do. -/
theorem alarm_runs_after_end :
    ∃ past a i, Reachable {} (opening (Table.insert {} "sums" [{ id := 1, text := "2 + 3" }])
        [] [[], [.present "sums" true]]) past a ∧
      a.tasks = [] ∧ a.state.disposed = true ∧ a.state.clock.Runs i := by
  have opened : Reachable {} (opening (Table.insert {} "sums" [{ id := 1, text := "2 + 3" }])
      [] [[], [.present "sums" true]]) [] _ := .start
  have shown := (opened.call (m := .present "sums" false) rfl trivial).step.step
  have ended := (shown.call (m := .dispose) rfl trivial).step.step.step.step.step
  refine ⟨_, _, 1, ended, rfl, rfl, ?_⟩
  exact ⟨_, rfl, rfl⟩

end Sitting

end TimedQuiz
