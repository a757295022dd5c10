import TimedQuiz.Proofs.Round.Retention
import TimedQuiz.Proofs.Sitting.Silent
import TimedQuiz.Proofs.Sitting.Timers

/-!
# The end of a round is reported once

* `Sitting.ends`, `Sitting.reports` — what is on record of the ends of rounds;
* `EndsNext` — the next task ends the round;
* `Restarts` — the next task lets another round begin;
* `Shifts` — the next task brings an event that moves the round;
* `ReportsEnd` — how the end of a round is reported.

Main statement: `Reachable.reports_each_end_once`. The listeners may do what they like in their
calls, and give up; the wording may refuse a text, but asks nothing back.
-/

namespace TimedQuiz

/-- The entry tells of the end of a round, to the operator or to the listener for results. -/
def Entry.tellsOfEnd : Entry → Bool
  | .result _ => true
  | .notice (.completed ..) => true
  | _ => false

/-- The report that the listener for results was given. -/
def Entry.report? : Entry → Option Report
  | .result report => some report
  | _ => none

theorem Entry.isCall_of_tellsOfEnd {entry : Entry} (h : entry.tellsOfEnd = true) :
    entry.isCall = true := by
  cases entry with
  | result report => rfl
  | notice n =>
    cases n with
    | completed correct total score grade => rfl
    | unreadable expression reason => cases h
    | notFinite id expression value => cases h
    | staleAdvance generation => cases h
    | staleTick generation => cases h
  | asked key => cases h
  | shown round => cases h

namespace Sitting

/-- What is on record of the ends of rounds, the latest first. -/
def ends (s : Sitting) : List Entry := s.journal.filter Entry.tellsOfEnd

/-- The reports that the listener for results was given, the latest first. -/
def reports (s : Sitting) : List Report := s.journal.filterMap Entry.report?

variable (setup : Setup)

/-- The next task ends the round. -/
def EndsNext (a : Agenda Sitting Task Fault) : Prop :=
  a.state.round.phase = .active ∧ (a.step (perform setup)).state.round.phase = .completed

instance (a : Agenda Sitting Task Fault) : Decidable (EndsNext setup a) :=
  inferInstanceAs (Decidable (_ ∧ _))

/-- The next task lets another round begin: a list of problems is taken, or a completed round is
tried once more. -/
def Restarts (a : Agenda Sitting Task Fault) : Prop :=
  accepted a ≠ none ∨ ((∃ rest, a.tasks = .move .retry :: rest) ∧ a.state.disposed = false ∧
    a.state.round.phase = .completed)

/-- The report that the round has once the next task has ended it. -/
def endReport? (a : Agenda Sitting Task Fault) : Option Report :=
  if EndsNext setup a then (a.step (perform setup)).state.round.result else none

/-- How the end of a round is reported: the round is completed as it stands, with the report on its
problems; a notice is made and the listener for results is given the report, which acts at once; and
no alarm runs by then. -/
structure ReportsEnd (a : Agenda Sitting Task Fault) (report : Report) : Prop where
  problems_eq : (a.step (perform setup)).state.round.problems = a.state.round.problems
  result_eq : (a.step (perform setup)).state.round.result = some report
  graded : (assess setup.wording a.state.round.problems).outcome = .ok report
  recorded : ∃ older, (a.step (perform setup)).state.journal =
    .result report :: .notice report.notice :: older ∧
      older.filter Entry.tellsOfEnd = a.state.ends
  severity_eq : report.notice.severity = .info
  acts : ∃ more, (a.step (perform setup)).tasks = (offered a.state.onResult).map .move ++ more
  not_running : ∀ i, ¬ (a.step (perform setup)).state.clock.Runs i

variable {setup} {s s' : Sitting} {task : Task} {rest after : List Task} {e : Event}
  {a : Agenda Sitting Task Fault} {past : List (Agenda Sitting Task Fault)}

theorem ends_eq_filter_calls (s : Sitting) : s.ends = s.calls.filter Entry.tellsOfEnd := by
  rw [ends, calls, List.filter_filter]
  apply List.filter_congr
  intro entry _
  cases h : entry.tellsOfEnd with
  | false => rfl
  | true => rw [Entry.isCall_of_tellsOfEnd h, Bool.and_self]

theorem reports_eq_of_ends (s : Sitting) : s.reports = s.ends.filterMap Entry.report? := by
  rw [reports, ends, List.filterMap_filter]
  congr 1
  funext entry
  cases entry with
  | notice n => cases n <;> rfl
  | result report => rfl
  | asked key => rfl
  | shown round => rfl

theorem reports_afterMove (setup : Setup) (s : Sitting) (round : Round) (orders : List TimerOrder)
    (report : Option Report) : (s.afterMove setup round orders report).reports =
      (if setup.tellsResults then report.toList else []) ++ s.reports := by
  show (setup.calls report ++ s.journal).filterMap Entry.report? = _
  rw [List.filterMap_append]
  congr 1
  cases report with
  | none => simp [Setup.calls]
  | some report => cases ht : setup.tellsResults <;> simp [Setup.calls, ht, Entry.report?]

theorem reports_eq_of_calls (h : s'.calls = s.calls) : s'.reports = s.reports := by
  rw [reports_eq_of_ends, reports_eq_of_ends, ends_eq_filter_calls, ends_eq_filter_calls, h]

/-! ## What the next task does -/

variable (setup) in
/-- The next task brings an event that moves the round, with what this leaves behind. -/
structure Shifts (a : Agenda Sitting Task Fault) (s' : Sitting) (e : Event) (round : Round)
    (orders : List TimerOrder) (report : Option Report) : Prop where
  brought : ∃ task rest after, a.tasks = task :: rest ∧ a.state.TakesUp task (.event s' e after)
  opened : a.state.disposed = false
  moves : Round.Moves setup.rules setup.wording a.state.round e round orders report
  state_eq : (a.step (perform setup)).state =
    (s'.record (a.state.round.next setup.rules setup.wording e).entries).afterMove setup round
      orders report
  tasks_eq : ∃ more, (a.step (perform setup)).tasks =
    (a.state.heeded setup report).map .move ++ more

/-- The next task leaves the round and the record of ends alone, or brings an event that moves the
round. -/
theorem Quiet.rests_or_shifts (setup : Setup) (h : Quiet a.state a.tasks) :
    ((a.step (perform setup)).state.round = a.state.round ∧
      (a.step (perform setup)).state.ends = a.state.ends) ∨
    ∃ s' e round orders report, Shifts setup a s' e round orders report := by
  have still : ∀ {task : Task} {s' : Sitting}, a.state.Still setup task s' →
      s'.round = a.state.round ∧ s'.ends = a.state.ends := by
    intro task s' hs
    refine ⟨hs.taken.spared.round_eq, ?_⟩
    rw [ends_eq_filter_calls, ends_eq_filter_calls, hs.calls_eq]
  rcases h.step_turns setup with ⟨-, hstep⟩ | ⟨task, rest, v, htasks, -, hstep, hturns⟩
  · rw [hstep]
    exact .inl ⟨rfl, rfl⟩
  · cases hturns with
    | announced _ =>
      left
      rw [hstep]
      refine ⟨rfl, ?_⟩
      show a.state.announce.1.ends = a.state.ends
      rw [ends_eq_filter_calls, ends_eq_filter_calls, calls_announce]
      rfl
    | still hs _ =>
      rw [hstep]
      exact .inl (still hs)
    | failed hs _ =>
      rw [hstep]
      exact .inl (still hs)
    | @moved s' e after round orders report hi hd ho =>
      right
      obtain ⟨ht, -, -⟩ := (takesUp_of_intake hi).taken_of_event
      refine ⟨s', e, round, orders, report, ⟨task, rest, after, htasks, takesUp_of_intake hi⟩, hd,
        Round.moves_of_next ho, ?_, ?_⟩
      · rw [hstep]
        rfl
      · rw [hstep]
        refine ⟨setup.announcement ++ after ++ rest, ?_⟩
        show (s'.heeded setup report).map .move ++ setup.announcement ++ after ++ rest = _
        simp only [heeded, ht.spared.onResult_eq, List.append_assoc]

namespace Shifts

variable {round : Round} {orders : List TimerOrder} {report : Option Report}

theorem round_eq (h : Shifts setup a s' e round orders report) :
    (a.step (perform setup)).state.round = round := by
  rw [h.state_eq, afterMove_round]

theorem taken (h : Shifts setup a s' e round orders report) :
    a.state.Taken s' ∧ s'.journal = a.state.journal := by
  obtain ⟨task, rest, after, -, htakes⟩ := h.brought
  obtain ⟨ht, hjournal, -⟩ := htakes.taken_of_event
  exact ⟨ht, hjournal⟩

theorem ne_finish_some (h : Shifts setup a s' e round orders report) (problems : List Problem) :
    e ≠ .finish (some problems) := by
  obtain ⟨task, rest, after, -, htakes⟩ := h.brought
  exact htakes.ne_finish_some problems

theorem ends_eq (h : Shifts setup a s' e round orders report) :
    (a.step (perform setup)).state.ends =
      (setup.calls report).filter Entry.tellsOfEnd ++ a.state.ends := by
  rw [h.state_eq, ends_eq_filter_calls, calls_afterMove, calls_record_entries,
    calls_eq_of_journal h.taken.2, List.filter_append, ← ends_eq_filter_calls]

/-- Only a task that lets another round begin loses what the round has. -/
theorem retains (h : Shifts setup a s' e round orders report) (hr : ¬ Restarts a) :
    a.state.round.Retains round := by
  obtain ⟨task, rest, after, htasks, htakes⟩ := h.brought
  have hacc : accepted a = none := Decidable.not_not.mp fun hne => hr (.inl hne)
  have hretry : e ≠ .retry := by
    rintro rfl
    apply hr
    right
    cases htakes with
    | retry =>
      cases h.moves with
      | retry hphase => exact ⟨⟨rest, htasks⟩, h.opened, hphase⟩
  refine h.moves.retains ?_ hretry h.ne_finish_some
  rintro problems rfl
  simp only [accepted, htasks] at hacc
  cases htakes with
  | sheet hd hs =>
    simp [hd, hs] at hacc
  | copy hd =>
    simp [hd] at hacc

end Shifts

/-! ## The end of a round -/

theorem Quiet.retains_step (setup : Setup) (h : Quiet a.state a.tasks) (hr : ¬ Restarts a) :
    a.state.round.Retains (a.step (perform setup)).state.round := by
  rcases h.rests_or_shifts setup with ⟨hround, -⟩ | ⟨s', e, round, orders, report, hs⟩
  · rw [hround]
    exact .refl _
  · rw [hs.round_eq]
    exact hs.retains hr

theorem Quiet.follows_step (setup : Setup) (h : Quiet a.state a.tasks) :
    a.state.round.Follows (a.step (perform setup)).state.round := by
  rcases h.rests_or_shifts setup with ⟨hround, -⟩ | ⟨s', e, round, orders, report, hs⟩
  · rw [hround]
    exact .refl _
  · rw [hs.round_eq]
    exact hs.moves.follows

/-- What ends the round is an event that closes it. -/
theorem Quiet.closes (h : Quiet a.state a.tasks) (hend : EndsNext setup a) :
    ∃ s' e round report, Shifts setup a s' e round Round.stopAll (some report) ∧
      Round.Closes setup.wording a.state.round round Round.stopAll report := by
  obtain ⟨hactive, hcompleted⟩ := hend
  rcases h.rests_or_shifts setup with ⟨hround, -⟩ | ⟨s', e, round, orders, report, hs⟩
  · rw [hround, hactive] at hcompleted
    cases hcompleted
  · rcases hs.moves.end_cases hs.ne_finish_some with ⟨report, rfl, hcloses⟩ | ⟨-, hopen⟩
    · cases hcloses.orders_eq
      exact ⟨s', e, round, report, hs, hcloses⟩
    · rw [hs.round_eq, Round.phase_eq_completed_iff, hopen hactive] at hcompleted
      cases hcompleted

/-- No alarm runs any more once the round has ended. -/
theorem Quiet.not_runs (h : Quiet a.state a.tasks) (hl : Linked a.state)
    (hcancel : setup.honoursCancel = true) (hend : EndsNext setup a) (i : Nat) :
    ¬ (a.step (perform setup)).state.clock.Runs i := by
  obtain ⟨s', e, round, report, hs, -⟩ := h.closes hend
  rw [hs.state_eq, afterMove_clock]
  exact (hl.taken hs.taken.1).not_runs_stopAll hcancel round i

/-- A task that ends the round reports its end. -/
theorem Quiet.reportsEnd (h : Quiet a.state a.tasks) (hl : Linked a.state)
    (hcancel : setup.honoursCancel = true) (hresults : setup.tellsResults = true)
    (hend : EndsNext setup a) : ∃ report, ReportsEnd setup a report := by
  obtain ⟨s', e, round, report, hs, hcloses⟩ := h.closes hend
  refine ⟨report, ?_, ?_, hcloses.graded, ?_, rfl, ?_, h.not_runs hl hcancel hend⟩
  · rw [hs.round_eq, hcloses.round_eq]
    rfl
  · rw [hs.round_eq, hcloses.round_eq]
    rfl
  · refine ⟨(s'.record (a.state.round.next setup.rules setup.wording e).entries).journal, ?_, ?_⟩
    · rw [hs.state_eq]
      simp [afterMove, Setup.calls, hresults]
    · show ends (s'.record (a.state.round.next setup.rules setup.wording e).entries) = _
      rw [ends_eq_filter_calls, calls_record_entries, calls_eq_of_journal hs.taken.2,
        ← ends_eq_filter_calls]
  · obtain ⟨more, htasks⟩ := hs.tasks_eq
    refine ⟨more, htasks.trans ?_⟩
    simp [heeded, hresults]

/-- A task that does not end the round adds nothing to the record of ends. -/
theorem Quiet.ends_eq (h : Quiet a.state a.tasks) (hend : ¬ EndsNext setup a) :
    (a.step (perform setup)).state.ends = a.state.ends := by
  rcases h.rests_or_shifts setup with ⟨-, hends⟩ | ⟨s', e, round, orders, report, hs⟩
  · exact hends
  · rcases hs.moves.end_cases hs.ne_finish_some with ⟨rep, rfl, hcloses⟩ | ⟨rfl, -⟩
    · refine absurd ⟨hcloses.active, ?_⟩ hend
      rw [hs.round_eq, hcloses.phase_eq]
    · rw [hs.ends_eq]
      rfl

theorem ReportsEnd.reports_eq {report : Report} (h : ReportsEnd setup a report) :
    (a.step (perform setup)).state.reports = report :: a.state.reports := by
  obtain ⟨older, hjournal, holder⟩ := h.recorded
  have hreports : older.filterMap Entry.report? = a.state.reports := by
    rw [reports_eq_of_ends, ← holder]
    exact reports_eq_of_ends { a.state with journal := older }
  rw [reports, hjournal, ← hreports]
  rfl

/-! ## All that came before -/

theorem Reachable.reports_eq {opening : Sitting} (h : Reachable setup opening past a)
    (hsilent : opening.onWording = []) (hjournal : opening.journal = []) (hl : Linked opening)
    (hcancel : setup.honoursCancel = true) (hresults : setup.tellsResults = true) :
    a.state.reports = past.filterMap (endReport? setup) := by
  apply h.along (P := fun past s => s.reports = past.filterMap (endReport? setup))
  · rw [reports, hjournal]
    rfl
  · intro past a hreach ih
    have hq := hreach.quiet hsilent
    by_cases hend : EndsNext setup a
    · obtain ⟨report, hr⟩ := hq.reportsEnd (hreach.linked hcancel hl) hcancel hresults hend
      have hreport : endReport? setup a = some report := by
        rw [endReport?, if_pos hend, hr.result_eq]
      rw [hr.reports_eq, List.filterMap_cons_some hreport, ih]
    · have hnone : endReport? setup a = none := if_neg hend
      rw [List.filterMap_cons_none hnone, ← ih, reports_eq_of_ends, hq.ends_eq hend,
        ← reports_eq_of_ends]

/-- Of two rounds that came to their end, the later one is of a later generation. -/
theorem Reachable.ends_pairwise {opening : Sitting} (h : Reachable setup opening past a)
    (hsilent : opening.onWording = []) :
    ((past.filter fun b => EndsNext setup b).map (·.state.round.generation)).Pairwise (· > ·) := by
  -- what was set for the generation of a round that has ended has no effect any more
  suffices (∀ b ∈ past, EndsNext setup b → a.state.round.Supersedes b.state.round.generation) ∧
      ((past.filter fun b => EndsNext setup b).map (·.state.round.generation)).Pairwise (· > ·) from
    this.2
  apply h.along (P := fun past s =>
    (∀ b ∈ past, EndsNext setup b → s.round.Supersedes b.state.round.generation) ∧
      ((past.filter fun b => EndsNext setup b).map (·.state.round.generation)).Pairwise (· > ·))
  · exact ⟨fun b hb => absurd hb List.not_mem_nil, .nil⟩
  · rintro past a hreach ⟨hsup, hpair⟩
    have hfollows := (hreach.quiet hsilent).follows_step setup
    constructor
    · intro b hb hend
      rcases List.mem_cons.mp hb with rfl | hb
      · have hcompleted := Round.phase_eq_completed_iff.mp hend.2
        rcases hfollows with hlt | ⟨heq, -⟩
        · exact .inl hlt
        · exact .inr ⟨heq, hcompleted⟩
      · exact hfollows.supersedes (hsup b hb hend)
    · by_cases hend : EndsNext setup a
      · rw [List.filter_cons_of_pos (by simpa using hend), List.map_cons, List.pairwise_cons]
        refine ⟨fun g hg => ?_, hpair⟩
        obtain ⟨b, hb, rfl⟩ := List.mem_map.mp hg
        obtain ⟨hmem, hb⟩ := List.mem_filter.mp hb
        have hopen := (Round.phase_eq_active_iff.mp hend.1).1
        rcases hsup b hmem (by simpa using hb) with hlt | ⟨-, hcompleted⟩
        · exact hlt
        · rw [hopen] at hcompleted
          cases hcompleted
      · rw [List.filter_cons_of_neg (by simpa using hend)]
        exact hpair

/-- As long as no other round begins, a round keeps its answers, and its report once there is
one. -/
theorem Reachable.retains {opening : Sitting} (h : Reachable setup opening past a)
    (hsilent : opening.onWording = []) {later earlier : List (Agenda Sitting Task Fault)}
    {c : Agenda Sitting Task Fault} (hpast : past = later ++ c :: earlier)
    (hr : ∀ b ∈ later ++ [c], ¬ Restarts b) : c.state.round.Retains a.state.round := by
  revert later
  apply h.along (P := fun past s => ∀ {later}, past = later ++ c :: earlier →
    (∀ b ∈ later ++ [c], ¬ Restarts b) → c.state.round.Retains s.round)
  · intro later hpast
    simp at hpast
  · intro past a hreach ih later hpast hr
    have hstep := (hreach.quiet hsilent).retains_step setup
    cases later with
    | nil =>
      cases hpast
      exact hstep (hr _ (by simp))
    | cons b later =>
      cases hpast
      exact (ih rfl fun b hb => hr b (List.mem_cons_of_mem _ hb)).trans
        (hstep (hr _ List.mem_cons_self))

/-- **The end of a round is reported once, and nothing else is.** The listener for results is given
the report on the problems as they stand when the round ends, right after a notice of it and when no
alarm runs any more; its reports are those of the rounds that have ended, each of a generation of
its own; and until another round begins, the round keeps its answers and its report. -/
theorem Reachable.reports_each_end_once {sheets : Table (List Problem)}
    {onResult onChange : List (List Move)} (hcancel : setup.honoursCancel = true)
    (hresults : setup.tellsResults = true)
    (h : Reachable setup (opening sheets onResult onChange) past a) :
    (EndsNext setup a → ∃ report, ReportsEnd setup a report) ∧
      (¬ EndsNext setup a → (a.step (perform setup)).state.ends = a.state.ends) ∧
      a.state.reports = past.filterMap (endReport? setup) ∧
      ((past.filter fun b => EndsNext setup b).map (·.state.round.generation)).Pairwise (· > ·) ∧
      ∀ later c earlier, past = later ++ c :: earlier → (∀ b ∈ later ++ [c], ¬ Restarts b) →
        c.state.round.Retains a.state.round := by
  have hq := h.quiet rfl
  have hl : Linked (opening sheets onResult onChange) := .opening ..
  refine ⟨?_, hq.ends_eq, h.reports_eq rfl rfl hl hcancel hresults, h.ends_pairwise rfl, ?_⟩
  · exact hq.reportsEnd (h.linked hcancel hl) hcancel hresults
  · intro later c earlier hpast hr
    exact h.retains rfl hpast hr

/-- The round is ended by hand, the listener for results starts it over at once, and it is about to
be ended again. -/
theorem reports_each_end_once_after_retry :
    ∃ past a, Reachable {} (opening (Table.insert {} "sums" [{ id := 1, text := "2 + 3" }])
        [[.retry]] []) past a ∧
      EndsNext {} a ∧ (∃ report, ReportsEnd {} a report) ∧
      a.state.reports = past.filterMap (endReport? {}) ∧ a.state.reports.map (·.total) = [1] := by
  have opened : Reachable {} (opening (Table.insert {} "sums" [{ id := 1, text := "2 + 3" }])
      [[.retry]] []) [] _ := .start
  have shown := (opened.call (m := .present "sums" false) rfl trivial).step.step
  have ended := (shown.call (m := .finish) rfl trivial).step.step.step.step
  have again := ended.call (m := .finish) (List.isEmpty_iff.mp (by decide +kernel)) trivial
  have hend := Reachable.reports_each_end_once rfl rfl again
  refine ⟨_, _, again, ?_, hend.1 ?_, hend.2.2.1, ?_⟩
  · decide +kernel
  · decide +kernel
  · decide +kernel

end Sitting

end TimedQuiz
