import TimedQuiz.Proofs.Sitting.Ending

/-!
# Sittings on which nobody acts

* `LeadsTo` — what doing one task comes to, with the tasks that follow;
* `Passive` — neither the listeners nor the wording do anything, and the sitting is not over.

Main statement: `Passive.leadsTo` — an event that moves the round leaves nothing behind but that
round, the timers that it asks for and its report.
-/

namespace TimedQuiz.Sitting

variable {setup : Setup} {s s' t : Sitting} {task : Task} {after : List Task} {e : Event}

variable (setup) in
/-- Doing a task leads to another sitting, with tasks that follow: an agenda that ends there ends
the same here. -/
def LeadsTo (s : Sitting) (task : Task) (s' : Sitting) (after : List Task) : Prop :=
  ∀ rest t fault, Agenda.EndsIn (perform setup) { state := s', tasks := after ++ rest } t fault →
    Agenda.EndsIn (perform setup) { state := s, tasks := task :: rest } t fault

theorem LeadsTo.refl (s : Sitting) (task : Task) : LeadsTo setup s task s [task] :=
  fun _ _ _ h => h

theorem LeadsTo.of_done (h : perform setup task s = .done s' after) :
    LeadsTo setup s task s' after := by
  intro rest t fault hend
  refine .of_step (List.cons_ne_nil task rest) ?_
  rw [Agenda.step_cons, h]
  exact hend

/-- The first of the tasks that follow is done next. -/
theorem LeadsTo.trans {task' : Task} {first : List Task}
    (h : LeadsTo setup s task s' (task' :: after)) (h' : LeadsTo setup s' task' t first) :
    LeadsTo setup s task t (first ++ after) := by
  intro rest u fault hend
  refine h rest u fault (h' (after ++ rest) u fault ?_)
  rwa [← List.append_assoc]

theorem LeadsTo.completes {m : Move} (h : LeadsTo setup s (.move m) t []) :
    Completes setup s m t none :=
  h [] t none (Agenda.endsIn_nil t none)

/-- Nobody acts on the sitting, and it is not over. -/
structure Passive (s : Sitting) : Prop where
  onResult_eq : s.onResult = []
  onChange_eq : s.onChange = []
  onWording_eq : s.onWording = []
  disposed_eq : s.disposed = false

theorem passive_opening (sheets : Table (List Problem)) : (opening sheets [] []).Passive :=
  ⟨rfl, rfl, rfl, rfl⟩

/-- A sitting that is shown to a listener who does nothing is as it was, apart from the record. -/
theorem Passive.leadsTo_announce (hs : s.Passive) :
    LeadsTo setup s .announce { s with journal := .shown s.round :: s.journal } [] := by
  refine .of_done ?_
  show Verdict.done s.announce.1 s.announce.2 = _
  simp [announce, record, hs.onChange_eq]

theorem Passive.of_event (hs : s.Passive) (hi : s.intake task = .event s' e after) :
    s'.Passive := by
  obtain ⟨ht, -, hdisposed⟩ := (takesUp_of_intake hi).taken_of_event
  refine ⟨ht.spared.onResult_eq.trans hs.onResult_eq, ?_,
    ht.spared.onWording_eq.trans hs.onWording_eq, hdisposed.trans hs.disposed_eq⟩
  rcases ht.spared.onChange_cases with heq | heq
  · exact heq.trans hs.onChange_eq
  · rw [heq, hs.onChange_eq]
    rfl

/-- Timers that are set right make nobody act. -/
theorem Passive.moved (hs : s.Passive) (setup : Setup) (round : Round) (orders : List TimerOrder)
    (journal : List Entry) : ({ s.moved setup round orders with journal } : Sitting).Passive := by
  obtain ⟨c, p, n, k, hm⟩ := moved_frame setup s round orders
  rw [hm]
  exact ⟨hs.onResult_eq, hs.onChange_eq, hs.onWording_eq, hs.disposed_eq⟩

/-- An event that moves the round leads to the sitting whose round has moved and whose timers are
right; what else is on record is the report. -/
theorem Passive.leadsTo (hs : s.Passive) (hi : s.intake task = .event s' e after) {round : Round}
    {orders : List TimerOrder} {report : Option Report}
    (ho : (s.round.next setup.rules setup.wording e).outcome = .ok (.moved round orders report)) :
    ∃ journal, LeadsTo setup s task { s'.moved setup round orders with journal } after ∧
      journal.filterMap Entry.report? =
        (if setup.tellsResults then report.toList else []) ++ s.reports := by
  have hs' : s'.Passive := hs.of_event hi
  have hdone := perform_of_moved hi hs.onWording_eq hs.disposed_eq ho
  have hreports : (s'.record (s.round.next setup.rules setup.wording e).entries).reports =
      s.reports := by
    obtain ⟨-, hjournal, -⟩ := (takesUp_of_intake hi).taken_of_event
    refine reports_eq_of_calls ?_
    rw [calls_record_entries, calls_eq_of_journal hjournal]
  have hcalm := heeded_eq_nil setup hs'.onResult_eq report
  obtain ⟨journal, hstate, hjournal⟩ : ∃ journal,
      (s'.record (s.round.next setup.rules setup.wording e).entries).afterMove setup round orders
        report = { s'.moved setup round orders with journal } ∧
      journal.filterMap Entry.report? =
        (if setup.tellsResults then report.toList else []) ++ s.reports := by
    refine ⟨_, ?_, (reports_afterMove setup _ round orders report).trans (by rw [hreports])⟩
    obtain ⟨c, p, n, k, hm⟩ := moved_frame setup s' round orders
    rw [afterMove, record, moved_withJournal, hm]
    simp [hs'.onResult_eq]
  have hpassive := hs'.moved setup round orders journal
  rw [hcalm, hstate] at hdone
  cases ht : setup.tellsChanges with
  | false =>
    have hnone : setup.announcement = [] := by simp [Setup.announcement, ht]
    rw [hnone] at hdone
    exact ⟨journal, .of_done hdone, hjournal⟩
  | true =>
    have hone : setup.announcement = [.announce] := by simp [Setup.announcement, ht]
    rw [hone] at hdone
    exact ⟨_, (LeadsTo.of_done hdone).trans hpassive.leadsTo_announce, hjournal⟩

/-! ## Time and timers -/

variable {target due : Int}

/-- What is heard of the alarm that rings next. -/
theorem intake_elapse {handle : Nat} {a : Alarm Purpose}
    (hnext : s.clock.earliest? target = some (handle, due))
    (ha : s.clock.alarms[handle]? = some a) (harmed : a.armed = true) :
    s.intake (.elapse target) =
      { s with clock := (s.clock.ring handle due).1 }.deliver [.elapse target] a.payload := by
  have hheard : (s.clock.ring handle due).2 = some a.payload := by
    rw [Clock.ring_heard, ha]
    exact Alarm.heard_eq_some_iff.mpr ⟨harmed, rfl⟩
  simp only [intake, elapse, hnext]
  generalize s.clock.ring handle due = rung at hheard ⊢
  obtain ⟨clock, heard⟩ := rung
  cases hheard
  rfl

/-- A wait sends time on its way. -/
theorem leadsTo_wait {milliseconds : Int} :
    LeadsTo setup s (.move (.wait milliseconds)) s [.elapse (s.clock.now + milliseconds)] :=
  .of_done rfl

/-- Time moves on to its target when no alarm is due by then. -/
theorem leadsTo_arrive
    (h : ∀ (j : Nat) (b : Alarm Purpose), s.clock.alarms[j]? = some b → b.running = true →
      target < b.due) :
    LeadsTo setup s (.elapse target) { s with clock := { s.clock with now := target } } [] :=
  .of_done (perform_elapse_of_none (Clock.earliest?_eq_none_iff.mpr h))

/-- All is stopped, where no advance waits any more. -/
theorem moved_stopAll_eq (hcancel : setup.honoursCancel = true) (round : Round) {handle : Nat}
    (hticker : s.ticker = some handle) (clock : Clock Purpose) :
    ({ s with clock, pending := [] } : Sitting).moved setup round Round.stopAll =
      { s with round, clock := clock.cancel handle, pending := [], ticker := none } := by
  simp [Sitting.moved, Round.stopAll, carryOut, cancelAdvances, stopTicker, cancelAlarm, hticker,
    hcancel]

end TimedQuiz.Sitting
