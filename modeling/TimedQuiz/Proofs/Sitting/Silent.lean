import TimedQuiz.Proofs.Sitting.Reach
import TimedQuiz.Proofs.Timing.Agenda

/-!
# Sittings whose wording asks nothing back

Where the wording does not act on the sitting, no event is ever held up, and doing a task comes to
exactly one thing, down to what is put on record.

* `Strikes` — the task makes an alarm ring;
* `TakesUp` — what a task comes to before any event reaches the round;
* `Sitting.calls` — the calls of the listeners, with the notices of the ends of rounds;
* `Sitting.assigned` — the round that a task puts in place;
* `Turns` — what doing a task does to the round.

Main statements: `intake_takesUp`, `Quiet.turns` — a task comes to one of these things only;
`effect_moved_eq` — what a moving event leaves behind; `calls_record_entries` — no listener is
called before an event takes effect.
-/

namespace TimedQuiz

/-- The notice of the end of a round. -/
def Report.notice (report : Report) : Notice :=
  .completed report.correct report.total report.score report.grade

/-- The entry is the call of a listener, or the notice of the end of a round. -/
def Entry.isCall : Entry → Bool
  | .result _ => true
  | .shown _ => true
  | .notice (.completed ..) => true
  | _ => false

/-- The calls for a report: a notice, and after it the call of the listener for results, if there is
one; the latest first. -/
def Setup.calls (setup : Setup) : Option Report → List Entry
  | none => []
  | some report => (if setup.tellsResults then [.result report] else []) ++ [.notice report.notice]

/-- The listener for changes is shown the round, if there is one. -/
def Setup.announcement (setup : Setup) : List Task := if setup.tellsChanges then [.announce] else []

theorem Setup.eq_announce_of_mem {setup : Setup} {task : Task} (h : task ∈ setup.announcement) :
    task = .announce := by
  unfold announcement at h
  split at h
  · exact List.mem_singleton.mp h
  · cases h

namespace Round

variable {rules : HouseRules} {wording : Wording} {r : Round} {entry : Entry}

theorem isCall_of_mem_ask {key : String} (h : entry ∈ (wording.ask key).entries) :
    entry.isCall = false := by
  simp only [Wording.ask] at h
  split at h
  · rw [List.mem_singleton.mp h]
    rfl
  · cases h

theorem isCall_of_mem_bind {α β : Type} {x : Recorded α} {f : α → Recorded β}
    (hx : ∀ entry ∈ x.entries, entry.isCall = false)
    (hf : ∀ a, ∀ entry ∈ (f a).entries, entry.isCall = false) (h : entry ∈ (x >>= f).entries) :
    entry.isCall = false := by
  cases ho : x.outcome with
  | error fault =>
    rw [(Recorded.bind_error ho f).2] at h
    exact hx entry h
  | ok a =>
    rw [(Recorded.bind_ok ho f).2] at h
    rcases List.mem_append.mp h with h | h
    · exact hx entry h
    · exact hf a entry h

theorem isCall_of_mem_finishWith {problems : List Problem}
    (h : entry ∈ (r.finishWith wording problems).entries) : entry.isCall = false := by
  unfold finishWith at h
  split at h
  · cases h
  · have none : ∀ entry ∈ ([] : List Entry), entry.isCall = false :=
      fun _ h => absurd h List.not_mem_nil
    refine isCall_of_mem_bind (fun entry h => ?_) (fun report => none) h
    refine isCall_of_mem_bind none (fun score entry h => ?_) h
    refine isCall_of_mem_bind (fun _ => isCall_of_mem_ask) (fun title entry h => ?_) h
    exact isCall_of_mem_bind (fun _ => isCall_of_mem_ask) (fun feedback => none) h

/-- **No listener is called before an event takes effect.** -/
theorem isCall_of_mem_entries {event : Event} (h : entry ∈ (r.next rules wording event).entries) :
    entry.isCall = false := by
  cases event with
  | load problems =>
    obtain ⟨n, hn, rfl⟩ := List.mem_map.mp h
    obtain ⟨p, -, hp⟩ := List.mem_filterMap.mp hn
    unfold Problem.notice? at hp
    split at hp
    · split at hp <;> cases hp
      rfl
    · cases hp
      rfl
  | finish given => exact isCall_of_mem_finishWith h
  | advance order =>
    simp only [next, advance] at h
    split at h
    · cases h
    · split at h
      · exact isCall_of_mem_finishWith h
      · cases h
  | submit id answer => cases h
  | retry => cases h
  | back => cases h
  | forward => cases h
  | tick generation => cases h
  | teardown => cases h

end Round

namespace Sitting

variable (setup : Setup)

/-! ## What a task comes to before any event reaches the round -/

/-- The task makes an alarm ring: in its turn as time moves on, or out of turn. -/
inductive Strikes (s : Sitting) : Task → Nat → Clock Purpose → List Task → Prop
  | inTurn {target due : Int} {handle : Nat} : s.clock.earliest? target = some (handle, due) →
      Strikes s (.elapse target) handle (s.clock.ring handle due).1 [.elapse target]
  | outOfTurn (handle : Nat) : Strikes s (.ring handle) handle (s.clock.signal handle).1 []

/-- What a task comes to before any event reaches the round. -/
inductive TakesUp (s : Sitting) : Task → Intake → Prop
  /-- A list of problems is taken. -/
  | sheet {name : String} : s.disposed = false → s.source ≠ some (.sheet name) →
      TakesUp s (.move (.present name false))
        (.event { s with source := some (.sheet name) } (.load (s.sheet name)) [])
  | copy {name : String} : s.disposed = false →
      TakesUp s (.move (.present name true))
        (.event { s with source := some (.copy s.copies), copies := s.copies + 1 }
          (.load (s.sheet name)) [])
  /-- A list of problems is passed over. -/
  | passedOver {name : String} {copied : Bool} {copies : Nat} : s.copies ≤ copies →
      TakesUp s (.move (.present name copied)) (.aside { s with copies } [])
  | extend {name : String} {problem : Problem} {sheets : Table (List Problem)} :
      TakesUp s (.move (.extend name problem)) (.aside { s with sheets } [])
  | submit {id : Int} {answer : Float} : s.enabled = true →
      TakesUp s (.move (.submit id answer)) (.event s (.submit id answer) [])
  /-- No answers are taken. -/
  | refused {id : Int} {answer : Float} : s.enabled = false →
      TakesUp s (.move (.submit id answer)) (.aside s [])
  | back : TakesUp s (.move .back) (.event s .back [])
  | forward : TakesUp s (.move .forward) (.event s .forward [])
  | finish : TakesUp s (.move .finish) (.event s (.finish none) [])
  | retry : TakesUp s (.move .retry) (.event s .retry [])
  | dispose : s.disposed = false → TakesUp s (.move .dispose) (.event s .teardown [.retire])
  | disposed : s.disposed = true → TakesUp s (.move .dispose) (.aside s [])
  | enable (value : Bool) :
      TakesUp s (.move (.enable value)) (.aside { s with enabled := value } [])
  | wait (milliseconds : Int) :
      TakesUp s (.move (.wait milliseconds)) (.aside s [.elapse (s.clock.now + milliseconds)])
  | giveUp (message : String) :
      TakesUp s (.move (.giveUp message)) (.failed s (.listener message))
  | announce : TakesUp s .announce (.aside s.announce.1 s.announce.2)
  | retire : TakesUp s .retire (.aside { s with disposed := true } [])
  /-- Time moves on to its target. -/
  | arrive {target : Int} : s.clock.earliest? target = none →
      TakesUp s (.elapse target) (.aside { s with clock := { s.clock with now := target } } [])
  | unheard {task : Task} {handle : Nat} {clock : Clock Purpose} {after : List Task} :
      s.Strikes task handle clock after → s.clock.alarms[handle]?.bind Alarm.heard = none →
      TakesUp s task (.aside { s with clock } after)
  /-- What is heard of an alarm comes too late. -/
  | late {task : Task} {handle : Nat} {clock : Clock Purpose} {after : List Task} {x : Purpose} :
      s.Strikes task handle clock after → s.clock.alarms[handle]?.bind Alarm.heard = some x →
      TakesUp s task (.aside ((s.withHeard clock x).record [.notice (lateNotice x)]) after)
  | advance {task : Task} {handle : Nat} {clock : Clock Purpose} {after : List Task}
      {number : Nat} {order : Advance} : s.Strikes task handle clock after →
      s.clock.alarms[handle]?.bind Alarm.heard = some (.advance number order) →
      order.generation = s.round.generation →
      TakesUp s task (.event (s.withHeard clock (.advance number order)) (.advance order) after)
  | tick {task : Task} {handle : Nat} {clock : Clock Purpose} {after : List Task} :
      s.Strikes task handle clock after →
      s.clock.alarms[handle]?.bind Alarm.heard = some (.tick s.round.generation) →
      TakesUp s task (.event { s with clock } (.tick s.round.generation) after)
  /-- An event that was held up goes on. -/
  | conclude (outcome : Except Fault Transition) (entries : List Entry) :
      TakesUp s (.conclude outcome entries) (.rest s outcome entries)

theorem Strikes.sounds {s : Sitting} {task : Task} {handle : Nat} {clock : Clock Purpose}
    {after : List Task} (h : s.Strikes task handle clock after) : s.clock.Sounds handle clock := by
  cases h with
  | inTurn _ => exact .inTurn _
  | outOfTurn _ => exact .outOfTurn

theorem Strikes.takesUp {s : Sitting} {task : Task} {handle : Nat} {clock : Clock Purpose}
    {after : List Task} (h : s.Strikes task handle clock after) :
    s.TakesUp task (s.hear after (clock, s.clock.alarms[handle]?.bind Alarm.heard)) := by
  cases hx : s.clock.alarms[handle]?.bind Alarm.heard with
  | none => exact .unheard h hx
  | some x =>
    rw [hear]
    rcases deliver_eq s clock after x with heq | ⟨number, order, rfl, hgen, heq⟩ | ⟨rfl, heq⟩
    · rw [heq]
      exact .late h hx
    · rw [heq]
      exact .advance h hx hgen
    · rw [heq]
      exact .tick h hx

theorem present_takesUp (s : Sitting) (name : String) (copied : Bool) :
    s.TakesUp (.move (.present name copied)) (s.make (.present name copied)) := by
  cases copied with
  | false =>
    simp only [make, present]
    split
    · exact .passedOver (Nat.le_refl _)
    · rename_i h
      rw [not_or] at h
      exact .sheet (by simpa using h.1) h.2
  | true =>
    simp only [make, present]
    split
    · exact .passedOver (Nat.le_succ _)
    · rename_i h
      rw [not_or] at h
      exact .copy (by simpa using h.1)

/-- **A task comes to one of these things only**, before any event reaches the round. -/
theorem intake_takesUp (s : Sitting) (task : Task) : s.TakesUp task (s.intake task) := by
  cases task with
  | move m =>
    cases m with
    | present name copied => exact present_takesUp s name copied
    | extend name problem => exact .extend
    | submit id answer =>
      simp only [intake, make]
      split
      · rename_i h
        exact .submit h
      · rename_i h
        exact .refused (by simpa using h)
    | back => exact .back
    | forward => exact .forward
    | finish => exact .finish
    | retry => exact .retry
    | dispose =>
      simp only [intake, make]
      split
      · rename_i h
        exact .disposed h
      · rename_i h
        exact .dispose (by simpa using h)
    | enable value => exact .enable value
    | wait milliseconds => exact .wait milliseconds
    | giveUp message => exact .giveUp message
  | announce => exact .announce
  | retire => exact .retire
  | elapse target =>
    simp only [intake, elapse]
    split
    · rename_i h
      exact .arrive h
    · rename_i handle due h
      have hring : s.clock.ring handle due =
          ((s.clock.ring handle due).1, s.clock.alarms[handle]?.bind Alarm.heard) := by
        rw [← Clock.ring_heard s.clock handle due]
      rw [hring]
      exact (Strikes.inTurn h).takesUp
  | ring handle => exact (Strikes.outOfTurn handle).takesUp
  | conclude outcome entries => exact .conclude outcome entries

variable {setup} {s s' : Sitting} {task : Task} {rest after first : List Task} {e : Event}

/-- What a task leaves alone before its event reaches the round. -/
theorem TakesUp.taken_of_event (h : s.TakesUp task (.event s' e after)) :
    s.Taken s' ∧ s'.journal = s.journal ∧ s'.disposed = s.disposed := by
  cases h with
  | sheet _ _ => exact ⟨.desk (fun _ _ hs => nomatch hs) id (.inl rfl), rfl, rfl⟩
  | copy _ =>
    refine ⟨.desk (fun _ serial hs => ?_) id (.inl rfl), rfl, rfl⟩
    cases hs
    exact Nat.lt_succ_self _
  | submit _ => exact ⟨.refl s, rfl, rfl⟩
  | back => exact ⟨.refl s, rfl, rfl⟩
  | forward => exact ⟨.refl s, rfl, rfl⟩
  | finish => exact ⟨.refl s, rfl, rfl⟩
  | retry => exact ⟨.refl s, rfl, rfl⟩
  | dispose _ => exact ⟨.refl s, rfl, rfl⟩
  | advance hs hx _ => exact ⟨.heard hs.sounds hx, rfl, rfl⟩
  | tick hs hx => exact ⟨.heard hs.sounds hx, rfl, rfl⟩

/-- A task that brings no event leaves the round alone, and only the end of the sitting ends it. -/
theorem TakesUp.taken_of_aside (h : s.TakesUp task (.aside s' after)) :
    s.Taken s' ∧ (task ≠ .retire → s'.disposed = s.disposed) := by
  cases h with
  | passedOver hle =>
    refine ⟨.desk (fun hm serial hs => ?_) id (.inl rfl), fun _ => rfl⟩
    exact Nat.lt_of_lt_of_le (hm serial hs) hle
  | extend => exact ⟨.desk id id (.inl rfl), fun _ => rfl⟩
  | refused _ => exact ⟨.refl s, fun _ => rfl⟩
  | disposed _ => exact ⟨.refl s, fun _ => rfl⟩
  | enable value => exact ⟨.desk id id (.inl rfl), fun _ => rfl⟩
  | wait milliseconds => exact ⟨.refl s, fun _ => rfl⟩
  | announce => exact ⟨.desk id id (.inr rfl), fun _ => rfl⟩
  | retire => exact ⟨.desk id (fun _ => rfl) (.inl rfl), fun h => absurd rfl h⟩
  | arrive _ => exact ⟨.time, fun _ => rfl⟩
  | unheard hs hx => exact ⟨.unheard hs.sounds hx, fun _ => rfl⟩
  | @late _ _ _ _ x hs hx =>
    refine ⟨.heard hs.sounds hx, fun _ => ?_⟩
    cases x <;> rfl

/-! ## The calls of the listeners -/

/-- The calls of the listeners, with the notices of the ends of rounds, the latest first. -/
def calls (s : Sitting) : List Entry := s.journal.filter Entry.isCall

theorem calls_eq_of_journal (h : s'.journal = s.journal) : s'.calls = s.calls := by
  rw [calls, h, calls]

theorem calls_record (s : Sitting) (entries : List Entry) :
    (s.record entries).calls = (entries.filter Entry.isCall).reverse ++ s.calls := by
  simp [calls, record]

theorem calls_record_of_none {entries : List Entry}
    (h : ∀ entry ∈ entries, entry.isCall = false) (s : Sitting) :
    (s.record entries).calls = s.calls := by
  have hnone : entries.filter Entry.isCall = [] :=
    List.filter_eq_nil_iff.mpr fun entry hmem => by simp [h entry hmem]
  rw [calls_record, hnone]
  rfl

theorem calls_record_entries (s : Sitting) (r : Round) (e : Event) :
    (s.record (r.next setup.rules setup.wording e).entries).calls = s.calls :=
  calls_record_of_none (fun _ => Round.isCall_of_mem_entries) s

/-- Of the tasks that bring no event, only an announcement calls a listener. -/
theorem TakesUp.calls_of_aside (h : s.TakesUp task (.aside s' after)) (hne : task ≠ .announce) :
    s'.calls = s.calls := by
  cases h with
  | announce => exact absurd rfl hne
  | @late _ _ _ _ x _ _ => cases x <;> rfl
  | passedOver _ => rfl
  | extend => rfl
  | refused _ => rfl
  | disposed _ => rfl
  | enable value => rfl
  | wait milliseconds => rfl
  | retire => rfl
  | arrive _ => rfl
  | unheard _ _ => rfl

theorem calls_announce (s : Sitting) : s.announce.1.calls = .shown s.round :: s.calls := by
  show (Entry.shown s.round :: s.journal).filter Entry.isCall = _
  rw [List.filter_cons_of_pos rfl, calls]

variable (setup)

/-- The moves of the listener for results, if it is called. -/
def heeded (s : Sitting) (report : Option Report) : List Move :=
  if setup.tellsResults ∧ report.isSome then offered s.onResult else []

/-- A listener who has nothing left to do makes no moves. -/
theorem heeded_eq_nil {s : Sitting} (h : s.onResult = []) (report : Option Report) :
    s.heeded setup report = [] := by
  simp [heeded, offered, h]

/-- The sitting once an event has moved its round, and the notice and the report are out. -/
def afterMove (s : Sitting) (round : Round) (orders : List TimerOrder) (report : Option Report) :
    Sitting :=
  { s.moved setup round orders with
    journal := setup.calls report ++ s.journal
    onResult := if setup.tellsResults ∧ report.isSome then s.onResult.tail else s.onResult }

/-- **What a moving event leaves behind**, with what is on record. -/
theorem effect_moved_eq (s : Sitting) (round : Round) (orders : List TimerOrder)
    (report : Option Report) :
    s.effect setup (.ok (.moved round orders report)) =
      .done (s.afterMove setup round orders report)
        ((s.heeded setup report).map .move ++ setup.announcement) := by
  obtain ⟨c, p, n, k, hm⟩ := moved_frame setup s round orders
  have hfold : orders.foldl (carryOut setup) { s with round } = s.moved setup round orders := rfl
  simp only [effect, settle, hfold, heeded, afterMove, Setup.announcement]
  rw [hm]
  cases report with
  | none => simp [Setup.calls]
  | some report =>
    cases ht : setup.tellsResults with
    | true => simp [handOut, ht, Setup.calls, record, Report.notice, offered]
    | false => simp [handOut, ht, Setup.calls, record, Report.notice]

variable {setup}

@[simp] theorem afterMove_round (s : Sitting) (round : Round) (orders : List TimerOrder)
    (report : Option Report) : (s.afterMove setup round orders report).round = round := by
  obtain ⟨c, p, n, k, hm⟩ := moved_frame setup s round orders
  rw [afterMove, hm]

@[simp] theorem afterMove_disposed (s : Sitting) (round : Round) (orders : List TimerOrder)
    (report : Option Report) :
    (s.afterMove setup round orders report).disposed = s.disposed := by
  obtain ⟨c, p, n, k, hm⟩ := moved_frame setup s round orders
  rw [afterMove, hm]

/-- What is on record has no influence on the alarms. -/
@[simp] theorem afterMove_clock (s : Sitting) (entries : List Entry) (round : Round)
    (orders : List TimerOrder) (report : Option Report) :
    ((s.record entries).afterMove setup round orders report).clock =
      (s.moved setup round orders).clock := by
  show ((s.record entries).moved setup round orders).clock = _
  rw [record, moved_withJournal]

theorem filter_isCall_calls (setup : Setup) (report : Option Report) :
    (setup.calls report).filter Entry.isCall = setup.calls report := by
  cases report with
  | none => rfl
  | some report =>
    cases ht : setup.tellsResults with
    | true =>
      rw [Setup.calls, ht]
      rfl
    | false =>
      rw [Setup.calls, ht]
      rfl

theorem calls_afterMove (s : Sitting) (round : Round) (orders : List TimerOrder)
    (report : Option Report) :
    (s.afterMove setup round orders report).calls = setup.calls report ++ s.calls := by
  show (setup.calls report ++ s.journal).filter Entry.isCall = _
  rw [List.filter_append, filter_isCall_calls, calls]

/-! ## What doing a task does to the round -/

variable (setup)

/-- The round that an event puts in place, if it moves the one there is. -/
def placed : Except Fault Transition → Option Round
  | .ok (.moved round _ _) => some round
  | _ => none

/-- The round that a task puts in place, if it brings an event that moves the one there is. -/
def assigned (s : Sitting) (task : Task) : Option Round :=
  match s.intake task with
  | .event s' e _ =>
    if s'.disposed then none else placed (s'.round.next setup.rules setup.wording e).outcome
  | _ => none

/-- The sitting after a task that neither moves the round nor calls a listener. -/
structure Still (s : Sitting) (task : Task) (s' : Sitting) : Prop where
  ne_announce : task ≠ .announce
  taken : s.Taken s'
  disposed_eq : task ≠ .retire → s'.disposed = s.disposed
  calls_eq : s'.calls = s.calls
  assigned_eq : s.assigned setup task = none

/-- What doing a task does to the round, where the wording asks nothing back: nothing, or an event
moves it. -/
inductive Turns (s : Sitting) (task : Task) : Verdict Sitting Task Fault → Prop
  | announced : task = .announce → Turns s task (.done s.announce.1 s.announce.2)
  | still {s' : Sitting} {after : List Task} : s.Still setup task s' →
      (∀ t ∈ after, ∃ target, t = .elapse target) → Turns s task (.done s' after)
  | moved {s' : Sitting} {e : Event} {after : List Task} {round : Round}
      {orders : List TimerOrder} {report : Option Report} : s.intake task = .event s' e after →
      s.disposed = false →
      (s.round.next setup.rules setup.wording e).outcome = .ok (.moved round orders report) →
      Turns s task (.done
        ((s'.record (s.round.next setup.rules setup.wording e).entries).afterMove setup round
          orders report)
        ((s'.heeded setup report).map .move ++ setup.announcement ++ after))
  | failed {s' : Sitting} {fault : Fault} : s.Still setup task s' →
      (∃ message, task = .move (.giveUp message)) ∨ (∃ t e after, s.intake task = .event t e after ∧
        (s.round.next setup.rules setup.wording e).outcome = .error fault) →
      Turns s task (.failed s' fault)

variable {setup}

theorem takesUp_of_intake {i : Intake} (h : s.intake task = i) : s.TakesUp task i :=
  h ▸ s.intake_takesUp task

theorem Strikes.elapse_of_mem {handle : Nat} {clock : Clock Purpose}
    (h : s.Strikes task handle clock after) : ∀ t ∈ after, ∃ target, t = .elapse target := by
  intro t ht
  cases h with
  | inTurn _ => exact ⟨_, List.mem_singleton.mp ht⟩
  | outOfTurn _ => cases ht

/-- Time is all that goes on after a task that brings no event. -/
theorem TakesUp.elapse_of_aside (h : s.TakesUp task (.aside s' after)) (hne : task ≠ .announce) :
    ∀ t ∈ after, ∃ target, t = .elapse target := by
  intro t ht
  cases h with
  | announce => exact absurd rfl hne
  | wait milliseconds => exact ⟨_, List.mem_singleton.mp ht⟩
  | unheard hs _ => exact hs.elapse_of_mem t ht
  | late hs _ => exact hs.elapse_of_mem t ht
  | passedOver _ => cases ht
  | extend => cases ht
  | refused _ => cases ht
  | disposed _ => cases ht
  | enable value => cases ht
  | retire => cases ht
  | arrive _ => cases ht

/-- Time is all that goes on after an event, unless it is the end of the sitting. -/
theorem TakesUp.elapse_of_event (h : s.TakesUp task (.event s' e after)) :
    (task = .move .dispose ∧ e = .teardown ∧ after = [.retire] ∧ s.disposed = false) ∨
      (e ≠ .teardown ∧ ∀ t ∈ after, ∃ target, t = .elapse target) := by
  have nothing : ∀ t ∈ ([] : List Task), ∃ target, t = .elapse target :=
    fun t ht => absurd ht List.not_mem_nil
  cases h with
  | dispose hd => exact .inl ⟨rfl, rfl, rfl, hd⟩
  | advance hs _ _ => exact .inr ⟨nofun, hs.elapse_of_mem⟩
  | tick hs _ => exact .inr ⟨nofun, hs.elapse_of_mem⟩
  | sheet _ _ => exact .inr ⟨nofun, nothing⟩
  | copy _ => exact .inr ⟨nofun, nothing⟩
  | submit _ => exact .inr ⟨nofun, nothing⟩
  | back => exact .inr ⟨nofun, nothing⟩
  | forward => exact .inr ⟨nofun, nothing⟩
  | finish => exact .inr ⟨nofun, nothing⟩
  | retry => exact .inr ⟨nofun, nothing⟩

theorem TakesUp.ne_finish_some (h : s.TakesUp task (.event s' e after)) (problems : List Problem) :
    e ≠ .finish (some problems) := by
  cases h <;> nofun

theorem TakesUp.ne_announce_of_event (h : s.TakesUp task (.event s' e after)) :
    task ≠ .announce := by
  rintro rfl
  cases h with
  | advance hs _ _ => cases hs
  | tick hs _ => cases hs

theorem assigned_of_event (hi : s.intake task = .event s' e after) (hd : s.disposed = false) :
    s.assigned setup task = placed (s.round.next setup.rules setup.wording e).outcome := by
  obtain ⟨ht, -, hdisposed⟩ := (takesUp_of_intake hi).taken_of_event
  rw [assigned, hi]
  simp only [hdisposed.trans hd, ht.spared.round_eq, Bool.false_eq_true, if_false]

/-- What an event leaves behind that moves the round. -/
theorem perform_of_moved {round : Round} {orders : List TimerOrder} {report : Option Report}
    (hi : s.intake task = .event s' e after) (hsilent : s.onWording = [])
    (hd : s.disposed = false)
    (ho : (s.round.next setup.rules setup.wording e).outcome = .ok (.moved round orders report)) :
    perform setup task s = .done
      ((s'.record (s.round.next setup.rules setup.wording e).entries).afterMove setup round
        orders report)
      ((s'.heeded setup report).map .move ++ setup.announcement ++ after) := by
  obtain ⟨ht, -, hdisposed⟩ := (takesUp_of_intake hi).taken_of_event
  rw [perform, hi, pursue, react_of_silent setup (ht.spared.onWording_eq.trans hsilent)
    (hdisposed.trans hd), ht.spared.round_eq, ho, effect_moved_eq]
  rfl

/-- **Where the wording asks nothing back, doing a task comes to one of these things only.** -/
theorem Quiet.turns (h : Quiet s (task :: rest)) : s.Turns setup task (perform setup task s) := by
  unfold perform
  cases hi : s.intake task with
  | aside s' after =>
    have htakes := takesUp_of_intake hi
    by_cases hne : task = .announce
    · subst hne
      cases hi
      exact .announced rfl
    · refine .still ⟨hne, htakes.taken_of_aside.1, htakes.taken_of_aside.2,
        htakes.calls_of_aside hne, ?_⟩ (htakes.elapse_of_aside hne)
      rw [assigned, hi]
  | failed s' fault =>
    cases takesUp_of_intake hi
    refine .failed ⟨nofun, .refl s, fun _ => rfl, rfl, ?_⟩ (.inl ⟨_, rfl⟩)
    rw [assigned, hi]
  | rest s' outcome entries =>
    cases takesUp_of_intake hi
    exact absurd List.mem_cons_self (h.not_held _ _)
  | event s' e after =>
    have htakes := takesUp_of_intake hi
    have hne := htakes.ne_announce_of_event
    obtain ⟨ht, hjournal, hdisposed⟩ := htakes.taken_of_event
    have hsilent : s'.onWording = [] := ht.spared.onWording_eq.trans h.silent
    have hround := ht.spared.round_eq
    cases hd : s.disposed with
    | true =>
      -- nothing reaches the round once the sitting is over
      have hover : s'.disposed = true := hdisposed.trans hd
      rw [pursue, react, if_pos hover]
      refine .still ⟨hne, ht, fun _ => hdisposed, calls_eq_of_journal hjournal, ?_⟩ ?_
      · rw [assigned, hi]
        exact if_pos hover
      · rcases htakes.elapse_of_event with ⟨-, -, -, hopen⟩ | ⟨-, hafter⟩
        · rw [hd] at hopen
          cases hopen
        · exact hafter
    | false =>
      have hopen : s'.disposed = false := hdisposed.trans hd
      have hcalls : (s'.record (s.round.next setup.rules setup.wording e).entries).calls =
          s.calls := (calls_record_entries s' s.round e).trans (calls_eq_of_journal hjournal)
      cases ho : (s.round.next setup.rules setup.wording e).outcome with
      | error fault =>
        rw [pursue, react_of_silent setup hsilent hopen, hround, ho]
        refine .failed ⟨hne, ht.withJournal _, fun _ => hdisposed, hcalls, ?_⟩
          (.inr ⟨s', e, after, hi, ho⟩)
        rw [assigned_of_event hi hd, ho]
        rfl
      | ok transition =>
        cases transition with
        | ignored =>
          rw [pursue, react_of_silent setup hsilent hopen, hround, ho]
          refine .still ⟨hne, ht.withJournal _, fun _ => hdisposed, hcalls, ?_⟩ ?_
          · rw [assigned_of_event hi hd, ho]
            rfl
          · rcases htakes.elapse_of_event with ⟨-, rfl, -, -⟩ | ⟨-, hafter⟩
            · cases ho
            · exact hafter
        | moved round orders report =>
          have hmoved := perform_of_moved hi h.silent hd ho
          rw [perform, hi] at hmoved
          rw [hmoved]
          exact .moved hi hd ho

/-- A step of an agenda does nothing, or the first task. -/
theorem Quiet.step_turns {a : Agenda Sitting Task Fault} (setup : Setup)
    (h : Quiet a.state a.tasks) :
    (a.tasks = [] ∧ a.step (perform setup) = a) ∨
      ∃ task rest v, a.tasks = task :: rest ∧ perform setup task a.state = v ∧
        a.step (perform setup) = v.agenda rest ∧ a.state.Turns setup task v := by
  obtain ⟨s, tasks, fault⟩ := a
  cases tasks with
  | nil => exact .inl ⟨rfl, rfl⟩
  | cons task rest =>
    exact .inr ⟨task, rest, _, rfl, rfl, Agenda.step_cons s task rest fault, h.turns⟩

end Sitting

end TimedQuiz
