import TimedQuiz.Proofs.Sitting.Silent
import TimedQuiz.Proofs.Sitting.Termination
import TimedQuiz.Proofs.Sitting.Timers

/-!
# How time passes in a sitting

Time moves only while a wait is under way, alarm by alarm. A wait that is made inside a call of a
listener is over before the one around it goes on; if it ends later than that one, the clock is put
back in the end.

* `Passage` — what a task does to the clock before an event takes effect;
* `Renews` — what orders do to the clock: some alarms stop, and others are set;
* `targets` — the moments that time is on its way to, the nearest first;
* `Onward` — the next task does not put the clock back;
* `Patient` — a wait that is about to be made ends no later than the one around it.

Main statements: `perform_passage` — doing a task does no more than that to the clock;
`Reachable.onward` — patient waits never put the clock back; `Reachable.due_le` — an alarm that
rings once is never further away than the delay.
-/

namespace TimedQuiz

/-- The interval at which alarms are set. -/
def Setup.interval (setup : Setup) : Recurrence → Int
  | .once => setup.rules.advanceDelay
  | .repeating => setup.rules.tickInterval

namespace Alarm

variable {α : Type} {a : Alarm α}

/-- An alarm that runs although it was given up had been given up before. -/
theorem cancel_eq_of_running (h : a.cancel.running = true) : a.cancel = a := by
  unfold cancel at h ⊢
  split at h
  · cases h
  · rename_i harmed
    exact if_neg harmed

/-- An alarm that still runs after it has rung out of turn is as it was. -/
theorem signal_eq_of_running (h : a.signal.running = true) : a.signal = a := by
  unfold signal at h ⊢
  split at h
  · exact cancel_eq_of_running h
  · rfl

/-- An alarm that still runs after it has rung in its turn is due again an interval later. -/
theorem elapse_signal_of_running (h : a.elapse.signal.running = true) :
    a.recurrence = .repeating ∧ a.elapse.signal = { a with due := a.due + a.interval } := by
  cases hrec : a.recurrence with
  | repeating => exact ⟨rfl, by simp only [elapse, signal, hrec]⟩
  | once =>
    have hrun := running_of_signal h
    simp [elapse, hrec] at hrun

end Alarm

namespace Sitting

variable {setup : Setup} {s s' : Sitting} {task : Task} {rest first after : List Task}
  {past : List (Agenda Sitting Task Fault)} {a : Agenda Sitting Task Fault}

/-! ## What a task does to the clock -/

/-- The moments that time is on its way to, the nearest first. -/
def targets (tasks : List Task) : List Int :=
  tasks.filterMap fun
    | .elapse target => some target
    | _ => none

theorem targets_append (tasks more : List Task) :
    targets (tasks ++ more) = targets tasks ++ targets more :=
  List.filterMap_append

@[simp] theorem targets_map_move (moves : List Move) : targets (moves.map .move) = [] := by
  refine List.filterMap_eq_nil_iff.mpr fun t ht => ?_
  obtain ⟨m, -, rfl⟩ := List.mem_map.mp ht
  rfl

@[simp] theorem targets_announcement (setup : Setup) : targets setup.announcement = [] := by
  refine List.filterMap_eq_nil_iff.mpr fun t ht => ?_
  rw [Setup.eq_announce_of_mem ht]

theorem targets_cons_of_ne (h : ∀ target, task ≠ .elapse target) :
    targets (task :: rest) = targets rest := by
  cases task with
  | elapse target => exact absurd rfl (h target)
  | move m => rfl
  | announce => rfl
  | retire => rfl
  | ring handle => rfl
  | conclude outcome entries => rfl

/-- What a task does to the clock before an event takes effect, with the moments that time is on its
way to afterwards. -/
inductive Passage (s : Sitting) : Task → Clock Purpose → List Int → Prop
  | still {task : Task} : (∀ target, task ≠ .elapse target) → Passage s task s.clock []
  | setsOut (milliseconds : Int) :
      Passage s (.move (.wait milliseconds)) s.clock [s.clock.now + milliseconds]
  | arrives {target : Int} : s.clock.earliest? target = none →
      Passage s (.elapse target) { s.clock with now := target } []
  | rings {target due : Int} {handle : Nat} :
      s.clock.earliest? target = some (handle, due) →
      Passage s (.elapse target) (s.clock.ring handle due).1 [target]
  | struck (handle : Nat) : Passage s (.ring handle) (s.clock.signal handle).1 []

theorem Strikes.passage {handle : Nat} {clock : Clock Purpose}
    (h : s.Strikes task handle clock after) : s.Passage task clock (targets after) := by
  cases h with
  | inTurn hnext => exact .rings hnext
  | outOfTurn handle => exact .struck handle

theorem TakesUp.passage_of_event {e : Event} (h : s.TakesUp task (.event s' e after)) :
    s.Passage task s'.clock (targets after) := by
  cases h with
  | advance hs _ _ => exact hs.passage
  | tick hs _ => exact hs.passage
  | sheet _ _ => exact .still nofun
  | copy _ => exact .still nofun
  | submit _ => exact .still nofun
  | back => exact .still nofun
  | forward => exact .still nofun
  | finish => exact .still nofun
  | retry => exact .still nofun
  | dispose _ => exact .still nofun

theorem TakesUp.passage_of_aside (h : s.TakesUp task (.aside s' after)) :
    s.Passage task s'.clock (targets after) := by
  cases h with
  | announce =>
    have hnone : targets s.announce.2 = [] := targets_map_move _
    rw [hnone]
    exact .still nofun
  | wait milliseconds => exact .setsOut milliseconds
  | arrive hnone => exact .arrives hnone
  | unheard hs _ => exact hs.passage
  | @late _ _ _ _ x hs _ => cases x <;> exact hs.passage
  | passedOver _ => exact .still nofun
  | extend => exact .still nofun
  | refused _ => exact .still nofun
  | disposed _ => exact .still nofun
  | enable value => exact .still nofun
  | retire => exact .still nofun

/-! ## What orders do to the clock -/

variable (setup) in
/-- Time stands still, and an alarm that runs ran before or has just been set. -/
structure Renews (c c' : Clock Purpose) : Prop where
  now_eq : c'.now = c.now
  running_cases : ∀ (i : Nat) (a : Alarm Purpose), c'.alarms[i]? = some a → a.running = true →
    c.alarms[i]? = some a ∨ a.due = c.now + setup.interval a.recurrence

theorem Renews.refl (c : Clock Purpose) : Renews setup c c := ⟨rfl, fun _ _ h _ => .inl h⟩

theorem Renews.trans {c c' c'' : Clock Purpose} (h : Renews setup c c')
    (h' : Renews setup c' c'') : Renews setup c c'' := by
  refine ⟨h'.now_eq.trans h.now_eq, fun i a ha hrun => ?_⟩
  rcases h'.running_cases i a ha hrun with ha | hdue
  · exact h.running_cases i a ha hrun
  · exact .inr (h.now_eq ▸ hdue)

theorem Renews.of_muted {c c' : Clock Purpose} (hm : c.Muted c') : Renews setup c c' := by
  refine ⟨hm.now_eq, fun i a ha hrun => .inl ?_⟩
  rcases hm.alarm_cases i with heq | heq
  · exact heq ▸ ha
  · obtain ⟨b, hb, rfl⟩ := Option.map_eq_some_iff.mp (heq ▸ ha)
    rw [Alarm.cancel_eq_of_running hrun]
    exact hb

theorem Renews.of_set (c : Clock Purpose) (rec : Recurrence) (x : Purpose) :
    Renews setup c (c.set rec (setup.interval rec) x) := by
  refine ⟨rfl, fun i a ha _ => ?_⟩
  rcases Clock.getElem?_set_eq_some_iff.mp ha with ha | ⟨-, rfl⟩
  · exact .inl ha
  · exact .inr rfl

theorem renews_carryOut (s : Sitting) (order : TimerOrder) :
    Renews setup s.clock (s.carryOut setup order).clock := by
  cases order with
  | scheduleAdvance order => exact .of_set s.clock .once _
  | cancelAdvances =>
    obtain ⟨clock, hs, hg⟩ := cancelAdvances_frame setup s
    rw [carryOut, hs]
    exact .of_muted hg.1
  | startTicker generation =>
    obtain ⟨clock, hs, hg⟩ := stopTicker_frame setup s
    simp only [carryOut, startTicker, hs]
    exact (Renews.of_muted hg.1).trans (.of_set clock .repeating _)
  | stopTicker =>
    obtain ⟨clock, hs, hg⟩ := stopTicker_frame setup s
    rw [carryOut, hs]
    exact .of_muted hg.1

theorem renews_moved (s : Sitting) (round : Round) (orders : List TimerOrder) :
    Renews setup s.clock (s.moved setup round orders).clock := by
  unfold moved
  suffices ∀ t : Sitting, Renews setup t.clock (orders.foldl (carryOut setup) t).clock from
    this { s with round }
  -- by induction on the orders
  induction orders with
  | nil => exact fun t => .refl t.clock
  | cons order orders ih => exact fun t => (renews_carryOut t order).trans (ih _)

theorem renews_effect (setup : Setup) (s : Sitting) (outcome : Except Fault Transition) :
    Renews setup s.clock ((s.effect setup outcome).agenda []).state.clock ∧
      targets ((s.effect setup outcome).agenda []).tasks = [] := by
  cases outcome with
  | error fault => exact ⟨.refl _, rfl⟩
  | ok transition =>
    cases transition with
    | ignored => exact ⟨.refl _, rfl⟩
    | moved round orders report =>
      obtain ⟨journal, onResult, moves, heffect, -⟩ := effect_moved setup s round orders report
      rw [heffect]
      refine ⟨renews_moved s round orders, ?_⟩
      show targets (moves.map .move ++ _ ++ []) = []
      rw [List.append_nil, targets_append, targets_map_move]
      split <;> rfl

theorem renews_conclude (setup : Setup) (s : Sitting) (outcome : Except Fault Transition)
    (entries : List Entry) :
    Renews setup s.clock ((s.conclude setup outcome entries).agenda []).state.clock ∧
      targets ((s.conclude setup outcome entries).agenda []).tasks = [] := by
  rcases conclude_cases setup s outcome entries with ⟨journal, heq⟩ | ⟨journal, before, key, rest,
    moves, later, -, -, heq⟩
  · rw [heq]
    exact renews_effect setup { s with journal } outcome
  · rw [heq]
    refine ⟨.refl _, ?_⟩
    show targets (moves.map .move ++ [.conclude outcome rest] ++ []) = []
    rw [List.append_nil, targets_append, targets_map_move]
    rfl

theorem renews_react (setup : Setup) (s : Sitting) (e : Event) :
    Renews setup s.clock ((s.react setup e).agenda []).state.clock ∧
      targets ((s.react setup e).agenda []).tasks = [] := by
  unfold react
  split
  · exact ⟨.refl _, rfl⟩
  · exact renews_conclude ..

/-- **All that doing a task does to the clock**: what it does before an event takes effect, and then
what the orders of the event do. Time is on its way to no other moments afterwards. -/
theorem perform_passage (setup : Setup) (s : Sitting) (task : Task) (rest : List Task) :
    ∃ clock moments, s.Passage task clock moments ∧
      Renews setup clock ((perform setup task s).agenda rest).state.clock ∧
      (targets ((perform setup task s).agenda rest).tasks).Sublist (moments ++ targets rest) := by
  have htakes := intake_takesUp s task
  unfold perform
  cases hi : s.intake task with
  | failed t fault =>
    rw [hi] at htakes
    cases htakes
    exact ⟨_, [], .still nofun, .refl _, List.nil_sublist _⟩
  | aside t after =>
    rw [hi] at htakes
    refine ⟨_, _, htakes.passage_of_aside, .refl _, ?_⟩
    show (targets (after ++ rest)).Sublist _
    rw [targets_append]
  | rest t outcome entries =>
    rw [hi] at htakes
    cases htakes
    obtain ⟨hrenews, hnone⟩ := renews_conclude setup s outcome entries
    refine ⟨_, [], .still nofun, ?_⟩
    cases hv : s.conclude setup outcome entries with
    | failed u fault =>
      rw [hv] at hrenews
      rw [pursue, hv]
      exact ⟨hrenews, List.nil_sublist _⟩
    | done u first =>
      rw [hv] at hrenews hnone
      rw [pursue, hv]
      refine ⟨hrenews, ?_⟩
      replace hnone : targets (first ++ []) = [] := hnone
      show (targets (first ++ rest)).Sublist _
      rw [targets_append, ← List.append_nil first, hnone]
  | event t e after =>
    rw [hi] at htakes
    obtain ⟨hrenews, hnone⟩ := renews_react setup t e
    refine ⟨_, _, htakes.passage_of_event, ?_⟩
    cases hv : t.react setup e with
    | failed u fault =>
      rw [hv] at hrenews
      rw [pursue, hv]
      exact ⟨hrenews, List.nil_sublist _⟩
    | done u first =>
      rw [hv] at hrenews hnone
      rw [pursue, hv]
      refine ⟨hrenews, ?_⟩
      replace hnone : targets (first ++ []) = [] := hnone
      rw [List.append_nil] at hnone
      show (targets (first ++ after ++ rest)).Sublist _
      rw [targets_append, targets_append, hnone, List.nil_append]

/-! ## The direction of time -/

variable (setup) in
/-- The next task does not put the clock back. -/
def Onward (a : Agenda Sitting Task Fault) : Prop :=
  a.state.clock.now ≤ (a.step (perform setup)).state.clock.now

instance (a : Agenda Sitting Task Fault) : Decidable (Onward setup a) :=
  inferInstanceAs (Decidable (_ ≤ _))

/-- The wait that is about to be made, if one is, ends no earlier than now and no later than the
wait inside which it is made. -/
def Patient (a : Agenda Sitting Task Fault) : Prop :=
  ∀ milliseconds rest, a.tasks = .move (.wait milliseconds) :: rest →
    0 ≤ milliseconds ∧ ∀ target ∈ targets rest, a.state.clock.now + milliseconds ≤ target

/-- Time is on its way to no moment that is over, and no alarm that runs should have rung. -/
structure Ahead (s : Sitting) (tasks : List Task) : Prop where
  beats : s.clock.Beats
  to_come : (s.clock.now :: targets tasks).Pairwise (· ≤ ·)
  not_over : ∀ (i : Nat) (a : Alarm Purpose), s.clock.alarms[i]? = some a → a.running = true →
    s.clock.now ≤ a.due

namespace Ahead

theorem opening (sheets : Table (List Problem)) (onResult onChange onWording : List (List Move)) :
    Ahead (Sitting.opening sheets onResult onChange onWording) [] := by
  refine ⟨?_, List.pairwise_singleton _ _, ?_⟩
  · exact fun a ha => absurd ha List.not_mem_nil
  · exact fun i a ha => nomatch ha

variable {clock : Clock Purpose} {moments : List Int}

/-- What a task does to the clock before an event takes effect does not put it back. -/
theorem passage (h : Ahead s (task :: rest)) (hp : s.Passage task clock moments)
    (hwait : ∀ milliseconds, task = .move (.wait milliseconds) →
      0 ≤ milliseconds ∧ ∀ target ∈ targets rest, s.clock.now + milliseconds ≤ target) :
    s.clock.now ≤ clock.now ∧ (clock.now :: (moments ++ targets rest)).Pairwise (· ≤ ·) ∧
      ∀ (i : Nat) (a : Alarm Purpose), clock.alarms[i]? = some a → a.running = true →
        clock.now ≤ a.due := by
  have hcome := h.to_come
  cases hp with
  | still hne =>
    rw [targets_cons_of_ne hne] at hcome
    exact ⟨Int.le_refl _, hcome, h.not_over⟩
  | setsOut milliseconds =>
    obtain ⟨hms, hle⟩ := hwait milliseconds rfl
    replace hcome : (s.clock.now :: targets rest).Pairwise (· ≤ ·) := hcome
    obtain ⟨hnow, hrest⟩ := List.pairwise_cons.mp hcome
    refine ⟨Int.le_refl _, .cons (fun moment hmem => ?_) (.cons hle hrest), h.not_over⟩
    rcases List.mem_cons.mp hmem with rfl | hmem
    · omega
    · exact hnow moment hmem
  | @arrives target hnone =>
    replace hcome : (s.clock.now :: target :: targets rest).Pairwise (· ≤ ·) := hcome
    obtain ⟨hnow, hrest⟩ := List.pairwise_cons.mp hcome
    refine ⟨hnow target List.mem_cons_self, hrest, fun i a ha hrun => ?_⟩
    exact Int.le_of_lt (Clock.earliest?_eq_none_iff.mp hnone i a ha hrun)
  | @rings target due handle hnext =>
    obtain ⟨b, hb⟩ := Clock.earliest?_eq_some_iff.mp hnext
    replace hcome : (s.clock.now :: target :: targets rest).Pairwise (· ≤ ·) := hcome
    obtain ⟨-, hrest⟩ := List.pairwise_cons.mp hcome
    refine ⟨hb.due_eq ▸ h.not_over _ b hb.at_position hb.running,
      .cons (fun moment hmem => ?_) hrest, fun i a ha hrun => ?_⟩
    · rcases List.mem_cons.mp hmem with rfl | hmem
      · exact hb.due_le
      · exact Int.le_trans hb.due_le ((List.pairwise_cons.mp hrest).1 moment hmem)
    · -- the alarm that rings is due again later, and every other one is due no earlier
      rw [Clock.getElem?_ring] at ha
      split at ha
      · rename_i heq
        subst heq
        rw [hb.at_position] at ha
        cases ha
        obtain ⟨hrec, heq⟩ := Alarm.elapse_signal_of_running hrun
        have hbeat := h.beats b (List.mem_of_getElem? hb.at_position) hrec
        have hlater : b.elapse.signal.due = b.due + b.interval := by rw [heq]
        have hdue := hb.due_eq
        show due ≤ b.elapse.signal.due
        omega
      · rcases hb.first i a ha hrun with hlt | ⟨heq, -⟩
        · exact Int.le_of_lt hlt
        · exact Int.le_of_eq heq
  | struck handle =>
    refine ⟨Int.le_refl _, hcome, fun i a ha hrun => ?_⟩
    rw [Clock.getElem?_signal] at ha
    split at ha
    · obtain ⟨b, hb, rfl⟩ := Option.map_eq_some_iff.mp ha
      have hsame := Alarm.signal_eq_of_running hrun
      rw [hsame] at hrun ⊢
      exact h.not_over i b hb hrun
    · exact h.not_over i a ha hrun

theorem step (setup : Setup) (hint : 1 ≤ setup.rules.tickInterval)
    (hdelay : 0 ≤ setup.rules.advanceDelay) (h : Ahead a.state a.tasks) (hpatient : Patient a) :
    Onward setup a ∧
      Ahead (a.step (perform setup)).state (a.step (perform setup)).tasks := by
  obtain ⟨s, tasks, fault⟩ := a
  cases tasks with
  | nil => exact ⟨Int.le_refl _, h⟩
  | cons task rest =>
    obtain ⟨clock, moments, hp, hrenews, htargets⟩ := perform_passage setup s task rest
    obtain ⟨hnow, hcome, hover⟩ := h.passage hp fun milliseconds htask =>
      hpatient milliseconds rest (htask ▸ rfl)
    simp only [Onward, Agenda.step_cons]
    have hbeats : ((perform setup task s).agenda rest).state.clock.Beats := by
      cases hv : perform setup task s with
      | done s' first => exact beats_done h.beats hint (does_of_perform hv)
      | failed s' fault' => exact beats_failed h.beats (does_of_perform hv)
    refine ⟨hrenews.now_eq ▸ hnow, hbeats, ?_, fun i a ha hrun => ?_⟩
    · rw [hrenews.now_eq]
      exact hcome.sublist (htargets.cons_cons _)
    · rw [hrenews.now_eq]
      rcases hrenews.running_cases i a ha hrun with ha | hdue
      · exact hover i a ha hrun
      · have hlater : 0 ≤ setup.interval a.recurrence := by
          cases a.recurrence with
          | once => exact hdelay
          | repeating => exact Int.le_trans Int.one_nonneg hint
        omega

theorem call (h : Ahead s []) (houter : task.Outer) : Ahead s [task] := by
  refine { h with to_come := ?_ }
  cases houter with
  | move _ => exact h.to_come
  | ring _ => exact h.to_come

end Ahead

/-- **Patient waits never put the clock back.** -/
theorem Reachable.onward {opening : Sitting} (h : Reachable setup opening past a)
    (hint : 1 ≤ setup.rules.tickInterval) (hdelay : 0 ≤ setup.rules.advanceDelay)
    (hstart : Ahead opening []) (hpatient : ∀ b ∈ past, Patient b) :
    ∀ b ∈ past, Onward setup b := by
  suffices (∀ b ∈ past, Onward setup b) ∧ Ahead a.state a.tasks from this.1
  have idle : ∀ {b : Agenda Sitting Task Fault}, b.tasks = [] → Onward setup b := by
    intro b hover
    rw [Onward, Agenda.step_of_idle hover]
  refine h.guided (P := fun past s tasks => (∀ b ∈ past, Onward setup b) ∧ Ahead s tasks) hpatient
    ⟨fun b hb => absurd hb List.not_mem_nil, hstart⟩ ?_ ?_
  · rintro past b task hover ⟨hpast, hahead⟩ houter
    exact ⟨List.forall_mem_cons.mpr ⟨idle hover, hpast⟩, hahead.call houter⟩
  · rintro past b - hpatient ⟨hpast, hahead⟩
    obtain ⟨honward, hnext⟩ := hahead.step setup hint hdelay hpatient
    exact ⟨List.forall_mem_cons.mpr ⟨honward, hpast⟩, hnext⟩

/-! ## The alarms that ring once -/

/-- An alarm that still waits after a ringing is as it was. -/
theorem Passage.waits {clock : Clock Purpose} {moments : List Int} {i : Nat}
    {alarm : Alarm Purpose} (hp : s.Passage task clock moments)
    (ha : clock.alarms[i]? = some alarm) (hw : alarm.Waits) : s.clock.alarms[i]? = some alarm := by
  cases hp with
  | still _ => exact ha
  | setsOut _ => exact ha
  | arrives _ => exact ha
  | rings _ =>
    rw [Clock.getElem?_ring] at ha
    split at ha
    · obtain ⟨b, hb, rfl⟩ := Option.map_eq_some_iff.mp ha
      have hrec := (Alarm.elapse_signal_of_running hw.2).1
      have honce : b.recurrence = .once := by simpa using hw.1
      rw [hrec] at honce
      cases honce
    · exact ha
  | struck handle =>
    rw [Clock.getElem?_signal] at ha
    split at ha
    · obtain ⟨b, hb, rfl⟩ := Option.map_eq_some_iff.mp ha
      rw [hb, Alarm.signal_eq_of_running hw.2]
    · exact ha

/-- **An alarm that rings once is never further away than the delay**, as long as the clock is not
put back. -/
theorem Reachable.due_le {opening : Sitting} (h : Reachable setup opening past a)
    (hstart : opening.clock.alarms = []) (honward : ∀ b ∈ past, Onward setup b) {i : Nat}
    {alarm : Alarm Purpose} (ha : a.state.clock.alarms[i]? = some alarm) (hw : alarm.Waits) :
    alarm.due ≤ a.state.clock.now + setup.rules.advanceDelay := by
  suffices ∀ (i : Nat) (alarm : Alarm Purpose), a.state.clock.alarms[i]? = some alarm →
      alarm.Waits → alarm.due ≤ a.state.clock.now + setup.rules.advanceDelay from this i alarm ha hw
  refine h.guided (P := fun _ s _ => ∀ (i : Nat) (alarm : Alarm Purpose),
    s.clock.alarms[i]? = some alarm → alarm.Waits →
    alarm.due ≤ s.clock.now + setup.rules.advanceDelay) honward ?_ (fun _ _ _ _ hP _ => hP) ?_
  · intro i alarm ha
    rw [hstart] at ha
    cases ha
  · rintro past b - honward hP i alarm ha hw
    unfold Onward at honward
    obtain ⟨s, tasks, fault⟩ := b
    cases tasks with
    | nil => exact hP i alarm ha hw
    | cons task rest =>
      rw [Agenda.step_cons] at ha honward ⊢
      obtain ⟨clock, moments, hp, hrenews, -⟩ := perform_passage setup s task rest
      rcases hrenews.running_cases i alarm ha hw.2 with hold | hnew
      · have hdue := hP i alarm (hp.waits hold hw) hw
        exact Int.le_trans hdue (Int.add_le_add_right honward _)
      · rw [hw.1] at hnew
        exact Int.le_of_eq (hrenews.now_eq ▸ hnew)

end Sitting

end TimedQuiz
