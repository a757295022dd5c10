import TimedQuiz.Proofs.Scoring.Assessment
import TimedQuiz.Proofs.Sitting.Silent
import TimedQuiz.Proofs.Sitting.Timers

/-!
# Ends that come to nothing

The end of a round asks the wording for two texts. If one is refused, the end breaks off, and
nothing is lost: all that was scheduled goes on, but for the advance that has brought the end.

* `Event.Ends` — the events that end a round;
* `Kept` — the alarms of the pending advances wait, whether alarms that are cancelled ring or not;
* `BringsEnd` — a task brings an event that ends the round: a move of the client, or an advance;
* `LeavesAll` — what an end that comes to nothing leaves as it was;
* `HeldUp` — an event that ends the round has been held up by the wording.

Main statement: `Reachable.refused_end_leaves_all`. The listeners may do what they like, and so may
the wording before it refuses the text.
-/

namespace TimedQuiz

/-- The event ends a round that is active: it is the end by hand, or an advance past the last
problem. -/
def Event.Ends : Event → Prop
  | .finish _ => True
  | .advance order => order.count - 1 ≤ order.index
  | _ => False

instance (fault : Option Fault) (reason : String) : Decidable (fault = some (.wording reason)) :=
  match fault with
  | some (.wording message) =>
    decidable_of_iff (message = reason) ⟨fun h => h ▸ rfl, fun h => by cases h; rfl⟩
  | none => isFalse nofun
  | some (.scoring _) => isFalse nofun
  | some (.listener _) => isFalse nofun
  | some (.notAnEvent _) => isFalse nofun
  | some (.unwritable _) => isFalse nofun

/-- **A report is refused for want of the title of a grade, or of the feedback on it.** -/
theorem refused_of_assess {wording : Wording} {ps : List Problem} {reason : String}
    (h : (assess wording ps).outcome = .error (.wording reason)) :
    ∃ grade : Grade, wording.say grade.titleKey = .error reason ∨
      wording.say grade.feedbackKey = .error reason := by
  have refused : ∀ {key : String}, (wording.ask key).outcome = .error (.wording reason) →
      wording.say key = .error reason := by
    intro key h
    obtain ⟨_, hfault, hsay⟩ := Wording.refusal_of_ask h
    cases hfault
    exact hsay
  rcases Recorded.bind_eq_error h with h | ⟨score, -, h⟩
  · simp only [scoreOf] at h
    split at h <;> cases h
  · rcases Recorded.bind_eq_error h with h | ⟨title, -, h⟩
    · exact ⟨_, .inl (refused h)⟩
    · rcases Recorded.bind_eq_error h with h | ⟨feedback, -, h⟩
      · exact ⟨_, .inr (refused h)⟩
      · cases h

namespace Round

variable {rules : HouseRules} {wording : Wording} {r : Round} {e : Event} {reason : String}

/-- Only an event that ends the round asks the wording, or breaks off. -/
theorem ends_of_consulted (h : (∃ key, .asked key ∈ (r.next rules wording e).entries) ∨
    ∃ fault, (r.next rules wording e).outcome = .error fault) : e.Ends := by
  cases e with
  | finish given => trivial
  | advance order =>
    by_cases hlast : order.count - 1 ≤ order.index
    · exact hlast
    · simp only [next, advance, if_neg hlast] at h
      split at h <;> simp at h
  | load problems => simp [next, load] at h
  | submit id answer => simp [next] at h
  | retry => simp [next] at h
  | back => simp [next] at h
  | forward => simp [next] at h
  | tick generation => simp [next] at h
  | teardown => simp [next] at h

theorem refused_of_finishWith {problems : List Problem}
    (h : (r.finishWith wording problems).outcome = .error (.wording reason)) :
    (assess wording problems).outcome = .error (.wording reason) := by
  unfold finishWith at h
  split at h
  · cases h
  · rcases Recorded.bind_eq_error h with h | ⟨report, -, h⟩
    · exact h
    · cases h

/-- What the wording refuses is the title of a grade, or the feedback on it. -/
theorem refused_of_next (h : (r.next rules wording e).outcome = .error (.wording reason)) :
    ∃ grade : Grade, wording.say grade.titleKey = .error reason ∨
      wording.say grade.feedbackKey = .error reason := by
  cases e with
  | finish given => exact refused_of_assess (refused_of_finishWith h)
  | advance order =>
    simp only [next, advance] at h
    split at h
    · cases h
    · split at h
      · exact refused_of_assess (refused_of_finishWith h)
      · cases h
  | load problems => cases h
  | submit id answer => cases h
  | retry => cases h
  | back => cases h
  | forward => cases h
  | tick generation => cases h
  | teardown => cases h

end Round

namespace Sitting

variable {setup : Setup} {s s' : Sitting} {task : Task} {rest first after : List Task} {e : Event}
  {past : List (Agenda Sitting Task Fault)} {a : Agenda Sitting Task Fault}

/-! ## The alarms of the pending advances -/

/-- The alarms of the pending advances wait, and the ticker is the alarm of a tick. -/
structure Kept (s : Sitting) : Prop where
  level : ∀ (i : Nat) (a : Alarm Purpose), s.clock.alarms[i]? = some a → a.Level
  ticker : ∀ i, s.ticker = some i → ∃ generation, s.clock.purposes[i]? = some (.tick generation)
  waits : ∀ n i, (n, i) ∈ s.pending → ∃ (a : Alarm Purpose) (order : Advance),
    s.clock.alarms[i]? = some a ∧ a.Waits ∧ a.payload = .advance n order

namespace Kept

theorem of_eq (h : Kept s) (halarms : s'.clock.alarms = s.clock.alarms)
    (hticker : s'.ticker = s.ticker) (hpending : s'.pending = s.pending) : Kept s' := by
  refine ⟨?_, ?_, ?_⟩
  · rw [halarms]
    exact h.level
  · rw [Clock.purposes, halarms, hticker]
    exact h.ticker
  · rw [halarms, hpending]
    exact h.waits

theorem heard_of_pending (h : Kept s) {n i : Nat} (hmem : (n, i) ∈ s.pending) :
    ∃ order, s.clock.alarms[i]?.bind Alarm.heard = some (.advance n order) := by
  obtain ⟨a, order, ha, hw, hpay⟩ := h.waits n i hmem
  have harmed : a.armed = true := (h.level i a ha).trans hw.2
  exact ⟨order, Option.bind_eq_some_iff.mpr ⟨a, ha, Alarm.heard_eq_some_iff.mpr ⟨harmed, hpay⟩⟩⟩

theorem runs_of_pending (h : Kept s) {n i : Nat} (hmem : (n, i) ∈ s.pending) : s.clock.Runs i := by
  obtain ⟨a, order, ha, hw, -⟩ := h.waits n i hmem
  exact ⟨a, ha, hw.2⟩

/-- The ticker is not the alarm of a pending advance. -/
theorem ne_ticker (h : Kept s) {n i j : Nat} (hmem : (n, i) ∈ s.pending)
    (hticker : s.ticker = some j) : i ≠ j := by
  rintro rfl
  obtain ⟨a, order, ha, -, hpay⟩ := h.waits n i hmem
  obtain ⟨generation, hpurpose⟩ := h.ticker i hticker
  rw [Clock.payload_eq hpurpose ha] at hpay
  cases hpay

/-- The advances that stay pending after an alarm was heard are not those of this alarm. -/
theorem ne_of_withHeard (h : Kept s) {handle : Nat} (clock : Clock Purpose) {x : Purpose}
    (hx : s.clock.alarms[handle]?.bind Alarm.heard = some x) {n i : Nat}
    (hmem : (n, i) ∈ (s.withHeard clock x).pending) : (n, i) ∈ s.pending ∧ i ≠ handle := by
  have other : (n, i) ∈ s.pending → (∀ order, x ≠ .advance n order) → i ≠ handle := by
    rintro hmem hne rfl
    obtain ⟨order, ho⟩ := h.heard_of_pending hmem
    rw [hx] at ho
    exact hne order (Option.some.inj ho)
  cases x with
  | tick generation => exact ⟨hmem, other hmem nofun⟩
  | advance number order =>
    obtain ⟨hmem, hne⟩ := List.mem_filter.mp hmem
    refine ⟨hmem, other hmem fun order' heq => ?_⟩
    cases heq
    simp at hne

/-- One alarm changes, which stays level, and is not that of an advance that stays pending. -/
theorem replace (h : Kept s) {handle : Nat} {f : Alarm Purpose → Alarm Purpose}
    {clock : Clock Purpose} {pending : List (Nat × Nat)}
    (hclock : ∀ i : Nat, clock.alarms[i]? =
      if handle = i then s.clock.alarms[i]?.map f else s.clock.alarms[i]?)
    (hpurposes : clock.purposes = s.clock.purposes)
    (hf : ∀ a : Alarm Purpose, a.Level → (f a).Level)
    (hpending : ∀ n i, (n, i) ∈ pending → (n, i) ∈ s.pending ∧ i ≠ handle) :
    Kept { s with clock, pending } := by
  refine ⟨fun i b hb => ?_, fun i hi => hpurposes ▸ h.ticker i hi, fun n i hmem => ?_⟩
  · rw [hclock] at hb
    split at hb
    · obtain ⟨a, ha, rfl⟩ := Option.map_eq_some_iff.mp hb
      exact hf a (h.level i a ha)
    · exact h.level i b hb
  · obtain ⟨hold, hne⟩ := hpending n i hmem
    obtain ⟨a, order, ha, hw, hpay⟩ := h.waits n i hold
    exact ⟨a, order, by rw [hclock, if_neg (Ne.symm hne), ha], hw, hpay⟩

theorem rung (h : Kept s) {handle : Nat} {clock : Clock Purpose} {pending : List (Nat × Nat)}
    (hs : s.clock.Sounds handle clock)
    (hpending : ∀ n i, (n, i) ∈ pending → (n, i) ∈ s.pending ∧ i ≠ handle) :
    Kept { s with clock, pending } := by
  obtain ⟨f, hf, hclock⟩ := hs.exists_effect
    (P := fun f => ∀ a : Alarm Purpose, a.Level → (f a).Level)
    (fun _ ha => ha.signal.1) (fun _ ha => ha.elapse_signal.1)
  exact h.replace hclock hs.purposes_eq hf hpending

theorem taken (h : Kept s) (ht : s.Taken s') : Kept s' := by
  cases ht with
  | desk _ _ _ => exact h.of_eq rfl rfl rfl
  | time => exact h.of_eq rfl rfl rfl
  | @unheard handle clock journal hs hx =>
    have hrung : Kept { s with clock } := h.rung hs fun n i hmem => by
      refine ⟨hmem, ?_⟩
      rintro rfl
      obtain ⟨order, ho⟩ := h.heard_of_pending hmem
      rw [hx] at ho
      cases ho
    exact hrung.of_eq rfl rfl rfl
  | @heard handle clock x journal hs hx =>
    refine (h.rung hs fun n i => h.ne_of_withHeard clock hx).of_eq ?_ ?_ rfl
    · cases x <;> rfl
    · cases x <;> rfl

theorem stopTicker (h : Kept s) : Kept (s.stopTicker setup) := by
  unfold Sitting.stopTicker
  split
  · exact h
  · rename_i handle hticker
    unfold cancelAlarm
    split
    · have hcancel : Kept { s with clock := s.clock.cancel handle } :=
        h.replace (Clock.getElem?_cancel s.clock handle) (Clock.purposes_cancel s.clock handle)
          (fun _ ha => ha.cancel.1) fun _ _ hmem => ⟨hmem, h.ne_ticker hmem hticker⟩
      exact ⟨hcancel.level, nofun, hcancel.waits⟩
    · exact ⟨h.level, nofun, h.waits⟩

theorem cancelAdvances (h : Kept s) : Kept (s.cancelAdvances setup) := by
  obtain ⟨clock, hs, hmuted, -⟩ := cancelAdvances_frame setup s
  rw [hs]
  refine ⟨fun i b hb => ?_, fun i hi => hmuted.purposes_eq ▸ h.ticker i hi,
    fun _ _ hmem => absurd hmem List.not_mem_nil⟩
  rcases hmuted.alarm_cases i with heq | heq
  · exact h.level i b (heq ▸ hb)
  · obtain ⟨a, ha, rfl⟩ := Option.map_eq_some_iff.mp (heq ▸ hb)
    exact (h.level i a ha).cancel.1

/-- Another alarm is set, possibly for an advance that becomes pending or as the ticker. -/
theorem set (h : Kept s) (recurrence : Recurrence) (interval : Int) (purpose : Purpose)
    {pending : List (Nat × Nat)} {nextAdvance : Nat} {ticker : Option Nat}
    (hticker : ticker = s.ticker ∨
      (ticker = some s.clock.nextHandle ∧ ∃ generation, purpose = .tick generation))
    (hpending : ∀ n i, (n, i) ∈ pending → (n, i) ∈ s.pending ∨ (i = s.clock.nextHandle ∧
      recurrence = .once ∧ ∃ order, purpose = .advance n order)) :
    Kept { s with
      clock := s.clock.set recurrence interval purpose, pending, nextAdvance, ticker } := by
  refine ⟨fun i a ha => ?_, fun i hi => ?_, fun n i hmem => ?_⟩
  · rcases Clock.getElem?_set_eq_some_iff.mp ha with ha | ⟨-, rfl⟩
    · exact h.level i a ha
    · rfl
  · rcases hticker with rfl | ⟨rfl, generation, rfl⟩
    · obtain ⟨generation, hpurpose⟩ := h.ticker i hi
      exact ⟨generation, Clock.getElem?_purposes_set hpurpose ..⟩
    · cases hi
      exact ⟨generation, Clock.getElem?_purposes_set_nextHandle ..⟩
  · rcases hpending n i hmem with hold | ⟨rfl, rfl, order, rfl⟩
    · obtain ⟨a, order, ha, hw, hpay⟩ := h.waits n i hold
      exact ⟨a, order, Clock.getElem?_set_eq_some_iff.mpr (.inl ha), hw, hpay⟩
    · exact ⟨_, order, Clock.getElem?_set_eq_some_iff.mpr (.inr ⟨rfl, rfl⟩), ⟨rfl, rfl⟩, rfl⟩

/-- **No order breaks what is kept.** -/
theorem carryOut (h : Kept s) (order : TimerOrder) : Kept (s.carryOut setup order) := by
  cases order with
  | scheduleAdvance order =>
    refine h.set .once setup.rules.advanceDelay (.advance s.nextAdvance order) (.inl rfl) ?_
    intro n i hmem
    rcases List.mem_append.mp hmem with hmem | hmem
    · exact .inl hmem
    · cases List.mem_singleton.mp hmem
      exact .inr ⟨rfl, rfl, order, rfl⟩
  | cancelAdvances => exact h.cancelAdvances
  | startTicker generation =>
    exact h.stopTicker.set .repeating setup.rules.tickInterval (.tick generation)
      (.inr ⟨rfl, generation, rfl⟩) fun _ _ => .inl
  | stopTicker => exact h.stopTicker

theorem moved (h : Kept s) (round : Round) (orders : List TimerOrder) :
    Kept (s.moved setup round orders) := by
  have hround : Kept { s with round } := h.of_eq rfl rfl rfl
  unfold Sitting.moved
  generalize { s with round } = t at hround
  induction orders generalizing t with
  | nil => exact hround
  | cons order orders ih => exact ih _ (hround.carryOut order)

theorem done (h : Kept s) (hd : Does setup s task (.done s' first)) : Kept s' := by
  cases hd with
  | aside ht _ _ => exact h.taken ht
  | moved ht _ _ _ _ _ => exact ((h.taken ht).moved _ _).of_eq rfl rfl rfl
  | held ht _ _ _ _ _ => exact (h.taken ht).of_eq rfl rfl rfl

theorem failed (h : Kept s) {fault : Fault} (hd : Does setup s task (.failed s' fault)) :
    Kept s' := by
  cases hd with
  | gaveUp _ => exact h
  | broken ht _ _ => exact (h.taken ht).of_eq rfl rfl rfl

end Kept

/-- **The alarms of the pending advances wait at every moment.** -/
theorem Reachable.kept {sheets : Table (List Problem)}
    {onResult onChange onWording : List (List Move)}
    (h : Reachable setup (opening sheets onResult onChange onWording) past a) : Kept a.state := by
  apply h.invariant (I := fun s _ => Kept s)
  · refine ⟨fun i alarm halarm => ?_, fun i hticker => ?_, fun n i hmem => ?_⟩
    · cases halarm
    · cases hticker
    · cases hmem
  · exact fun _ _ hk _ => hk
  · exact fun _ _ _ _ _ hk hp => hk.done (does_of_perform hp)
  · exact fun _ _ _ _ _ hk hp => hk.failed (does_of_perform hp)

/-! ## Ends that break off or are held up -/

/-- The task brings an event that ends the round, and the event finds the sitting: by hand, or
through the advance of the given number, whose alarm rings. -/
inductive BringsEnd (s : Sitting) (task : Task) : Event → Option Nat → Sitting → Prop
  | byHand : task = .move .finish → BringsEnd s task (.finish none) none s
  | byAdvance {handle : Nat} {clock : Clock Purpose} {after : List Task} {number : Nat}
      {order : Advance} : s.Strikes task handle clock after →
      s.clock.alarms[handle]?.bind Alarm.heard = some (.advance number order) →
      order.generation = s.round.generation → order.count - 1 ≤ order.index →
      BringsEnd s task (.advance order) (some number) (s.withHeard clock (.advance number order))

/-- What an end that comes to nothing leaves as it was: the round, the ticker, the pending advances
with their alarms, but for one that has rung, and what the client has set. No listener is called,
and there is no notice of an end. -/
structure LeavesAll (fired : Option Nat) (s t : Sitting) : Prop where
  round_eq : t.round = s.round
  enabled_eq : t.enabled = s.enabled
  disposed_eq : t.disposed = s.disposed
  ticker_eq : t.ticker = s.ticker
  ticking : ∀ i, s.ticker = some i → t.clock.alarms[i]? = s.clock.alarms[i]?
  pending : ∀ n i, (n, i) ∈ s.pending → some n ≠ fired →
    (n, i) ∈ t.pending ∧ t.clock.alarms[i]? = s.clock.alarms[i]? ∧ t.clock.Runs i
  calls_eq : t.calls = s.calls

variable (setup) in
/-- The next task brings an event that ends the round, with the given outcome, and leaves all as it
was. -/
def EndsInVain (b : Agenda Sitting Task Fault) (outcome : Except Fault Transition) : Prop :=
  ∃ task rest e fired s', b.tasks = task :: rest ∧ b.state.BringsEnd task e fired s' ∧
    outcome = (b.state.round.next setup.rules setup.wording e).outcome ∧
    LeavesAll fired b.state (b.step (perform setup)).state

/-- Questions have been put on record, and the wording may have acted on one. -/
def Consulted (s t : Sitting) : Prop :=
  ∃ journal onWording, t = { s with journal, onWording } ∧ t.calls = s.calls

theorem bringsEnd_of_event (h : s.TakesUp task (.event s' e after)) (he : e.Ends) :
    ∃ fired, s.BringsEnd task e fired s' := by
  cases h with
  | finish => exact ⟨none, .byHand rfl⟩
  | advance hs hx hgen => exact ⟨some _, .byAdvance hs hx hgen he⟩
  | _ => cases he

variable {fired : Option Nat} {outcome : Except Fault Transition} {entries : List Entry}
  {fault : Fault} {t : Sitting} {b : Agenda Sitting Task Fault} {reason : String}

/-- An alarm that is heard is the only one that changes. -/
theorem Strikes.alarm_eq {handle i : Nat} {clock : Clock Purpose}
    (hs : s.Strikes task handle clock after) (hne : i ≠ handle) :
    clock.alarms[i]? = s.clock.alarms[i]? := by
  obtain ⟨f, -, hclock⟩ := hs.sounds.exists_effect (P := fun _ => True) trivial trivial
  rw [hclock, if_neg (Ne.symm hne)]

theorem LeavesAll.refl (hk : Kept s) : LeavesAll none s s := by
  refine ⟨rfl, rfl, rfl, rfl, fun _ _ => rfl, fun n i hmem _ => ⟨hmem, rfl, ?_⟩, rfl⟩
  exact hk.runs_of_pending hmem

/-- **Until its event reaches the round, an end leaves all as it was.** -/
theorem BringsEnd.leavesAll (h : s.BringsEnd task e fired s') (hk : Kept s) :
    LeavesAll fired s s' := by
  cases h with
  | byHand _ => exact .refl hk
  | @byAdvance handle clock after number order hs hx _ _ =>
    refine ⟨rfl, rfl, rfl, rfl, fun i hi => hs.alarm_eq ?_, fun n i hmem hne => ?_, rfl⟩
    · rintro rfl
      obtain ⟨generation, hpurpose⟩ := hk.ticker i hi
      obtain ⟨alarm, ha, hheard⟩ := Option.bind_eq_some_iff.mp hx
      have hpay := (Alarm.heard_eq_some_iff.mp hheard).2
      rw [Clock.payload_eq hpurpose ha] at hpay
      cases hpay
    · have hstays : (n, i) ∈ (s.withHeard clock (.advance number order)).pending :=
        List.mem_filter.mpr ⟨hmem, by simpa using hne⟩
      have heq := hs.alarm_eq (hk.ne_of_withHeard clock hx hstays).2
      obtain ⟨alarm, ha, hrun⟩ := hk.runs_of_pending hmem
      exact ⟨hstays, heq, alarm, heq.trans ha, hrun⟩

theorem LeavesAll.consulted (h : LeavesAll fired s s') (hc : s'.Consulted t) :
    LeavesAll fired s t := by
  obtain ⟨journal, onWording, rfl, hcalls⟩ := hc
  exact ⟨h.round_eq, h.enabled_eq, h.disposed_eq, h.ticker_eq, h.ticking, h.pending,
    hcalls.trans h.calls_eq⟩

/-- An event that breaks off has only put its questions. -/
theorem consulted_of_failed (hnone : ∀ entry ∈ entries, entry.isCall = false)
    (h : s.conclude setup outcome entries = .failed t fault) :
    outcome = .error fault ∧ s.Consulted t := by
  rcases conclude_eq_cases setup s outcome entries with heq | ⟨before, key, rest, moves, later,
    -, -, heq⟩
  · rw [heq] at h
    cases outcome with
    | error fault' =>
      cases h
      exact ⟨rfl, _, _, rfl, calls_record_of_none hnone s⟩
    | ok transition =>
      cases transition with
      | ignored => cases h
      | moved round orders report =>
        rw [effect_moved_eq] at h
        cases h
  · rw [heq] at h
    cases h

/-- An event that is held up has only put some of its questions. -/
theorem consulted_of_held {outcome' : Except Fault Transition} {left : List Entry}
    (hnone : ∀ entry ∈ entries, entry.isCall = false)
    (h : s.conclude setup outcome entries = .done t first)
    (hmem : .conclude outcome' left ∈ first) :
    outcome' = outcome ∧ (∃ key, .asked key ∈ entries) ∧ (∀ entry ∈ left, entry ∈ entries) ∧
      s.Consulted t := by
  rcases conclude_eq_cases setup s outcome entries with heq | ⟨before, key, rest, moves, later,
    hentries, -, heq⟩
  · rw [heq] at h
    cases outcome with
    | error fault' => cases h
    | ok transition =>
      cases transition with
      | ignored =>
        cases h
        cases hmem
      | moved round orders report =>
        rw [effect_moved_eq] at h
        cases h
        rcases List.mem_append.mp hmem with hmem | hmem
        · obtain ⟨m, -, hm⟩ := List.mem_map.mp hmem
          cases hm
        · cases Setup.eq_announce_of_mem hmem
  · rw [heq] at h
    cases h
    rcases List.mem_append.mp hmem with hmem | hmem
    · obtain ⟨m, -, hm⟩ := List.mem_map.mp hmem
      cases hm
    · cases List.mem_singleton.mp hmem
      refine ⟨rfl, ⟨key, by simp [hentries]⟩, fun entry he => by simp [hentries, he], _, _, rfl, ?_⟩
      exact calls_record_of_none (fun entry he => hnone entry (by
        rw [hentries]
        simp only [List.mem_append, List.mem_cons] at he ⊢
        tauto)) s

/-! ## Where a refusal comes from -/

theorem EndsInVain.refused (h : EndsInVain setup b (.error (.wording reason))) :
    ∃ grade : Grade, setup.wording.say grade.titleKey = .error reason ∨
      setup.wording.say grade.feedbackKey = .error reason := by
  obtain ⟨task, rest, e, fired, s', -, -, ho, -⟩ := h
  exact Round.refused_of_next ho.symm

/-- An event that has put its questions at most, and waits for an answer or breaks off, ends the
round in vain. -/
theorem endsInVain_of_event (hk : Kept b.state) (htasks : b.tasks = task :: rest)
    (hi : b.state.intake task = .event s' e after)
    (hends : (∃ key, .asked key ∈ (s'.round.next setup.rules setup.wording e).entries) ∨
      ∃ fault, (s'.round.next setup.rules setup.wording e).outcome = .error fault)
    (hc : s'.Consulted (b.step (perform setup)).state) :
    EndsInVain setup b (s'.round.next setup.rules setup.wording e).outcome := by
  have htakes := takesUp_of_intake hi
  obtain ⟨fired, hbrings⟩ := bringsEnd_of_event htakes (Round.ends_of_consulted hends)
  refine ⟨task, rest, e, fired, s', htasks, hbrings, ?_, (hbrings.leavesAll hk).consulted hc⟩
  rw [htakes.taken_of_event.1.spared.round_eq]

variable (setup) in
/-- An event ended the round in vain at an earlier moment, and is held up since. -/
def HeldUp (past : List (Agenda Sitting Task Fault)) (outcome : Except Fault Transition)
    (entries : List Entry) : Prop :=
  (∀ entry ∈ entries, entry.isCall = false) ∧ ∃ b ∈ past, EndsInVain setup b outcome

theorem HeldUp.later (h : HeldUp setup past outcome entries) {left : List Entry}
    (hleft : ∀ entry ∈ left, entry ∈ entries) : HeldUp setup (a :: past) outcome left := by
  obtain ⟨hnone, b, hb, hvain⟩ := h
  exact ⟨fun entry hmem => hnone entry (hleft entry hmem), b, List.mem_cons_of_mem a hb, hvain⟩

/-- What follows an event does not hold up another. -/
theorem TakesUp.not_held (h : s.TakesUp task (.event s' e after))
    (outcome : Except Fault Transition) (entries : List Entry) :
    .conclude outcome entries ∉ after := by
  intro hmem
  rcases h.elapse_of_event with ⟨-, -, rfl, -⟩ | ⟨-, helapse⟩
  · cases List.mem_singleton.mp hmem
  · obtain ⟨target, heq⟩ := helapse _ hmem
    cases heq

/-- The event that the next task holds up was held up before, or has just been brought. -/
theorem heldUp_of_perform (hk : Kept a.state) (htasks : a.tasks = task :: rest)
    (hheld : ∀ outcome entries, task = .conclude outcome entries →
      HeldUp setup past outcome entries)
    (h : perform setup task a.state = .done t first) (hmem : .conclude outcome entries ∈ first) :
    HeldUp setup (a :: past) outcome entries := by
  have hstep : (a.step (perform setup)).state = t := by
    rw [Agenda.step_of_tasks htasks, h, Verdict.agenda]
  unfold perform at h
  cases hi : a.state.intake task with
  | event s' e after =>
    have hafter := (takesUp_of_intake hi).not_held outcome entries
    rw [hi, pursue, react] at h
    split at h
    · cases h
      exact absurd hmem hafter
    · cases hv : s'.conclude setup (s'.round.next setup.rules setup.wording e).outcome
          (s'.round.next setup.rules setup.wording e).entries with
      | failed u fault =>
        rw [hv] at h
        cases h
      | done u before =>
        rw [hv] at h
        cases h
        rcases List.mem_append.mp hmem with hmem | hmem
        · have hnone : ∀ entry ∈ (s'.round.next setup.rules setup.wording e).entries,
              entry.isCall = false := fun _ => Round.isCall_of_mem_entries
          obtain ⟨rfl, hasked, hleft, hc⟩ := consulted_of_held hnone hv hmem
          refine ⟨fun entry he => hnone entry (hleft entry he), a, List.mem_cons_self, ?_⟩
          exact endsInVain_of_event hk htasks hi (.inl hasked) (hstep ▸ hc)
        · exact absurd hmem hafter
  | rest s' outcome' entries' =>
    cases takesUp_of_intake hi
    rw [hi, pursue] at h
    have hbefore := hheld _ _ rfl
    obtain ⟨rfl, -, hleft, -⟩ := consulted_of_held hbefore.1 h hmem
    exact hbefore.later hleft
  | aside s' after =>
    rw [hi, pursue] at h
    cases h
    have htakes := takesUp_of_intake hi
    by_cases hne : task = .announce
    · subst hne
      cases hi
      obtain ⟨m, -, hm⟩ := List.mem_map.mp hmem
      cases hm
    · obtain ⟨target, heq⟩ := htakes.elapse_of_aside hne _ hmem
      cases heq
  | failed s' fault =>
    rw [hi] at h
    cases h

/-- **Every event that is held up is an end that has come to nothing so far.** -/
theorem Reachable.heldUp {sheets : Table (List Problem)}
    {onResult onChange onWording : List (List Move)}
    (h : Reachable setup (opening sheets onResult onChange onWording) past a) :
    ∀ outcome entries, .conclude outcome entries ∈ a.tasks →
      HeldUp setup past outcome entries := by
  have called : ∀ {past a task}, Task.Outer task → ∀ outcome entries,
      .conclude outcome entries ∈ [task] → HeldUp setup (a :: past) outcome entries := by
    intro past a task houter outcome entries hmem
    cases List.mem_singleton.mp hmem
    cases houter
  induction h with
  | start => exact fun _ _ hmem => absurd hmem List.not_mem_nil
  | call _ _ hcalm _ => exact called (.move hcalm)
  | ring handle _ _ _ => exact called (.ring handle)
  | @step past a hreach ih =>
    intro outcome entries hmem
    cases htasks : a.tasks with
    | nil =>
      rw [Agenda.step_of_idle htasks] at hmem
      exact (ih outcome entries hmem).later fun _ => id
    | cons task rest =>
      rw [htasks] at ih
      rw [Agenda.step_of_tasks htasks] at hmem
      cases hp : perform setup task a.state with
      | done t first =>
        rw [hp] at hmem
        rcases List.mem_append.mp hmem with hmem | hmem
        · refine heldUp_of_perform hreach.kept htasks (fun _ _ heq => ?_) hp hmem
          exact ih _ _ (heq ▸ List.mem_cons_self)
        · exact (ih outcome entries (List.mem_cons_of_mem task hmem)).later fun _ => id
      | failed t fault =>
        rw [hp] at hmem
        cases hmem

/-- A task that a refusal breaks off brings an end in vain, or goes on with one that was held up. -/
theorem endsInVain_of_refused (hk : Kept a.state) (htasks : a.tasks = task :: rest)
    (hheld : ∀ outcome entries, task = .conclude outcome entries →
      HeldUp setup past outcome entries)
    (h : perform setup task a.state = .failed t (.wording reason)) :
    EndsInVain setup a (.error (.wording reason)) ∨
      ∃ entries, task = .conclude (.error (.wording reason)) entries ∧ a.state.Consulted t := by
  have hstep : (a.step (perform setup)).state = t := by
    rw [Agenda.step_of_tasks htasks, h, Verdict.agenda]
  unfold perform at h
  cases hi : a.state.intake task with
  | event s' e after =>
    rw [hi, pursue, react] at h
    split at h
    · cases h
    · cases hv : s'.conclude setup (s'.round.next setup.rules setup.wording e).outcome
          (s'.round.next setup.rules setup.wording e).entries with
      | done u before =>
        rw [hv] at h
        cases h
      | failed u fault =>
        rw [hv] at h
        cases h
        obtain ⟨ho, hc⟩ := consulted_of_failed (fun _ => Round.isCall_of_mem_entries) hv
        have hvain := endsInVain_of_event hk htasks hi (.inr ⟨_, ho⟩) (hstep ▸ hc)
        exact .inl (ho ▸ hvain)
  | rest s' outcome entries =>
    cases takesUp_of_intake hi
    rw [hi, pursue] at h
    obtain ⟨rfl, hc⟩ := consulted_of_failed (hheld _ _ rfl).1 h
    exact .inr ⟨entries, rfl, hc⟩
  | aside s' after =>
    rw [hi] at h
    cases h
  | failed s' fault =>
    cases takesUp_of_intake hi
    rw [hi] at h
    cases h

/-- **A refused end leaves all as it was.** What breaks off for want of a text is an end of the
round, by hand or by an advance, for want of the title of a grade or of the feedback on it. Nothing
goes on of what is under way; and where the wording has acted before the refusal, neither the
beginning of the end nor the refusal itself has changed anything. -/
theorem Reachable.refused_end_leaves_all {sheets : Table (List Problem)}
    {onResult onChange onWording : List (List Move)}
    (h : Reachable setup (opening sheets onResult onChange onWording) past a)
    (hbusy : a.tasks ≠ [])
    (hrefused : (a.step (perform setup)).fault = some (.wording reason)) :
    (∃ grade : Grade, setup.wording.say grade.titleKey = .error reason ∨
      setup.wording.say grade.feedbackKey = .error reason) ∧
    (a.step (perform setup)).tasks = [] ∧
    (EndsInVain setup a (.error (.wording reason)) ∨
      (onWording ≠ [] ∧
        (∃ entries rest, a.tasks = .conclude (.error (.wording reason)) entries :: rest) ∧
        LeavesAll none a.state (a.step (perform setup)).state ∧
        ∃ b ∈ past, EndsInVain setup b (.error (.wording reason)))) := by
  obtain ⟨task, rest, htasks⟩ := List.exists_cons_of_ne_nil hbusy
  have hheld : ∀ outcome entries, task = .conclude outcome entries →
      HeldUp setup past outcome entries := by
    intro outcome entries heq
    exact h.heldUp outcome entries (by simp [htasks, heq])
  cases hp : perform setup task a.state with
  | done t first =>
    rw [Agenda.step_of_tasks htasks, hp] at hrefused
    cases hrefused
  | failed t fault =>
    have hstep : a.step (perform setup) = { state := t, tasks := [], fault := some fault } := by
      rw [Agenda.step_of_tasks htasks, hp, Verdict.agenda]
    rw [hstep] at hrefused
    obtain rfl : fault = .wording reason := Option.some.inj hrefused
    have hover : (a.step (perform setup)).tasks = [] := by rw [hstep]
    rcases endsInVain_of_refused h.kept htasks hheld hp with hvain | ⟨entries, rfl, hc⟩
    · exact ⟨hvain.refused, hover, .inl hvain⟩
    · obtain ⟨-, b, hb, hvain⟩ := hheld _ _ rfl
      refine ⟨hvain.refused, hover, .inr ⟨fun hsilent => ?_, ⟨entries, rest, htasks⟩, ?_, b, hb,
        hvain⟩⟩
      · exact (h.quiet hsilent).not_held _ _ (htasks ▸ List.mem_cons_self)
      · rw [hstep]
        exact (LeavesAll.refl h.kept).consulted hc

/-- Both problems are answered at the last one, and the first advance is refused the feedback; the
second stays pending. -/
theorem refused_end_leaves_all_of_advance :
    ∃ setup past a, Reachable setup (Sitting.opening
        (Table.insert {} "sums" [{ id := 1, text := "2 + 3" }, { id := 2, text := "1 + 1" }])
        [] []) past a ∧
      (a.step (perform setup)).fault =
        some (.wording "no translation for quiz.feedback.needsImprovement") ∧
      a.state.pending = [(0, 1), (1, 2)] ∧
      (a.step (perform setup)).state.pending = [(1, 2)] ∧
      ∃ fired, LeavesAll fired a.state (a.step (perform setup)).state := by
  have opened : Reachable { wording := .echoExcept "quiz.feedback.needsImprovement" }
      (Sitting.opening
        (Table.insert {} "sums" [{ id := 1, text := "2 + 3" }, { id := 2, text := "1 + 1" }])
        [] []) [] _ := .start
  have shown := (opened.call (m := .present "sums" false) rfl trivial).step.step
  have moved := (shown.call (m := .forward) (List.isEmpty_iff.mp (by decide +kernel))
    trivial).step.step
  have answered := (moved.call (m := .submit 1 5.0) (List.isEmpty_iff.mp (by decide +kernel))
    trivial).step.step
  have again := (answered.call (m := .submit 2 3.0) (List.isEmpty_iff.mp (by decide +kernel))
    trivial).step.step
  have due := (again.call (m := .wait 1500) (List.isEmpty_iff.mp (by decide +kernel))
    trivial).step.step.step
  refine ⟨_, _, _, due, by decide +kernel, by decide +kernel, by decide +kernel, ?_⟩
  obtain ⟨-, -, ⟨-, -, -, fired, -, -, -, -, hleaves⟩ | ⟨hne, -⟩⟩ := due.refused_end_leaves_all
    (List.isEmpty_eq_false_iff.mp (by decide +kernel))
    (show _ = some (Fault.wording "no translation for quiz.feedback.needsImprovement") by
      decide +kernel)
  · exact ⟨fired, hleaves⟩
  · exact absurd rfl hne

end Sitting

end TimedQuiz
