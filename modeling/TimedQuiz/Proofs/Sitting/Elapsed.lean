import TimedQuiz.Proofs.Sitting.Disposal
import TimedQuiz.Proofs.Sitting.Effects
import TimedQuiz.Proofs.Sitting.Ending
import TimedQuiz.Proofs.Sitting.Time

/-!
# The seconds of a round

The ticker of a round is older than every pending advance, so that it rings first where both are due
at the same moment, and nothing set for an earlier round is heard any more. So the seconds that a
round counts are the ticks that its time has room for.

* `BeginsNext`, `beginning?`, `ending?` — when rounds begin and end;
* `ByTheClock` — alarms ring in their turn only, and the clock is not put back;
* `Paced` — the ticker has rung as often as the time since a moment has room for;
* `OnTime` — the seconds of the round are those since it began.

Main statement: `Reachable.elapsed_exact`.
-/

namespace TimedQuiz

/-- The task makes an alarm ring out of turn. -/
def Task.isRing : Task → Bool
  | .ring _ => true
  | _ => false

namespace Sitting

/-! ## When rounds begin and end -/

/-- Another try is to be made next. -/
def triesAgain : List Task → Bool
  | .move .retry :: _ => true
  | _ => false

theorem triesAgain_iff {tasks : List Task} :
    triesAgain tasks = true ↔ ∃ rest, tasks = .move .retry :: rest := by
  constructor
  · intro h
    unfold triesAgain at h
    split at h
    · exact ⟨_, rfl⟩
    · cases h
  · rintro ⟨rest, rfl⟩
    rfl

instance (a : Agenda Sitting Task Fault) : Decidable (Restarts a) :=
  decidable_of_iff (accepted a ≠ none ∨
    (triesAgain a.tasks = true ∧ a.state.disposed = false ∧ a.state.round.phase = .completed))
    (by rw [triesAgain_iff]; rfl)

variable (setup : Setup)

/-- The next task begins a round that has problems. -/
def BeginsNext (a : Agenda Sitting Task Fault) : Prop :=
  Restarts a ∧ (a.step (perform setup)).state.round.phase = .active

instance (a : Agenda Sitting Task Fault) : Decidable (BeginsNext setup a) :=
  inferInstanceAs (Decidable (_ ∧ _))

/-- The moment at which a round begins, if the next task begins one. -/
def beginning? (a : Agenda Sitting Task Fault) : Option Int :=
  if BeginsNext setup a then some (a.step (perform setup)).state.clock.now else none

/-- The moment at which the round ends, if the next task ends it. -/
def ending? (a : Agenda Sitting Task Fault) : Option Int :=
  if EndsNext setup a then some (a.step (perform setup)).state.clock.now else none

/-- No alarm is to ring out of turn, and the next task does not put the clock back. -/
structure ByTheClock (a : Agenda Sitting Task Fault) : Prop where
  in_turn : ∀ task ∈ a.tasks, task.isRing = false
  onward : Onward setup a

instance (a : Agenda Sitting Task Fault) : Decidable (ByTheClock setup a) :=
  decidable_of_iff ((∀ task ∈ a.tasks, task.isRing = false) ∧ Onward setup a)
    ⟨fun h => ⟨h.1, h.2⟩, fun h => ⟨h.1, h.2⟩⟩

variable {setup} {s s' t : Sitting} {task : Task} {rest first after : List Task} {e : Event}
  {a : Agenda Sitting Task Fault} {past : List (Agenda Sitting Task Fault)}
  {began seconds : Int} {i : Nat} {alarm : Alarm Purpose}

/-! ## The pace of the ticker -/

variable (setup) in
/-- The alarm at a position is the ticker: it has rung as often as the time since a moment has room
for, it was set before every advance that is pending, and its next tick is still to come. -/
structure Paced (s : Sitting) (began seconds : Int) (i : Nat) (alarm : Alarm Purpose) : Prop where
  ticker_eq : s.ticker = some i
  at_position : s.clock.alarms[i]? = some alarm
  ticks : alarm.Ticks
  interval_eq : alarm.interval = setup.rules.tickInterval
  due_eq : alarm.due = began + (seconds + 1) * setup.rules.tickInterval
  to_come : s.clock.now < alarm.due
  due_le : alarm.due ≤ s.clock.now + setup.rules.tickInterval
  oldest : ∀ p ∈ s.pending, i < p.2

namespace Paced

/-- **The ticks so far are those that the time has room for.** -/
theorem seconds_eq (h : Paced setup s began seconds i alarm)
    (hint : 1 ≤ setup.rules.tickInterval) :
    seconds = (s.clock.now - began) / setup.rules.tickInterval := by
  have hdue := h.due_eq
  have hcome := h.to_come
  have hle := h.due_le
  rw [Int.add_mul, Int.one_mul] at hdue
  have hlower : seconds * setup.rules.tickInterval ≤ s.clock.now - began := by omega
  have hupper : s.clock.now - began < (seconds + 1) * setup.rules.tickInterval := by
    rw [Int.add_mul, Int.one_mul]
    omega
  have h1 : seconds ≤ (s.clock.now - began) / setup.rules.tickInterval :=
    (Int.le_ediv_iff_mul_le (by omega)).mpr hlower
  have h2 : (s.clock.now - began) / setup.rules.tickInterval < seconds + 1 :=
    (Int.ediv_lt_iff_lt_mul (by omega)).mpr hupper
  omega

theorem of_alike (h : Paced setup s began seconds i alarm) (heq : s.Alike s') :
    Paced setup s' began seconds i alarm := by
  refine ⟨?_, ?_, h.ticks, h.interval_eq, h.due_eq, ?_, ?_, ?_⟩
  · rw [heq.ticker_eq]; exact h.ticker_eq
  · rw [heq.clock_eq]; exact h.at_position
  · rw [heq.clock_eq]; exact h.to_come
  · rw [heq.clock_eq]; exact h.due_le
  · rw [heq.pending_eq]; exact h.oldest

/-- Time moves on to its target. -/
theorem arrive {target : Int} (h : Paced setup s began seconds i alarm)
    (hnone : s.clock.earliest? target = none) (hle : s.clock.now ≤ target) :
    Paced setup { s with clock := { s.clock with now := target } } began seconds i alarm := by
  have hcome := Clock.earliest?_eq_none_iff.mp hnone i alarm h.at_position h.ticks.2
  have hdue := h.due_le
  exact { h with to_come := hcome, due_le := show alarm.due ≤ target + _ by omega }

/-- The ticker rings. -/
theorem rung {target due : Int} (h : Paced setup s began seconds i alarm)
    (hnext : s.clock.earliest? target = some (i, due)) (hint : 1 ≤ setup.rules.tickInterval) :
    Paced setup { s with clock := (s.clock.ring i due).1 } began (seconds + 1) i
      { alarm with due := alarm.due + alarm.interval } := by
  obtain ⟨b, hb⟩ := Clock.earliest?_eq_some_iff.mp hnext
  have hsame : b = alarm := Option.some.inj (hb.at_position.symm.trans h.at_position)
  subst hsame
  have hdue := hb.due_eq
  have hinterval := h.interval_eq
  have hnow : (s.clock.ring i due).1.now = due := rfl
  refine ⟨h.ticker_eq, ?_, h.ticks, hinterval, ?_, ?_, ?_, h.oldest⟩
  · have hrung : b.elapse.signal = { b with due := b.due + b.interval } := by
      simp only [Alarm.elapse, Alarm.signal, h.ticks.1]
    rw [Clock.getElem?_ring, if_pos rfl, h.at_position, Option.map_some, hrung]
  · show b.due + b.interval = _
    rw [h.due_eq, hinterval, Int.add_mul (seconds + 1), Int.one_mul]
    omega
  · show due < b.due + b.interval
    omega
  · show b.due + b.interval ≤ due + _
    omega

/-- The alarm of an advance rings, which is due before the next tick. -/
theorem rung_of_pending {target due : Int} {n handle : Nat} {order : Advance}
    (h : Paced setup s began seconds i alarm)
    (hnext : s.clock.earliest? target = some (handle, due)) (hmem : (n, handle) ∈ s.pending)
    (hle : s.clock.now ≤ due) :
    Paced setup (s.withHeard (s.clock.ring handle due).1 (.advance n order)) began seconds i
      alarm := by
  obtain ⟨b, hb⟩ := Clock.earliest?_eq_some_iff.mp hnext
  have holder : i < handle := h.oldest (n, handle) hmem
  have hdue := h.due_le
  have hcome : due < alarm.due := by
    rcases hb.first i alarm h.at_position h.ticks.2 with hlt | ⟨-, hnot⟩
    · exact hlt
    · omega
  refine ⟨h.ticker_eq, ?_, h.ticks, h.interval_eq, h.due_eq, hcome, ?_, ?_⟩
  · show (s.clock.ring handle due).1.alarms[i]? = _
    rw [Clock.getElem?_ring, if_neg (Nat.ne_of_gt holder)]
    exact h.at_position
  · show alarm.due ≤ due + _
    omega
  · exact fun p hp => h.oldest p (List.mem_filter.mp hp).1

theorem unordered (h : Paced setup s began seconds i alarm) (round : Round) :
    Paced setup (s.moved setup round []) began seconds i alarm := { h with }

/-- An advance is scheduled, whose alarm is a new one. -/
theorem scheduled (h : Paced setup s began seconds i alarm) (round : Round) (order : Advance) :
    Paced setup (s.moved setup round [.scheduleAdvance order]) began seconds i alarm := by
  refine { h with at_position := ?_, oldest := fun p hp => ?_ }
  · exact Clock.getElem?_set_eq_some_iff.mpr (.inl h.at_position)
  · rcases List.mem_append.mp hp with hp | hp
    · exact h.oldest p hp
    · rw [List.mem_singleton.mp hp]
      exact (List.getElem?_eq_some_iff.mp h.at_position).1

/-- A ticker that is set has not rung yet. -/
theorem restarted (s : Sitting) (round : Round) (generation : Int)
    (hint : 1 ≤ setup.rules.tickInterval) :
    ∃ i alarm, Paced setup (s.moved setup round (Round.stopAll ++ [.startTicker generation]))
      s.clock.now 0 i alarm ∧
      (s.moved setup round (Round.stopAll ++ [.startTicker generation])).clock.now =
        s.clock.now := by
  obtain ⟨clock, hs, hg⟩ := moved_restart setup s round generation
  have hnow := hg.1.now_eq
  rw [hs]
  refine ⟨clock.nextHandle, _, ⟨rfl, Clock.getElem?_set_eq_some_iff.mpr (.inr ⟨rfl, rfl⟩),
    ⟨rfl, rfl⟩, rfl, ?_, ?_, Int.le_refl _, fun p hp => absurd hp List.not_mem_nil⟩, hnow⟩
  · show clock.now + _ = s.clock.now + (0 + 1) * _
    rw [hnow, Int.zero_add, Int.one_mul]
  · show clock.now < clock.now + _
    omega

end Paced

/-! ## What doing a task does to the pace -/

/-- It is the time at which an alarm is due when it has rung in its turn. -/
theorem now_of_next {target due : Int} {handle : Nat}
    (hnext : s.clock.earliest? target = some (handle, due))
    (hp : perform setup (.elapse target) s = .done s' first) : s'.clock.now = due := by
  obtain ⟨clock, moments, hpassage, hrenews, -⟩ := perform_passage setup s (.elapse target) []
  rw [hp] at hrenews
  cases hpassage with
  | still hne => exact absurd rfl (hne target)
  | arrives hnone =>
    rw [hnext] at hnone
    cases hnone
  | rings hnext' =>
    rw [hnext] at hnext'
    cases hnext'
    exact hrenews.now_eq

/-- An event other than a tick leaves the pace of an active round alone, or ends the round. -/
theorem Paced.moved (h : Paced setup t began s.round.elapsed i alarm)
    (hint : 1 ≤ setup.rules.tickInterval) (hactive : s.round.phase = .active) {round : Round}
    {orders : List TimerOrder} {report : Option Report}
    (hm : Round.Moves setup.rules setup.wording s.round e round orders report)
    (hload : ∀ problems, e ≠ .load problems) (htick : ∀ generation, e ≠ .tick generation)
    (hend : e ≠ .teardown) :
    (round.phase = .active ∧ Paced setup (t.moved setup round orders) began round.elapsed i alarm) ∨
      (round.phase = .completed ∧ round.elapsed =
        ((t.moved setup round orders).clock.now - began) / setup.rules.tickInterval) := by
  have ended : ∀ round : Round, s.round.elapsed =
      ((t.moved setup round Round.stopAll).clock.now - began) / setup.rules.tickInterval := by
    intro round
    obtain ⟨clock, hs, hg⟩ := moved_stopAll setup t round
    rw [hs]
    show _ = (clock.now - began) / _
    rw [hg.1.now_eq]
    exact h.seconds_eq hint
  have completed : ∀ (problems : List Problem) (report : Report),
      (s.round.finished problems report).phase = .completed :=
    fun _ _ => Round.phase_eq_completed_iff.mpr rfl
  cases hm with
  | load problems => exact absurd rfl (hload problems)
  | tick _ => exact absurd rfl (htick _)
  | teardown => exact absurd rfl hend
  | retry hphase =>
    rw [hactive] at hphase
    cases hphase
  | submit id answer p _ _ _ =>
    obtain ⟨hc, hne⟩ := Round.phase_eq_active_iff.mp hactive
    refine .inl ⟨Round.phase_eq_active_iff.mpr ⟨hc, ?_⟩, h.scheduled _ _⟩
    exact mt Round.answerFirst_eq_nil_iff.mp hne
  | finish given report _ _ _ => exact .inr ⟨completed _ _, ended _⟩
  | advanceToEnd order report _ _ _ _ _ => exact .inr ⟨completed _ _, ended _⟩
  | advance order _ _ _ => exact .inl ⟨hactive, h.unordered _⟩
  | back _ _ => exact .inl ⟨hactive, h.unordered _⟩
  | forward _ _ => exact .inl ⟨hactive, h.unordered _⟩

/-- **What doing a task does to the seconds of a round that does not begin over**: they are still
those that the time since it began has room for, also when the round ends. -/
theorem Paced.done (h : Paced setup s began s.round.elapsed i alarm) (hl : Linked s)
    (hd : Disciplined s) (hq : Quiet s (task :: rest)) (hopen : s.disposed = false)
    (hactive : s.round.phase = .active) (hint : 1 ≤ setup.rules.tickInterval)
    (hring : ∀ handle, task ≠ .ring handle)
    (hload : ∀ t problems, s.intake task ≠ .event t (.load problems) [])
    (hp : perform setup task s = .done s' first) (hle : s.clock.now ≤ s'.clock.now) :
    .retire ∈ first ∨
      (s'.round.phase = .active ∧ ∃ alarm, Paced setup s' began s'.round.elapsed i alarm) ∨
      (s'.round.phase = .completed ∧
        s'.round.elapsed = (s'.clock.now - began) / setup.rules.tickInterval) := by
  -- nothing reaches the round
  have aside : ∀ u : Sitting, u.round = s.round → Paced setup u began s.round.elapsed i alarm →
      u.Alike s' → s'.round.phase = .active ∧ ∃ alarm, Paced setup s' began s'.round.elapsed i alarm
      := by
    intro u hround hpaced heq
    rw [heq.round_eq, hround]
    exact ⟨hactive, alarm, hpaced.of_alike heq⟩
  -- an event other than a tick reaches the round
  have event : ∀ {t : Sitting} {e : Event} {after : List Task}, s.intake task = .event t e after →
      t.round = s.round → Paced setup t began s.round.elapsed i alarm →
      (∀ generation, e ≠ .tick generation) → .retire ∈ first ∨
        (s'.round.phase = .active ∧ ∃ alarm, Paced setup s' began s'.round.elapsed i alarm) ∨
        (s'.round.phase = .completed ∧
          s'.round.elapsed = (s'.clock.now - began) / setup.rules.tickInterval) := by
    intro t e after hi hround hpaced htick
    rcases hq.done_of_event hi hopen hp with ⟨heq, -⟩ | ⟨round, orders, report, hm, heq, hmem⟩
    · exact .inr (.inl (aside t hround hpaced heq))
    · rcases (takesUp_of_intake hi).elapse_of_event with ⟨-, -, rfl, -⟩ | ⟨hend, -⟩
      · exact .inl (hmem _ List.mem_cons_self)
      · have hnext := hpaced.moved hint hactive hm (fun ps he => ?_) htick hend
        · right
          rw [heq.round_eq, heq.clock_eq, moved_round]
          exact hnext.imp_left fun ⟨hphase, hmoved⟩ => ⟨hphase, alarm, hmoved.of_alike heq⟩
        · subst he
          cases takesUp_of_intake hi with
          | sheet _ _ => exact hload _ _ hi
          | copy _ => exact hload _ _ hi
  rcases intake_cases s task with ⟨handle, clock, after, hs⟩ | ⟨target, rfl, hnone, -⟩ | hi
  · have hbrings := hd.brings hl hs
    cases hs with
    | outOfTurn => exact absurd rfl (hring handle)
    | @inTurn target due _ hnext =>
      obtain ⟨b, hb⟩ := Clock.earliest?_eq_some_iff.mp hnext
      generalize hi : s.intake (.elapse target) = taken at hbrings
      cases hbrings with
      | nothing hnot => exact absurd ⟨b, hb.at_position, hb.running⟩ hnot
      | tick _ hticker =>
        have hhandle : handle = i := Option.some.inj (hticker.symm.trans h.ticker_eq)
        subst hhandle
        have hpaced := h.rung hnext hint
        rcases hq.done_of_event hi hopen hp with ⟨-, ho⟩ | ⟨round, orders, report, hm, heq, -⟩
        · rw [(Round.Moves.tick hactive).outcome_eq] at ho
          cases ho
        · cases hm with
          | tick _ =>
            refine .inr (.inl ?_)
            rw [heq.round_eq]
            exact ⟨hactive, _, (hpaced.unordered _).of_alike heq⟩
      | @advance n order _ hmem _ _ _ =>
        have hdue : s.clock.now ≤ due := now_of_next hnext hp ▸ hle
        exact event hi rfl (h.rung_of_pending hnext hmem hdue) nofun
  · rw [perform_elapse_of_none hnone] at hp
    cases hp
    have harrive := h.arrive hnone hle
    exact .inr (.inl (aside { s with clock := { s.clock with now := target } } rfl harrive
      (.refl _)))
  · cases htaken : s.intake task with
    | aside u after =>
      rw [htaken] at hi
      rw [perform, htaken] at hp
      cases hp
      exact .inr (.inl (aside s rfl h hi))
    | event u e after =>
      rw [htaken] at hi
      obtain ⟨halike, -, htick⟩ := hi
      exact event htaken halike.round_eq (h.of_alike halike) htick
    | rest u outcome entries =>
      cases takesUp_of_intake htaken
      exact absurd List.mem_cons_self (hq.not_held _ _)
    | failed u fault =>
      rw [perform, htaken] at hp
      cases hp

/-! ## Rounds that begin -/

/-- What begins a round starts its ticker, and its seconds with it; without problems nothing
begins. -/
theorem begins_of_restarts (hr : Restarts a) (htasks : a.tasks = task :: rest)
    (hc : a.state.CopyMade) (hq : Quiet a.state (task :: rest))
    (hint : 1 ≤ setup.rules.tickInterval)
    (hne : a.state.round.phase = .completed → a.state.round.problems ≠ [])
    (hp : perform setup task a.state = .done s' first) :
    s'.round.phase = .loading ∨ (s'.round.phase = .active ∧
      ∃ i alarm, Paced setup s' s'.clock.now s'.round.elapsed i alarm) := by
  have begun : ∀ {t : Sitting} {round : Round} {generation : Int}, round.phase = .active →
      round.elapsed = 0 →
      (t.moved setup round (Round.stopAll ++ [.startTicker generation])).Alike s' →
      s'.round.phase = .active ∧
        ∃ i alarm, Paced setup s' s'.clock.now s'.round.elapsed i alarm := by
    intro t round generation hphase helapsed heq
    obtain ⟨i, alarm, hpaced, hnow⟩ := Paced.restarted t round generation hint
    rw [heq.round_eq, heq.clock_eq, moved_round, hnow, helapsed]
    exact ⟨hphase, i, alarm, hpaced.of_alike heq⟩
  rcases hr with haccepted | ⟨⟨rest', htasks'⟩, hopen, hphase⟩
  · obtain ⟨problems, hproblems⟩ := Option.ne_none_iff_exists'.mp haccepted
    obtain ⟨hopen, t, hi, -⟩ := intake_of_accepted hc htasks hproblems
    rcases hq.done_of_event hi hopen hp with ⟨-, ho⟩ | ⟨round, orders, report, hm, heq, -⟩
    · cases ho
    · cases hm with
      | load problems =>
        by_cases hnil : problems = []
        · subst hnil
          left
          rw [heq.round_eq, moved_round]
          rfl
        · right
          rw [if_neg (by simpa using hnil)] at heq
          exact begun (Round.phase_eq_active_iff.mpr ⟨rfl, by simpa using hnil⟩) rfl heq
  · cases htasks.symm.trans htasks'
    have hi : a.state.intake (.move .retry) = .event a.state .retry [] := rfl
    rcases hq.done_of_event hi hopen hp with ⟨-, ho⟩ | ⟨round, orders, report, hm, heq, -⟩
    · rw [(Round.Moves.retry hphase).outcome_eq] at ho
      cases ho
    · cases hm with
      | retry _ =>
        right
        exact begun (Round.phase_eq_active_iff.mpr ⟨rfl, by simpa using hne hphase⟩) rfl heq

/-- A task that lets no other round begin loads nothing. -/
theorem not_load_of_not_restarts (hr : ¬ Restarts a) (htasks : a.tasks = task :: rest) (t : Sitting)
    (problems : List Problem) (after : List Task) :
    a.state.intake task ≠ .event t (.load problems) after := by
  intro hi
  apply hr
  left
  cases takesUp_of_intake hi with
  | sheet hd hs => simp [accepted, htasks, hd, hs]
  | copy hd => simp [accepted, htasks, hd]

/-- A round that is not active stays as it is until another begins or the sitting ends. -/
theorem round_eq_of_not_restarts (hr : ¬ Restarts a) (htasks : a.tasks = task :: rest)
    (hq : Quiet a.state (task :: rest)) (hopen : a.state.disposed = false)
    (hidle : a.state.round.phase ≠ .active) (hp : perform setup task a.state = .done s' first) :
    .retire ∈ first ∨ s'.round = a.state.round := by
  cases hi : a.state.intake task with
  | aside t after =>
    rw [perform, hi] at hp
    cases hp
    exact .inr (takesUp_of_intake hi).taken_of_aside.1.spared.round_eq
  | failed t fault =>
    rw [perform, hi] at hp
    cases hp
  | rest t outcome entries =>
    cases takesUp_of_intake hi
    exact absurd List.mem_cons_self (hq.not_held _ _)
  | event t e after =>
    rcases hq.done_of_event hi hopen hp with ⟨heq, -⟩ | ⟨round, orders, report, hm, -, hmem⟩
    · exact .inr (heq.round_eq.trans (takesUp_of_intake hi).taken_of_event.1.spared.round_eq)
    · cases hm with
      | load problems => exact absurd hi (not_load_of_not_restarts hr htasks t problems after)
      | retry hphase =>
        cases takesUp_of_intake hi with
        | retry => exact absurd (.inr ⟨⟨rest, htasks⟩, hopen, hphase⟩) hr
      | teardown =>
        cases takesUp_of_intake hi with
        | dispose _ => exact .inl (hmem _ List.mem_cons_self)
      | submit _ _ _ hactive _ _ => exact absurd hactive hidle
      | finish _ _ hactive _ _ => exact absurd hactive hidle
      | advanceToEnd _ _ hactive _ _ _ _ => exact absurd hactive hidle
      | advance _ hactive _ _ => exact absurd hactive hidle
      | back hactive _ => exact absurd hactive hidle
      | forward hactive _ => exact absurd hactive hidle
      | tick hactive => exact absurd hactive hidle

/-! ## The seconds of a round -/

variable (setup) in
/-- The seconds of the round are those since it began, or those from its beginning to its end. -/
structure OnTime (past : List (Agenda Sitting Task Fault)) (s : Sitting) : Prop where
  active : s.round.phase = .active → ∃ began i alarm,
    past.findSome? (beginning? setup) = some began ∧ Paced setup s began s.round.elapsed i alarm
  completed : s.round.phase = .completed → ∃ began ended,
    past.findSome? (beginning? setup) = some began ∧ past.findSome? (ending? setup) = some ended ∧
    s.round.elapsed = (ended - began) / setup.rules.tickInterval

theorem OnTime.of_idle (h : OnTime setup past a.state) (hover : a.tasks = []) :
    OnTime setup (a :: past) a.state := by
  have hbegin : beginning? setup a = none := by
    refine if_neg fun hb => ?_
    rcases hb.1 with haccepted | ⟨⟨rest, htasks⟩, -⟩
    · exact haccepted (by rw [accepted, hover])
    · rw [hover] at htasks
      cases htasks
  have hend : ending? setup a = none := by
    refine if_neg fun he => ?_
    have hphase := he.2
    rw [Agenda.step, hover, he.1] at hphase
    cases hphase
  constructor
  · rw [List.findSome?_cons, hbegin]
    exact h.active
  · rw [List.findSome?_cons, List.findSome?_cons, hbegin, hend]
    exact h.completed

/-- Doing a task keeps a round on time, unless it ends the sitting. -/
theorem OnTime.done (h : OnTime setup past a.state) (ho : Orderly setup a.state a.tasks)
    (hd : Disciplined a.state) (hq : Quiet a.state a.tasks) (hc : a.state.CopyMade)
    (hopen : a.state.disposed = false) (hint : 1 ≤ setup.rules.tickInterval)
    (hclock : ByTheClock setup a) (htasks : a.tasks = task :: rest)
    (hp : perform setup task a.state = .done s' first) :
    .retire ∈ first ∨ OnTime setup (a :: past) s' := by
  have hstep : (a.step (perform setup)).state = s' := by
    rw [Agenda.step_of_tasks htasks, hp, Verdict.agenda]
  by_cases hr : Restarts a
  · right
    have hne : a.state.round.phase = .completed → a.state.round.problems ≠ [] :=
      fun hphase => ho.steady.round.problems_ne_nil (Round.phase_eq_completed_iff.mp hphase)
    rcases begins_of_restarts hr htasks hc (htasks ▸ hq) hint hne hp with hphase |
      ⟨hphase, i, alarm, hpaced⟩
    · exact ⟨fun hactive => by simp [hphase] at hactive, fun hdone => by simp [hphase] at hdone⟩
    · refine ⟨fun _ => ⟨s'.clock.now, i, alarm, ?_, hpaced⟩, fun hdone => by simp [hphase] at hdone⟩
      have hbegin : beginning? setup a = some s'.clock.now := by
        rw [beginning?, if_pos ⟨hr, hstep ▸ hphase⟩, hstep]
      rw [List.findSome?_cons, hbegin]
  · have hbegin : beginning? setup a = none := if_neg fun hb => hr hb.1
    by_cases hactive : a.state.round.phase = .active
    · obtain ⟨began, i, alarm, hfirst, hpaced⟩ := h.active hactive
      have hring : ∀ handle, task ≠ .ring handle := by
        rintro handle rfl
        have hnot := hclock.in_turn _ (htasks ▸ List.mem_cons_self)
        cases hnot
      have hle : a.state.clock.now ≤ s'.clock.now := hstep ▸ hclock.onward
      rcases hpaced.done ho.linked hd (htasks ▸ hq) hopen hactive hint hring
        (fun t ps => not_load_of_not_restarts hr htasks t ps []) hp hle with
        hretire | ⟨hphase, alarm, hpaced⟩ | ⟨hphase, helapsed⟩
      · exact .inl hretire
      · refine .inr ⟨fun _ => ⟨began, i, alarm, ?_, hpaced⟩, fun hdone => by simp [hphase] at hdone⟩
        rw [List.findSome?_cons, hbegin]
        exact hfirst
      · refine .inr ⟨fun hnot => by simp [hphase] at hnot, fun _ => ⟨began, s'.clock.now, ?_, ?_,
          helapsed⟩⟩
        · rw [List.findSome?_cons, hbegin]
          exact hfirst
        · have hend : ending? setup a = some s'.clock.now := by
            rw [ending?, if_pos ⟨hactive, hstep ▸ hphase⟩, hstep]
          rw [List.findSome?_cons, hend]
    · have hend : ending? setup a = none := if_neg fun he => hactive he.1
      rcases round_eq_of_not_restarts hr htasks (htasks ▸ hq) hopen hactive hp with hretire | hround
      · exact .inl hretire
      · right
        constructor
        · exact fun hnot => absurd (hround ▸ hnot) hactive
        · rw [List.findSome?_cons, List.findSome?_cons, hbegin, hend, hround]
          exact h.completed

/-- **The seconds of a round are exact.** An active round counts the whole tick intervals since it
began, a completed one those from its beginning to its end, a tick that is due at the moment of the
end included; nothing that was set for an earlier round counts. The listeners may act from inside
their calls as they like, as long as none gives up, alarms ring in their turn only and the clock is
never put back; the wording does not act on the sitting. -/
theorem Reachable.elapsed_exact {sheets : Table (List Problem)}
    {onResult onChange : List (List Move)} (hcancel : setup.honoursCancel = true)
    (hwording : setup.wording.Willing) (hint : 1 ≤ setup.rules.tickInterval)
    (hcalm : ∀ m ∈ (Sitting.opening sheets onResult onChange).scripted, m.Calm)
    (h : Reachable setup (opening sheets onResult onChange) past a)
    (hclock : ∀ b ∈ past, ByTheClock setup b) (hopen : ¬ Ending a) :
    (a.state.round.phase = .active → ∃ began, past.findSome? (beginning? setup) = some began ∧
      a.state.round.elapsed = (a.state.clock.now - began) / setup.rules.tickInterval) ∧
    (a.state.round.phase = .completed → ∃ began ended,
      past.findSome? (beginning? setup) = some began ∧
      past.findSome? (ending? setup) = some ended ∧
      a.state.round.elapsed = (ended - began) / setup.rules.tickInterval) := by
  suffices (a.state.disposed = true ∨ .retire ∈ a.tasks) ∨ OnTime setup past a.state by
    have hon := this.resolve_left hopen
    refine ⟨fun hactive => ?_, hon.completed⟩
    obtain ⟨began, i, alarm, hfirst, hpaced⟩ := hon.active hactive
    exact ⟨began, hfirst, hpaced.seconds_eq hint⟩
  refine h.guided (P := fun past s tasks =>
    (s.disposed = true ∨ .retire ∈ tasks) ∨ OnTime setup past s) hclock ?_ ?_ ?_
  · refine .inr ⟨fun hactive => ?_, fun hdone => ?_⟩
    · exact absurd rfl (Round.phase_eq_active_iff.mp hactive).2
    · cases Round.phase_eq_completed_iff.mp hdone
  · rintro past b task hover hon -
    rcases hon with (hover' | hmem) | hon
    · exact .inl (.inl hover')
    · exact absurd hmem List.not_mem_nil
    · exact .inr (hon.of_idle hover)
  · intro past b hreach hclock hon
    have ho := hreach.orderly hcancel hwording (.opening hcalm)
    cases htasks : b.tasks with
    | nil =>
      rw [htasks] at hon
      rw [Agenda.step_of_idle htasks, htasks]
      exact hon.imp_right fun hon => hon.of_idle htasks
    | cons task rest =>
      rw [htasks] at hon
      rw [Agenda.step_of_tasks htasks]
      cases hp : perform setup task b.state with
      | failed s' fault => exact ((htasks ▸ ho).not_failed hwording (does_of_perform hp)).elim
      | done s' first =>
        by_cases hending : b.state.disposed = true ∨ .retire ∈ task :: rest
        · exact .inl (ending_done hending hp)
        · obtain ⟨hopen, hstay⟩ := not_or.mp hending
          have hd : Disciplined b.state := ho.disciplined hopen (htasks ▸ hstay)
          have hcopy : b.state.CopyMade := hreach.copyMade copyMade_opening
          rcases (hon.resolve_left hending).done ho hd (hreach.quiet rfl) hcopy
            (by simpa using hopen) hint hclock htasks hp with hretire | hnext
          · exact .inl (.inr (List.mem_append_left rest hretire))
          · exact .inr hnext

/-- The only problem is handed in half a second after the opening and answered at once. Two seconds
later the round ends, at the moment of the second tick, which still counts. -/
theorem elapsed_exact_at_end :
    ∃ past a began ended, Reachable { rules := { advanceDelay := 2000 } }
        (opening (Table.insert {} "sums" [{ id := 1, text := "2 + 3" }]) [] []) past a ∧
      a.tasks = [] ∧ a.state.round.phase = .completed ∧
      past.findSome? (beginning? { rules := { advanceDelay := 2000 } }) = some began ∧
      past.findSome? (ending? { rules := { advanceDelay := 2000 } }) = some ended ∧
      began = 500 ∧ ended = 2500 ∧ a.state.round.elapsed = (ended - began) / 1000 ∧
      a.state.round.elapsed = 2 := by
  have opened : Reachable { rules := { advanceDelay := 2000 } } (opening
      (Table.insert {} "sums" [{ id := 1, text := "2 + 3" }]) [] []) [] _ := .start
  have later := (opened.call (m := .wait 500) rfl trivial).step.step
  have shown := (later.call (m := .present "sums" false) rfl trivial).step.step
  have answered := (shown.call (m := .submit 1 5.0) (List.isEmpty_iff.mp (by decide +kernel))
    trivial).step.step
  have ended := (answered.call (m := .wait 2000) (List.isEmpty_iff.mp (by decide +kernel))
    trivial).step.step.step.step.step.step.step.step
  obtain ⟨began, stopped, hbegan, hstopped, helapsed⟩ :=
    (ended.elapsed_exact rfl (fun _ => ⟨_, rfl⟩) (by decide)
      (fun m hm => absurd hm List.not_mem_nil) (by decide +kernel)
      (not_ending_of_idle (by decide +kernel) (List.isEmpty_iff.mp (by decide +kernel)))).2
      (by decide +kernel)
  refine ⟨_, _, began, stopped, ended, List.isEmpty_iff.mp (by decide +kernel), by decide +kernel,
    hbegan, hstopped, ?_, ?_, helapsed, by decide +kernel⟩
  · exact Option.some.inj (hbegan.symm.trans (by decide +kernel))
  · exact Option.some.inj (hstopped.symm.trans (by decide +kernel))

end Sitting

end TimedQuiz
