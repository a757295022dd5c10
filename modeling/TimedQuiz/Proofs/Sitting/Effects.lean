import TimedQuiz.Proofs.Sitting.Discipline
import TimedQuiz.Proofs.Sitting.Silent

/-!
# What doing a task does to the round and its timers

As long as the timers are in order, an alarm that rings is the ticker or that of a pending advance,
of the round as it stands, and its event is never too late; any other alarm rings unheard. No other
task touches the timers before an event takes effect.

* `Alike` — two sittings with the same round and the same timers;
* `Brings` — what a task comes to that makes an alarm ring.

Main statements: `Disciplined.brings`; `intake_cases` — a task makes an alarm ring, or time moves on
to its target, or the round and the timers are as they were before an event takes effect;
`done_of_event` — an event is ignored, moves the round, or is held up.
-/

namespace TimedQuiz.Sitting

variable {setup : Setup} {s s' t : Sitting} {task : Task} {after first rest : List Task} {e : Event}
  {handle : Nat} {clock : Clock Purpose}

/-- Two sittings have the same round and the same timers. -/
structure Alike (s s' : Sitting) : Prop where
  round_eq : s'.round = s.round
  clock_eq : s'.clock = s.clock
  ticker_eq : s'.ticker = s.ticker
  pending_eq : s'.pending = s.pending

theorem Alike.refl (s : Sitting) : s.Alike s := ⟨rfl, rfl, rfl, rfl⟩

/-! ## What a task comes to -/

/-- An alarm that rings is heard, or not. -/
theorem Strikes.intake_eq (h : s.Strikes task handle clock after) :
    s.intake task = s.hear after (clock, s.clock.alarms[handle]?.bind Alarm.heard) := by
  cases h with
  | @inTurn target due _ hnext =>
    have hrung : s.clock.ring handle due =
        ((s.clock.ring handle due).1, s.clock.alarms[handle]?.bind Alarm.heard) := by
      rw [← Clock.ring_heard s.clock handle due]
    simp only [intake, elapse, hnext]
    rw [hrung]
  | outOfTurn => rfl

/-- What an alarm that rings brings, where the timers are in order. -/
inductive Brings (s : Sitting) (handle : Nat) (clock : Clock Purpose) (after : List Task) :
    Intake → Prop
  /-- The alarm does not run, and nobody listens. -/
  | nothing : ¬ s.clock.Runs handle → Brings s handle clock after (.aside { s with clock } after)
  | tick : s.round.phase = .active → s.ticker = some handle →
      Brings s handle clock after (.event { s with clock } (.tick s.round.generation) after)
  | advance {n : Nat} {order : Advance} : s.round.phase = .active → (n, handle) ∈ s.pending →
      s.clock.purposes[handle]? = some (.advance n order) →
      order.generation = s.round.generation → order.count = s.round.size →
      Brings s handle clock after
        (.event (s.withHeard clock (.advance n order)) (.advance order) after)

/-- **An alarm that rings is the ticker or that of a pending advance**, and its event comes in
time. -/
theorem Disciplined.brings (h : Disciplined s) (hl : Linked s)
    (hs : s.Strikes task handle clock after) : s.Brings handle clock after (s.intake task) := by
  rw [hs.intake_eq]
  cases hx : s.clock.alarms[handle]?.bind Alarm.heard with
  | none =>
    refine .nothing ?_
    rintro ⟨a, ha, hrun⟩
    have harmed : a.armed = true := (hl.level handle a ha).trans hrun
    simp [ha, Alarm.heard, harmed] at hx
  | some x =>
    obtain ⟨a, ha, hheard⟩ := Option.bind_eq_some_iff.mp hx
    obtain ⟨harmed, hpay⟩ := Alarm.heard_eq_some_iff.mp hheard
    have hrun : a.running = true := (hl.level handle a ha).symm.trans harmed
    have hpurpose : s.clock.purposes[handle]? = some x := by
      rw [Clock.purposes, List.getElem?_map, ha, ← hpay]
      rfl
    have active : s.ticker = some handle ∨ (∃ n, (n, handle) ∈ s.pending) →
        s.round.phase = .active := by
      intro htimer
      by_contra hidle
      obtain ⟨hticker, hpending⟩ := h.idle hidle
      rcases htimer with hsome | ⟨n, hmem⟩
      · rw [hticker] at hsome
        cases hsome
      · rw [hpending] at hmem
        cases hmem
    cases x with
    | tick generation =>
      have hrec := (hl.repeats_iff handle a ha).mpr ⟨generation, hpay⟩
      have hticker := (hl.ticker_iff handle).mpr ⟨a, ha, hrec, hrun⟩
      have hactive := active (.inl hticker)
      obtain ⟨i, hi, hgen⟩ := h.active hactive
      rw [hticker] at hi
      cases hi
      rw [hpurpose] at hgen
      cases hgen
      rw [hear, deliver, if_neg (not_not_intro rfl)]
      exact .tick hactive hticker
    | advance n order =>
      have hmem := hl.pending_of_heard hx
      obtain ⟨order', ho, hgen, hcount, -⟩ := h.orders n handle hmem
      rw [hpurpose] at ho
      cases ho
      have hdeliver : { s with clock }.deliver after (.advance n order) =
          .event (s.withHeard clock (.advance n order)) (.advance order) after := by
        simp [deliver, withHeard, hgen]
      rw [hear, hdeliver]
      exact .advance (active (.inr ⟨n, hmem⟩)) hmem hpurpose hgen hcount

/-- The round and the timers are as they were, and no alarm has rung. -/
def Untimed (s : Sitting) : Intake → Prop
  | .aside s' _ => s.Alike s'
  | .event s' e _ => s.Alike s' ∧ (∀ order, e ≠ .advance order) ∧ ∀ generation, e ≠ .tick generation
  | .rest s' _ _ => s' = s
  | .failed s' _ => s' = s

/-- **A task makes an alarm ring, or time moves on to its target, or the round and the timers are as
they were** before an event takes effect. -/
theorem intake_cases (s : Sitting) (task : Task) :
    (∃ handle clock after, s.Strikes task handle clock after) ∨
      (∃ target, task = .elapse target ∧ s.clock.earliest? target = none ∧
        s.intake task = .aside { s with clock := { s.clock with now := target } } []) ∨
      s.Untimed (s.intake task) := by
  have htakes := s.intake_takesUp task
  generalize hi : s.intake task = i at htakes ⊢
  cases htakes with
  | arrive hnone => exact .inr (.inl ⟨_, rfl, hnone, rfl⟩)
  | unheard hs _ => exact .inl ⟨_, _, _, hs⟩
  | late hs _ => exact .inl ⟨_, _, _, hs⟩
  | advance hs _ _ => exact .inl ⟨_, _, _, hs⟩
  | tick hs _ => exact .inl ⟨_, _, _, hs⟩
  | sheet _ _ => exact .inr (.inr ⟨⟨rfl, rfl, rfl, rfl⟩, nofun, nofun⟩)
  | copy _ => exact .inr (.inr ⟨⟨rfl, rfl, rfl, rfl⟩, nofun, nofun⟩)
  | passedOver _ => exact .inr (.inr ⟨rfl, rfl, rfl, rfl⟩)
  | extend => exact .inr (.inr ⟨rfl, rfl, rfl, rfl⟩)
  | submit _ => exact .inr (.inr ⟨.refl s, nofun, nofun⟩)
  | refused _ => exact .inr (.inr (.refl s))
  | back => exact .inr (.inr ⟨.refl s, nofun, nofun⟩)
  | forward => exact .inr (.inr ⟨.refl s, nofun, nofun⟩)
  | finish => exact .inr (.inr ⟨.refl s, nofun, nofun⟩)
  | retry => exact .inr (.inr ⟨.refl s, nofun, nofun⟩)
  | dispose _ => exact .inr (.inr ⟨.refl s, nofun, nofun⟩)
  | disposed _ => exact .inr (.inr (.refl s))
  | enable value => exact .inr (.inr ⟨rfl, rfl, rfl, rfl⟩)
  | wait milliseconds => exact .inr (.inr (.refl s))
  | giveUp message => exact .inr (.inr rfl)
  | announce => exact .inr (.inr ⟨rfl, rfl, rfl, rfl⟩)
  | retire => exact .inr (.inr ⟨rfl, rfl, rfl, rfl⟩)
  | conclude outcome entries => exact .inr (.inr rfl)

/-- A list of problems that is accepted is loaded, with the timers as they are. -/
theorem intake_of_accepted {a : Agenda Sitting Task Fault} {problems : List Problem}
    (hc : a.state.CopyMade) (htasks : a.tasks = task :: rest) (h : accepted a = some problems) :
    a.state.disposed = false ∧ ∃ t, a.state.intake task = .event t (.load problems) [] ∧
      a.state.Alike t ∧ t.enabled = a.state.enabled := by
  unfold accepted at h
  rw [htasks] at h
  split at h
  · rename_i name copied _ heq
    cases heq
    split at h
    · cases h
    · rename_i hpass
      cases h
      obtain ⟨hd, hsource⟩ := not_or.mp hpass
      have hopen : a.state.disposed = false := by simpa using hd
      refine ⟨hopen, ?_⟩
      cases copied with
      | false =>
        refine ⟨{ a.state with source := some (.sheet name) }, ?_, ⟨rfl, rfl, rfl, rfl⟩, rfl⟩
        simp only [intake, make, present]
        rw [if_neg]
        simpa [hopen] using hsource
      | true =>
        have hnew : a.state.source ≠ some (.copy a.state.copies) :=
          fun heq => Nat.lt_irrefl _ (hc _ heq)
        refine ⟨{ a.state with
          source := some (.copy a.state.copies), copies := a.state.copies + 1 }, ?_,
          ⟨rfl, rfl, rfl, rfl⟩, rfl⟩
        simp only [intake, make, present]
        rw [if_neg]
        simpa [hopen] using hnew
  · cases h

/-! ## What an event leaves behind -/

theorem moved_round (setup : Setup) (s : Sitting) (round : Round) (orders : List TimerOrder) :
    (s.moved setup round orders).round = round := by
  obtain ⟨c, p, n, k, hm⟩ := moved_frame setup s round orders
  rw [hm]

/-- What is put on record and handed out besides leaves the round and the timers alone. -/
theorem alike_afterMove (setup : Setup) (s : Sitting) (entries : List Entry) (round : Round)
    (orders : List TimerOrder) (report : Option Report) :
    (s.moved setup round orders).Alike
      ((s.record entries).afterMove setup round orders report) := by
  have hmoved : (s.record entries).moved setup round orders =
      { s.moved setup round orders with journal := entries.reverse ++ s.journal } :=
    moved_withJournal setup s _ round orders
  rw [afterMove, hmoved]
  exact ⟨rfl, rfl, rfl, rfl⟩

/-- An event takes effect or is held up: it is ignored, or it moves the round and sets the timers
right, or it goes on later. -/
theorem done_of_conclude {outcome : Except Fault Transition} {entries : List Entry}
    (h : s.conclude setup outcome entries = .done s' first) :
    (s.Alike s' ∧ outcome = .ok .ignored) ∨
      (∃ round orders report, outcome = .ok (.moved round orders report) ∧
        (s.moved setup round orders).Alike s') ∨
      (s.Alike s' ∧ s.onWording ≠ [] ∧ ∃ before key later,
        entries = before ++ .asked key :: later ∧ .conclude outcome later ∈ first) := by
  rcases conclude_cases setup s outcome entries with ⟨journal, heq⟩ | ⟨journal, before, key, later,
    moves, left, hentries, hw, heq⟩
  · rw [heq] at h
    cases outcome with
    | error fault => cases h
    | ok transition =>
      cases transition with
      | ignored =>
        cases h
        exact .inl ⟨⟨rfl, rfl, rfl, rfl⟩, rfl⟩
      | moved round orders report =>
        obtain ⟨journal', onResult, moves, heffect, -⟩ :=
          effect_moved setup { s with journal } round orders report
        rw [heffect, moved_withJournal] at h
        cases h
        exact .inr (.inl ⟨round, orders, report, rfl, rfl, rfl, rfl, rfl⟩)
  · rw [heq] at h
    cases h
    exact .inr (.inr ⟨⟨rfl, rfl, rfl, rfl⟩, by simp [hw], before, key, later, hentries, by simp⟩)

/-- **An event is ignored, moves the round, or is held up**, as long as the sitting is not over. -/
theorem done_of_event (hi : s.intake task = .event t e after) (hopen : s.disposed = false)
    (hp : perform setup task s = .done s' first) :
    (t.Alike s' ∧ (s.round.next setup.rules setup.wording e).outcome = .ok .ignored) ∨
      (∃ round orders report,
        Round.Moves setup.rules setup.wording s.round e round orders report ∧
        (t.moved setup round orders).Alike s' ∧ ∀ x ∈ after, x ∈ first) ∨
      (t.Alike s' ∧ s.onWording ≠ [] ∧ ∃ before key later,
        (s.round.next setup.rules setup.wording e).entries = before ++ .asked key :: later ∧
        .conclude (s.round.next setup.rules setup.wording e).outcome later ∈ first) := by
  obtain ⟨ht, -, hdisposed⟩ := (takesUp_of_intake hi).taken_of_event
  have hreact : t.react setup e = t.conclude setup
      (s.round.next setup.rules setup.wording e).outcome
      (s.round.next setup.rules setup.wording e).entries := by
    rw [react, if_neg (by simp [hdisposed, hopen]), ht.spared.round_eq]
  rw [perform, hi, pursue, hreact] at hp
  cases hc : t.conclude setup (s.round.next setup.rules setup.wording e).outcome
      (s.round.next setup.rules setup.wording e).entries with
  | failed u fault =>
    rw [hc] at hp
    cases hp
  | done u tasks =>
    rw [hc] at hp
    cases hp
    rcases done_of_conclude hc with ⟨heq, ho⟩ | ⟨round, orders, report, ho, heq⟩ | ⟨heq, hw, before,
      key, later, hentries, hmem⟩
    · exact .inl ⟨heq, ho⟩
    · exact .inr (.inl ⟨round, orders, report, Round.moves_of_next ho, heq,
        fun x hx => List.mem_append_right tasks hx⟩)
    · exact .inr (.inr ⟨heq, ht.spared.onWording_eq ▸ hw, before, key, later, hentries,
        List.mem_append_left after hmem⟩)

/-- Where the wording asks nothing back, no event is held up. -/
theorem Quiet.done_of_event (hq : Quiet s (task :: rest)) (hi : s.intake task = .event t e after)
    (hopen : s.disposed = false) (hp : perform setup task s = .done s' first) :
    (t.Alike s' ∧ (s.round.next setup.rules setup.wording e).outcome = .ok .ignored) ∨
      ∃ round orders report,
        Round.Moves setup.rules setup.wording s.round e round orders report ∧
        (t.moved setup round orders).Alike s' ∧ ∀ x ∈ after, x ∈ first := by
  rcases Sitting.done_of_event hi hopen hp with hignored | hmoved | ⟨-, hw, -⟩
  · exact .inl hignored
  · exact .inr hmoved
  · exact absurd hq.silent hw

end TimedQuiz.Sitting
