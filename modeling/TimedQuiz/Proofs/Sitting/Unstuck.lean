import TimedQuiz.Proofs.Sitting.Effects
import TimedQuiz.Proofs.Sitting.Time

/-!
# A round whose last problem is answered comes to its end

As long as only the problem on show is answered, the last problem is answered from the last
position, and the advance that this orders ends the round. Its alarm is given up only together with
the round, and whatever moves the position does not touch it.

* `AnswersShown` — the answer that is about to be given is one to the problem on show;
* `Round.LastAnswered` — the last problem is answered;
* `Decided` — once the last problem is answered, an advance past the last position is pending.

Main statement: `Reachable.closing_pending`.
-/

namespace TimedQuiz

namespace Round

variable {rules : HouseRules} {wording : Wording} {r round : Round}

/-- The last problem is answered. -/
def LastAnswered (r : Round) : Prop := ∃ p ∈ r.problems.getLast?, p.isAnswered = true

instance (r : Round) : Decidable r.LastAnswered :=
  inferInstanceAs (Decidable (∃ p ∈ r.problems.getLast?, p.isAnswered = true))

/-- An answer to a problem leaves alone those after the first with its identity. -/
theorem getElem?_answerFirst_of_lt {id : Int} {answer tolerance : Float} {ps : List Problem}
    {p : Problem} {i j : Nat} (hp : ps[i]? = some p) (hid : p.id = id) (hlt : i < j) :
    (answerFirst id answer tolerance ps)[j]? = ps[j]? := by
  induction ps generalizing i j with
  | nil => rfl
  | cons q qs ih =>
    obtain ⟨k, rfl⟩ := Nat.exists_eq_succ_of_ne_zero (Nat.ne_zero_of_lt hlt)
    rw [answerFirst]
    split
    · rfl
    · rename_i hne
      cases i with
      | zero =>
        cases hp
        exact absurd hid hne
      | succ i => exact ih hp (Nat.lt_of_succ_lt_succ hlt)

/-- What gives the last problem its answer while the problem on show has that identity, is given at
the last position. -/
theorem index_eq_of_lastAnswered {id : Int} {answer : Float} {p : Problem}
    (hwf : r.WellFormed rules wording) (hne : r.problems ≠ [])
    (hshown : r.currentProblem = some p) (hid : p.id = id) (hopen : ¬ r.LastAnswered)
    (hlast : { r with
      problems := answerFirst id answer rules.tolerance r.problems }.LastAnswered) :
    r.index = r.lastIndex := by
  have h0 := hwf.index_nonneg
  have hlt := hwf.index_lt hne
  have hcurrent : r.problems[r.index.toNat]? = some p := by
    rwa [currentProblem, if_pos h0] at hshown
  by_contra hindex
  apply hopen
  obtain ⟨q, hq, hanswered⟩ := hlast
  refine ⟨q, ?_, hanswered⟩
  have hbefore : r.index.toNat < r.problems.length - 1 := by
    simp only [lastIndex, size] at hindex hlt ⊢
    omega
  rw [List.getLast?_eq_getElem?] at hq ⊢
  rwa [length_answerFirst, getElem?_answerFirst_of_lt hcurrent hid hbefore] at hq

end Round

namespace Sitting

variable {setup : Setup} {s s' t : Sitting} {task : Task} {rest first after : List Task} {e : Event}
  {a : Agenda Sitting Task Fault} {past : List (Agenda Sitting Task Fault)}

/-- The identity in the answer that is about to be given, if one is. -/
def answering? : List Task → Option Int
  | .move (.submit id _) :: _ => some id
  | _ => none

/-- The answer that is about to be given, if one is, is an answer to the problem on show. -/
def AnswersShown (a : Agenda Sitting Task Fault) : Prop :=
  ∀ id ∈ answering? a.tasks, ∀ p ∈ a.state.round.currentProblem, id = p.id

instance (a : Agenda Sitting Task Fault) : Decidable (AnswersShown a) :=
  inferInstanceAs (Decidable (∀ id ∈ answering? a.tasks, ∀ p ∈ a.state.round.currentProblem, _))

/-- Once the last problem of an active round is answered, an advance past the last position is
pending. -/
def Decided (s : Sitting) : Prop :=
  s.round.phase = .active → s.round.LastAnswered → ∃ n i order, (n, i) ∈ s.pending ∧
    s.clock.purposes[i]? = some (.advance n order) ∧ order.index = s.round.lastIndex

/-- An event that is held up will end the round. -/
def Closing (outcome : Except Fault Transition) : Prop :=
  ∃ round orders report, outcome = .ok (.moved round orders report) ∧ round.completed = true

theorem Decided.of_alike (h : Decided s) (heq : s.Alike s') : Decided s' := by
  intro hactive hlast
  rw [heq.round_eq] at hactive hlast
  rw [heq.round_eq, heq.clock_eq, heq.pending_eq]
  exact h hactive hlast

theorem decided_of_completed (h : s.round.completed = true) : Decided s := by
  intro hactive
  rw [(Round.phase_eq_active_iff.mp hactive).1] at h
  cases h

/-- An answer to the problem on show decides the round if that is the last one. -/
theorem Decided.submit (h : Decided s) (hwf : s.round.WellFormed setup.rules setup.wording)
    (hactive : s.round.phase = .active) {id : Int} {answer : Float}
    (hshown : ∀ p, s.round.currentProblem = some p → id = p.id) :
    Decided (s.moved setup { s.round with
      problems := Round.answerFirst id answer setup.rules.tolerance s.round.problems }
      [.scheduleAdvance s.round.nextAdvance]) := by
  intro _ hlast
  have hne := (Round.phase_eq_active_iff.mp hactive).2
  have hindex : ({ s.round with
      problems := Round.answerFirst id answer setup.rules.tolerance s.round.problems } :
      Round).lastIndex = s.round.lastIndex := by
    simp [Round.lastIndex, Round.size]
  rw [moved_round] at hlast ⊢
  rw [hindex]
  by_cases hbefore : s.round.LastAnswered
  · obtain ⟨n, i, order, hmem, hi, ho⟩ := h hactive hbefore
    exact ⟨n, i, order, List.mem_append_left _ hmem, Clock.getElem?_purposes_set hi .., ho⟩
  · -- the answer is given at the last position, and orders the advance past it
    obtain ⟨p, hp⟩ : ∃ p, s.round.currentProblem = some p := by
      have h0 := hwf.index_nonneg
      have hlt := hwf.index_lt hne
      rw [Round.currentProblem, if_pos h0]
      exact ⟨_, List.getElem?_eq_getElem (by simp only [Round.size] at hlt; omega)⟩
    exact ⟨s.nextAdvance, s.clock.nextHandle, s.round.nextAdvance,
      List.mem_append_right _ List.mem_cons_self, Clock.getElem?_purposes_set_nextHandle ..,
      Round.index_eq_of_lastAnswered hwf hne hp (hshown p hp).symm hbefore hlast⟩

/-- An event other than an advance or a tick leaves the round decided, unless it ends the
sitting. -/
theorem Decided.moved (h : Decided s) (hwf : s.round.WellFormed setup.rules setup.wording)
    {round : Round} {orders : List TimerOrder} {report : Option Report}
    (hm : Round.Moves setup.rules setup.wording s.round e round orders report)
    (hshown : ∀ id answer, e = .submit id answer →
      ∀ p, s.round.currentProblem = some p → id = p.id)
    (hend : e ≠ .teardown) : Decided (s.moved setup round orders) := by
  have still : ∀ {round : Round}, round.problems = s.round.problems →
      round.phase = s.round.phase → Decided (s.moved setup round []) := by
    intro round hproblems hphase hactive hlast
    have hindex : round.lastIndex = s.round.lastIndex := by
      rw [Round.lastIndex, Round.size, hproblems]
      rfl
    have hlast' : s.round.LastAnswered := by
      obtain ⟨p, hp, hanswered⟩ := hlast
      exact ⟨p, hproblems ▸ hp, hanswered⟩
    obtain ⟨n, i, order, hmem, hi, ho⟩ := h (hphase ▸ hactive) hlast'
    exact ⟨n, i, order, hmem, hi, ho.trans hindex.symm⟩
  have fresh : ∀ {round : Round} {orders : List TimerOrder},
      (∀ p ∈ round.problems, p.isAnswered = false) → Decided (s.moved setup round orders) := by
    rintro round orders hopen - ⟨p, hp, hanswered⟩
    rw [moved_round] at hp
    rw [hopen p (List.mem_of_getLast? hp)] at hanswered
    cases hanswered
  have ended : ∀ {round : Round}, round.completed = true →
      Decided (s.moved setup round Round.stopAll) := by
    intro round hc
    apply decided_of_completed
    rw [moved_round]
    exact hc
  cases hm with
  | load problems =>
    refine fresh fun p hp => ?_
    obtain ⟨q, -, rfl⟩ := List.mem_map.mp hp
    rfl
  | retry _ =>
    refine fresh fun p hp => ?_
    obtain ⟨q, -, rfl⟩ := List.mem_map.mp hp
    rfl
  | submit id answer p hactive _ _ => exact h.submit hwf hactive (hshown id answer rfl)
  | finish given report _ _ _ => exact ended rfl
  | advanceToEnd order report _ _ _ _ _ => exact ended rfl
  | advance order _ _ _ => exact still rfl rfl
  | back _ _ => exact still rfl rfl
  | forward _ _ => exact still rfl rfl
  | tick _ => exact still rfl rfl
  | teardown => exact absurd rfl hend

/-- An alarm that rings leaves the round decided unless it ends the round. -/
theorem Decided.withHeard (h : Decided s) (hl : Linked s) {handle n : Nat} {order : Advance}
    {clock : Clock Purpose} (hs : s.clock.Sounds handle clock) (hmem : (n, handle) ∈ s.pending)
    (hpurpose : s.clock.purposes[handle]? = some (.advance n order))
    (hindex : order.index ≠ s.round.lastIndex) :
    Decided (s.withHeard clock (.advance n order)) := by
  intro hactive hlast
  obtain ⟨m, i, order', hmem', hi, ho⟩ := h hactive hlast
  obtain ⟨order'', hx⟩ := hl.heard_of_pending hmem
  have hne : i ≠ handle := by
    rintro rfl
    rw [hpurpose] at hi
    cases hi
    exact hindex ho
  refine ⟨m, i, order', ?_, ?_, ho⟩
  · have hsame : order'' = order := by
      obtain ⟨alarm, ha, hheard⟩ := Option.bind_eq_some_iff.mp hx
      rw [Clock.purposes, List.getElem?_map, ha, Option.map_some,
        (Alarm.heard_eq_some_iff.mp hheard).2] at hpurpose
      cases hpurpose
      rfl
    subst hsame
    rw [hl.pending_withHeard clock hx]
    exact List.mem_filter.mpr ⟨hmem', by simpa using hne⟩
  · show clock.purposes[i]? = _
    rw [hs.purposes_eq]
    exact hi

/-- **What doing a task does to a decided round**: it stays decided, unless it is about to be ended
or the sitting is ending. -/
theorem Decided.done (h : Decided s) (ho : Orderly setup s (task :: rest)) (hd : Disciplined s)
    (hopen : s.disposed = false) (hwording : setup.wording.Willing)
    (hshown : ∀ id answer p, task = .move (.submit id answer) →
      s.round.currentProblem = some p → id = p.id)
    (hp : perform setup task s = .done s' first) :
    .retire ∈ first ∨ (∃ outcome entries, .conclude outcome entries ∈ first ∧ Closing outcome) ∨
      Decided s' := by
  -- an event that leaves the round to others is ignored, moves the round or is held up
  have event : ∀ {t : Sitting} {e : Event} {after : List Task}, s.intake task = .event t e after →
      Decided t → .retire ∈ first ∨ Decided s' := by
    intro t e after hi ht
    have hround := (takesUp_of_intake hi).taken_of_event.1.spared.round_eq
    rcases done_of_event hi hopen hp with ⟨heq, -⟩ | ⟨round, orders, report, hm, heq, hmem⟩ |
      ⟨heq, -⟩
    · exact .inr (ht.of_alike heq)
    · rcases (takesUp_of_intake hi).elapse_of_event with ⟨-, -, rfl, -⟩ | ⟨hend, -⟩
      · exact .inl (hmem _ List.mem_cons_self)
      · refine .inr ((ht.moved (hround ▸ ho.steady.round) (hround ▸ hm) ?_ hend).of_alike heq)
        rintro id answer rfl p hcurrent
        cases takesUp_of_intake hi with
        | submit _ => exact hshown id answer p rfl hcurrent
    · exact .inr (ht.of_alike heq)
  rcases intake_cases s task with ⟨handle, clock, after, hs⟩ | ⟨target, rfl, hnone, -⟩ | htaken
  · have hbrings := hd.brings ho.linked hs
    generalize hi : s.intake task = taken at hbrings
    cases hbrings with
    | nothing _ =>
      rw [perform, hi] at hp
      cases hp
      refine .inr (.inr fun hactive hlast => ?_)
      show ∃ n i order, (n, i) ∈ s.pending ∧ clock.purposes[i]? = _ ∧ _
      rw [hs.sounds.purposes_eq]
      exact h hactive hlast
    | tick _ _ =>
      refine (event hi fun hactive hlast => ?_).imp_right .inr
      show ∃ n i order, (n, i) ∈ s.pending ∧ clock.purposes[i]? = _ ∧ _
      rw [hs.sounds.purposes_eq]
      exact h hactive hlast
    | @advance n order hactive hmem hpurpose hgen hcount =>
      by_cases hindex : order.index = s.round.lastIndex
      · -- this advance ends the round, at once or as soon as the wording lets it go on
        have hne := (Round.phase_eq_active_iff.mp hactive).2
        obtain ⟨report, hreport⟩ := assess_ok hwording hne
        have hend : Round.Moves setup.rules setup.wording s.round (.advance order) _ _ _ :=
          .advanceToEnd order report hactive hgen
            (by simp only [Round.lastIndex] at hindex; omega) hne hreport
        right
        rcases done_of_event hi hopen hp with ⟨-, hnot⟩ | ⟨round, orders, report', hm, heq, -⟩ |
          ⟨-, -, before, key, later, -, hheld⟩
        · rw [hend.outcome_eq] at hnot
          cases hnot
        · right
          apply decided_of_completed
          have hsame := hm.outcome_eq.symm.trans hend.outcome_eq
          cases hsame
          rw [heq.round_eq, moved_round]
          rfl
        · rw [hend.outcome_eq] at hheld
          exact .inl ⟨_, later, hheld, _, _, _, rfl, rfl⟩
      · exact (event hi (h.withHeard ho.linked hs.sounds hmem hpurpose hindex)).imp_right .inr
  · rw [perform_elapse_of_none hnone] at hp
    cases hp
    exact .inr (.inr h)
  · cases hi : s.intake task with
    | aside t after =>
      rw [hi] at htaken
      rw [perform, hi] at hp
      cases hp
      exact .inr (.inr (h.of_alike htaken))
    | event t e after =>
      rw [hi] at htaken
      exact (event hi (h.of_alike htaken.1)).imp_right .inr
    | failed t fault =>
      rw [perform, hi] at hp
      cases hp
    | rest t outcome entries =>
      cases takesUp_of_intake hi
      right
      right
      rcases done_of_conclude hp with ⟨heq, -⟩ | ⟨round, orders, report, rfl, heq⟩ | ⟨heq, -⟩
      · exact h.of_alike heq
      · apply decided_of_completed
        rw [heq.round_eq, moved_round]
        exact ((ho.held _ _ List.mem_cons_self).2 _ _ _ rfl).1
      · exact h.of_alike heq

/-- An event that is held up and will end the round does so, or is held up again. -/
theorem Closing.done {outcome : Except Fault Transition} {entries : List Entry}
    (h : Closing outcome) (hp : perform setup (.conclude outcome entries) s = .done s' first) :
    (∃ later, .conclude outcome later ∈ first) ∨ Decided s' := by
  obtain ⟨round, orders, report, rfl, hc⟩ := h
  rcases done_of_conclude hp with ⟨-, hignored⟩ | ⟨_, _, _, hmoved, heq⟩ |
    ⟨-, -, -, -, later, -, hmem⟩
  · cases hignored
  · cases hmoved
    right
    apply decided_of_completed
    rw [heq.round_eq, moved_round]
    exact hc
  · exact .inl ⟨later, hmem⟩

/-! ## The advance that ends the round -/

variable (setup) in
/-- The alarm at a position is the one that ends the round: it is that of an advance past the last
position, of the round as it stands, and once it rings the round is completed, unless the wording
acts on the sitting first. -/
structure ClosesRound (s : Sitting) (i : Nat) (alarm : Alarm Purpose) : Prop where
  at_position : s.clock.alarms[i]? = some alarm
  waits : alarm.Waits
  purpose : ∃ n order, alarm.payload = .advance n order ∧
    order.generation = s.round.generation ∧ order.index = s.round.size - 1
  closes : s.onWording = [] → ∀ task clock after, s.Strikes task i clock after →
    ∃ s' first, perform setup task s = .done s' first ∧ s'.round.phase = .completed

/-- The ringing of an alarm for an advance past the last position completes the round. -/
theorem Disciplined.completes (hd : Disciplined s) (hl : Linked s)
    (hwording : setup.wording.Willing) (hopen : s.disposed = false) (hsilent : s.onWording = [])
    {n i : Nat} {order : Advance} (hmem : (n, i) ∈ s.pending)
    (hpurpose : s.clock.purposes[i]? = some (.advance n order))
    (hindex : order.index = s.round.lastIndex) {clock : Clock Purpose}
    (hs : s.Strikes task i clock after) :
    ∃ s' first, perform setup task s = .done s' first ∧ s'.round.phase = .completed := by
  have hbrings := hd.brings hl hs
  generalize hi : s.intake task = taken at hbrings
  cases hbrings with
  | nothing hnot =>
    obtain ⟨alarm, _, ha, hw, -⟩ := (hl.pending_iff n i).mp hmem
    exact absurd ⟨alarm, ha, hw.2⟩ hnot
  | tick _ hticker => exact absurd hticker (hl.ticker_ne_of_pending hmem)
  | advance hactive _ hpurpose' hgen hcount =>
    rw [hpurpose] at hpurpose'
    cases hpurpose'
    have hne := (Round.phase_eq_active_iff.mp hactive).2
    obtain ⟨report, hreport⟩ := assess_ok hwording hne
    have hend : Round.Moves setup.rules setup.wording s.round (.advance order) _ _ _ :=
      .advanceToEnd order report hactive hgen (by simp only [Round.lastIndex] at hindex; omega) hne
        hreport
    refine ⟨_, _, perform_of_moved hi hsilent hopen hend.outcome_eq, ?_⟩
    rw [afterMove_round]
    exact Round.phase_eq_completed_iff.mpr rfl

/-- As long as only the problem on show is answered, every round is decided once its last problem
is answered. -/
theorem Reachable.decided {opening : Sitting} (h : Reachable setup opening past a)
    (hcancel : setup.honoursCancel = true) (hwording : setup.wording.Willing)
    (hstart : Orderly setup opening []) (hround : opening.round = {})
    (hshown : ∀ b ∈ past, AnswersShown b) :
    (a.state.disposed = true ∨ .retire ∈ a.tasks) ∨
      (∃ outcome entries, .conclude outcome entries ∈ a.tasks ∧ Closing outcome) ∨
      Decided a.state := by
  refine h.guided (P := fun _ s tasks => (s.disposed = true ∨ .retire ∈ tasks) ∨
    (∃ outcome entries, .conclude outcome entries ∈ tasks ∧ Closing outcome) ∨ Decided s)
    hshown ?_ ?_ ?_
  · refine .inr (.inr fun hactive => ?_)
    rw [hround] at hactive
    exact absurd rfl (Round.phase_eq_active_iff.mp hactive).2
  · rintro past b task hover ((hdisposed | hretire) | ⟨_, _, hmem, _⟩ | hdecided) -
    · exact .inl (.inl hdisposed)
    · exact absurd hretire List.not_mem_nil
    · exact absurd hmem List.not_mem_nil
    · exact .inr (.inr hdecided)
  · intro past b hreach hshown hP
    have ho := hreach.orderly hcancel hwording hstart
    obtain ⟨s, tasks, fault⟩ := b
    cases tasks with
    | nil => exact hP
    | cons task rest =>
      rw [Agenda.step_cons]
      cases hp : perform setup task s with
      | failed s' fault' => exact (ho.not_failed hwording (does_of_perform hp)).elim
      | done s' first =>
        by_cases hending : s.disposed = true ∨ .retire ∈ task :: rest
        · exact .inl (ending_done hending hp)
        · rcases hP.resolve_left hending with ⟨outcome, entries, hmem, hclosing⟩ | hdecided
          · right
            rcases List.mem_cons.mp hmem with rfl | hmem
            · refine (hclosing.done hp).imp_left fun ⟨later, hheld⟩ => ?_
              exact ⟨outcome, later, List.mem_append_left rest hheld, hclosing⟩
            · exact .inl ⟨outcome, entries, List.mem_append_right first hmem, hclosing⟩
          · obtain ⟨hopen, hstay⟩ := not_or.mp hending
            have hd : Disciplined s := ho.disciplined hopen hstay
            have hnext := hdecided.done ho hd (by simpa using hopen) hwording
              (fun id answer p htask => hshown id (htask ▸ rfl) p) hp
            rcases hnext with hretire | ⟨outcome, entries, hmem, hclosing⟩ | hdecided
            · exact .inl (.inr (List.mem_append_left rest hretire))
            · exact .inr (.inl ⟨outcome, entries, List.mem_append_left rest hmem, hclosing⟩)
            · exact .inr (.inr hdecided)

/-- **A round whose last problem is answered comes to its end**, as long as only the problem on show
is answered: whenever nothing is under way, the alarm runs that ends it, whatever the client, the
listeners and the wording do short of giving up or refusing a text; and it is no further away than
the delay, unless the clock was put back. -/
theorem Reachable.closing_pending {sheets : Table (List Problem)}
    {onResult onChange onWording : List (List Move)} (hcancel : setup.honoursCancel = true)
    (hwording : setup.wording.Willing)
    (hcalm : ∀ m ∈ (Sitting.opening sheets onResult onChange onWording).scripted, m.Calm)
    (h : Reachable setup (opening sheets onResult onChange onWording) past a)
    (hshown : ∀ b ∈ past, AnswersShown b) (hidle : a.tasks = [])
    (hopen : a.state.disposed = false) (hactive : a.state.round.phase = .active)
    (hlast : a.state.round.LastAnswered) :
    ∃ i alarm, ClosesRound setup a.state i alarm ∧ ((∀ b ∈ past, Onward setup b) →
      alarm.due - a.state.clock.now ≤ setup.rules.advanceDelay) := by
  have ho := h.orderly hcancel hwording (.opening hcalm)
  have hover : ¬ a.state.disposed = true := by
    rw [hopen]
    nofun
  have hretire : Task.retire ∉ a.tasks := hidle ▸ List.not_mem_nil
  have hd : Disciplined a.state := ho.disciplined hover hretire
  have hdecided : Decided a.state := by
    rcases h.decided hcancel hwording (.opening hcalm) rfl hshown with hending |
      ⟨_, _, hmem, _⟩ | hdecided
    · exact absurd hending (not_or.mpr ⟨hover, hretire⟩)
    · rw [hidle] at hmem
      cases hmem
    · exact hdecided
  obtain ⟨n, i, order, hmem, hpurpose, hindex⟩ := hdecided hactive hlast
  obtain ⟨alarm, order', ha, hw, hpay⟩ := (ho.linked.pending_iff n i).mp hmem
  have hsame : alarm.payload = .advance n order := by
    rw [Clock.purposes, List.getElem?_map, ha] at hpurpose
    exact Option.some.inj hpurpose
  obtain ⟨order'', hpurpose', hgen, hcount, -⟩ := hd.orders n i hmem
  rw [hpurpose] at hpurpose'
  cases hpurpose'
  refine ⟨i, alarm, ⟨ha, hw, ⟨n, order, hsame, hgen, hindex⟩, fun hsilent task clock after hs =>
    hd.completes ho.linked hwording hopen hsilent hmem hpurpose hindex hs⟩, fun honward => ?_⟩
  have hdue := h.due_le rfl honward ha hw
  omega

/-- The first of two problems is answered while it is on show, and so is the second; then the first
one is put on show again and half a second goes by. -/
theorem closing_pending_after_back :
    ∃ past a, Reachable {} (opening (Table.insert {} "sums" [{ id := 1, text := "2 + 3" },
        { id := 2, text := "4 - 1" }]) [] []) past a ∧
      a.tasks = [] ∧ a.state.round.index = 0 ∧ a.state.round.answeredCount = 2 ∧
      ∃ i alarm, ClosesRound {} a.state i alarm ∧ alarm.due - a.state.clock.now ≤ 1500 := by
  have opened : Reachable {} (opening (Table.insert {} "sums" [{ id := 1, text := "2 + 3" },
      { id := 2, text := "4 - 1" }]) [] []) [] _ := .start
  have shown := (opened.call (m := .present "sums" false) rfl trivial).step.step
  have first := (shown.call (m := .submit 1 5.0) (List.isEmpty_iff.mp (by decide +kernel))
    trivial).step.step
  have moved := (first.call (m := .wait 1500) (List.isEmpty_iff.mp (by decide +kernel))
    trivial).step.step.step.step.step.step
  have second := (moved.call (m := .submit 2 3.0) (List.isEmpty_iff.mp (by decide +kernel))
    trivial).step.step
  have returned := (second.call (m := .back) (List.isEmpty_iff.mp (by decide +kernel))
    trivial).step.step
  have later := (returned.call (m := .wait 500) (List.isEmpty_iff.mp (by decide +kernel))
    trivial).step.step.step.step
  refine ⟨_, _, later, List.isEmpty_iff.mp (by decide +kernel), by decide +kernel,
    by decide +kernel, ?_⟩
  obtain ⟨i, alarm, hcloses, hdue⟩ := later.closing_pending rfl (fun _ => ⟨_, rfl⟩)
    (fun m hm => absurd hm List.not_mem_nil) (by decide +kernel)
    (List.isEmpty_iff.mp (by decide +kernel)) (by decide +kernel) (by decide +kernel)
    (by decide +kernel)
  exact ⟨i, alarm, hcloses, hdue (by decide +kernel)⟩

end Sitting

end TimedQuiz
