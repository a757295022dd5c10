import TimedQuiz.Proofs.Sitting.Timers

/-!
# A sitting and its echo

The echo of a sitting is the same sitting with alarms that ring although they are cancelled. They
were all set for something that is past by then, so that only their notices tell the two apart.

* `Entry.isAudible` — the entries other than the notices of what came too late;
* `Purpose.IsPast` — what an alarm was set for has no effect any more;
* `Dated` — no alarm was set for a generation that is yet to come;
* `Echo` — the clocks and journals of a sitting and its echo;
* `Matches` — doing a task comes to the same in both.

Main statements: `perform_matches` — a task comes to the same, unless time is to pass;
`elapse_matches` — when time passes, it comes to the same, or the echo hears an alarm of its own.
-/

namespace TimedQuiz

/-- The entry is not the notice of something that came too late. -/
def Entry.isAudible : Entry → Bool
  | .notice (.staleAdvance _) => false
  | .notice (.staleTick _) => false
  | _ => true

namespace Setup

/-- The same, and alarms that are cancelled do not ring. -/
def honouring (setup : Setup) : Setup := { setup with honoursCancel := true }

/-- The same, and alarms ring although they are cancelled. -/
def ignoring (setup : Setup) : Setup := { setup with honoursCancel := false }

end Setup

namespace Purpose

/-- The generation of the round that an alarm was set for. -/
def generation : Purpose → Int
  | .advance _ order => order.generation
  | .tick generation => generation

/-- What the alarm was set for has no effect any more, and an advance is no longer pending. -/
def IsPast (round : Round) (pending : List (Nat × Nat)) (x : Purpose) : Prop :=
  round.Supersedes x.generation ∧ ∀ number order, x = .advance number order →
    ∀ p ∈ pending, p.1 ≠ number

theorem IsPast.mono {round round' : Round} {pending pending' : List (Nat × Nat)} {x : Purpose}
    (h : x.IsPast round pending) (hround : round.Follows round')
    (hpending : ∀ p ∈ pending', p ∈ pending) : x.IsPast round' pending' :=
  ⟨hround.supersedes h.1, fun number order hx p hp => h.2 number order hx p (hpending p hp)⟩

end Purpose

namespace Sitting

variable {setup : Setup} {s : Sitting} {clock clock' : Clock Purpose}
  {journal journal' : List Entry} {round round' : Round} {pending pending' : List (Nat × Nat)}

/-! ## Dated alarms -/

/-- No alarm was set for a generation that is yet to come. -/
def Dated (s : Sitting) : Prop := ∀ x ∈ s.clock.purposes, x.generation ≤ s.round.generation

theorem Dated.taken {s' : Sitting} (h : s.Dated) (ht : s.Taken s') : s'.Dated := by
  unfold Dated
  rw [ht.spared.purposes_eq, ht.spared.round_eq]
  exact h

theorem Dated.moved (h : s.Dated) {e : Event} {orders : List TimerOrder} {report : Option Report}
    (hm : Round.Moves setup.rules setup.wording s.round e round orders report) (setup' : Setup) :
    (s.moved setup' round orders).Dated := by
  obtain ⟨c, p, n, k, hframe⟩ := moved_frame setup' s round orders
  have hround : (s.moved setup' round orders).round = round := by rw [hframe]
  intro x hx
  rw [hround]
  rcases mem_purposes_foldl hx with hx | ⟨number, order, rfl, hmem⟩ | ⟨generation, rfl, hmem⟩
  · exact Int.le_trans (h x hx) hm.follows.le
  · rw [hm.eq_of_mem_orders hmem]
    exact hm.follows.le
  · rcases hm.orders_cases with rfl | rfl | ⟨more, rfl, rfl | rfl, -⟩
    · cases hmem
    · simp at hmem
    · simp [Round.stopAll] at hmem
    · simp only [Round.stopAll, List.mem_append, List.mem_cons, List.not_mem_nil, reduceCtorEq,
        TimerOrder.startTicker.injEq, or_false, false_or] at hmem
      exact Int.le_of_eq hmem

/-! ## The alarms of an echo -/

/-- The second alarm is the first, or it goes on where that one was given up, for something past. -/
structure Shadows (round : Round) (pending : List (Nat × Nat)) (a b : Alarm Purpose) : Prop where
  payload_eq : a.payload = b.payload
  same_or : a = b ∨ (a.running = false ∧ (b.running = true → b.payload.IsPast round pending))

theorem Shadows.refl (a : Alarm Purpose) : Shadows round pending a a := ⟨rfl, .inl rfl⟩

/-- The clocks and journals of a sitting and its echo, but for the time. -/
structure Echo (round : Round) (pending : List (Nat × Nat)) (clock clock' : Clock Purpose)
    (journal journal' : List Entry) : Prop where
  length_eq : clock.alarms.length = clock'.alarms.length
  shadows : ∀ (i : Nat) (a b : Alarm Purpose), clock.alarms[i]? = some a →
    clock'.alarms[i]? = some b → Shadows round pending a b
  audible_eq : journal.filter Entry.isAudible = journal'.filter Entry.isAudible

namespace Echo

theorem refl (clock : Clock Purpose) (journal : List Entry) :
    Echo round pending clock clock journal journal := by
  refine ⟨rfl, fun i a b ha hb => ?_, rfl⟩
  rw [ha] at hb
  cases hb
  exact .refl a

theorem mono (h : Echo round pending clock clock' journal journal') (hround : round.Follows round')
    (hpending : ∀ p ∈ pending', p ∈ pending) :
    Echo round' pending' clock clock' journal journal' := by
  refine ⟨h.length_eq, fun i a b ha hb => ?_, h.audible_eq⟩
  obtain ⟨hpay, hsame⟩ := h.shadows i a b ha hb
  exact ⟨hpay, hsame.imp_right fun hs => ⟨hs.1, fun hrun => (hs.2 hrun).mono hround hpending⟩⟩

theorem record (h : Echo round pending clock clock' journal journal') (entries : List Entry) :
    Echo round pending clock clock' (entries ++ journal) (entries ++ journal') :=
  ⟨h.length_eq, h.shadows, by rw [List.filter_append, List.filter_append, h.audible_eq]⟩

/-- An alarm is set on both clocks, at the same time. -/
theorem set (h : Echo round pending clock clock' journal journal') (hnow : clock.now = clock'.now)
    (rec : Recurrence) (interval : Int) (x : Purpose) :
    Echo round pending (clock.set rec interval x) (clock'.set rec interval x) journal journal' := by
  refine ⟨by simp [Clock.set, h.length_eq], fun i a b ha hb => ?_, h.audible_eq⟩
  rcases Clock.getElem?_set_eq_some_iff.mp ha with ha | ⟨hi, rfl⟩
  · rcases Clock.getElem?_set_eq_some_iff.mp hb with hb | ⟨hi, rfl⟩
    · exact h.shadows i a b ha hb
    · have hlt := (List.getElem?_eq_some_iff.mp ha).1
      exact absurd (hi.trans h.length_eq.symm) (Nat.ne_of_lt hlt)
  · rcases Clock.getElem?_set_eq_some_iff.mp hb with hb | ⟨-, rfl⟩
    · have hlt := (List.getElem?_eq_some_iff.mp hb).1
      exact absurd (hi.trans h.length_eq) (Nat.ne_of_lt hlt)
    · rw [hnow]
      exact .refl _

/-- An alarm is set for a new advance, whose number is that of no other. -/
theorem schedule (h : Echo round pending clock clock' journal journal')
    (hnow : clock.now = clock'.now) {number handle : Nat}
    (hlt : ∀ n order, .advance n order ∈ clock.purposes → n < number) (interval : Int)
    (order : Advance) :
    Echo round (pending ++ [(number, handle)]) (clock.set .once interval (.advance number order))
      (clock'.set .once interval (.advance number order)) journal journal' := by
  have hold : Echo round (pending ++ [(number, handle)]) clock clock' journal journal' := by
    refine ⟨h.length_eq, fun i a b ha hb => ?_, h.audible_eq⟩
    obtain ⟨hpay, hsame⟩ := h.shadows i a b ha hb
    refine ⟨hpay, hsame.imp_right fun hs => ⟨hs.1, fun hrun => ?_⟩⟩
    obtain ⟨hgen, hnumber⟩ := hs.2 hrun
    refine ⟨hgen, fun n o hx p hp => ?_⟩
    rcases List.mem_append.mp hp with hp | hp
    · exact hnumber n o hx p hp
    · rw [List.mem_singleton.mp hp]
      have hmem : .advance n o ∈ clock.purposes := hx ▸ hpay ▸ Clock.mem_purposes ha
      exact (Nat.ne_of_lt (hlt n o hmem)).symm
  exact hold.set hnow .once interval _

/-- The alarms that are given up on the first clock only are past. -/
theorem mute (h : Echo round pending clock clock' journal journal') {muted : Clock Purpose}
    (hmuted : clock.Muted muted)
    (hlevel : ∀ (i : Nat) (a : Alarm Purpose), clock.alarms[i]? = some a → a.Level)
    (hround : round.Follows round')
    (hpast : ∀ x ∈ clock.purposes, round'.Supersedes x.generation) :
    Echo round' [] muted clock' journal journal' := by
  have hlen : muted.alarms.length = clock.alarms.length := by
    have := congrArg List.length hmuted.purposes_eq
    rwa [Clock.length_purposes, Clock.length_purposes] at this
  refine ⟨hlen.trans h.length_eq, fun i a' b ha' hb => ?_, h.audible_eq⟩
  rcases hmuted.alarm_cases i with heq | heq
  · exact (h.mono hround (fun _ hp => absurd hp List.not_mem_nil)).shadows i a' b (heq ▸ ha') hb
  · rw [heq] at ha'
    obtain ⟨a, ha, rfl⟩ := Option.map_eq_some_iff.mp ha'
    have hpay := (h.shadows i a b ha hb).payload_eq
    refine ⟨(Alarm.cancel_payload a).trans hpay, .inr ⟨(hlevel i a ha).cancel.2, fun _ => ?_⟩⟩
    exact ⟨hpay ▸ hpast _ (Clock.mem_purposes ha), fun _ _ _ _ hp => absurd hp List.not_mem_nil⟩

end Echo

/-! ## Events in a sitting and its echo -/

/-- Doing a task comes to the same in a sitting and its echo. -/
inductive Matches : Verdict Sitting Task Fault → Verdict Sitting Task Fault → Prop
  | done {s : Sitting} {clock : Clock Purpose} {journal : List Entry} {first : List Task} :
      Echo s.round s.pending s.clock clock s.journal journal → s.clock.now = clock.now →
      Matches (.done s first) (.done { s with clock, journal } first)
  | failed {s : Sitting} {clock : Clock Purpose} {journal : List Entry} {fault : Fault} :
      Echo s.round s.pending s.clock clock s.journal journal → s.clock.now = clock.now →
      Matches (.failed s fault) (.failed { s with clock, journal } fault)

theorem Matches.andThen {v w : Verdict Sitting Task Fault} (h : Matches v w) (after : List Task) :
    Matches (v.andThen after) (w.andThen after) := by
  cases h with
  | done he hnow => exact .done he hnow
  | failed he hnow => exact .failed he hnow

/-- The timers of a sitting and its echo are set right. -/
theorem moved_echo (h : Echo s.round s.pending s.clock clock s.journal journal)
    (hnow : s.clock.now = clock.now) (hlinked : Linked s) (hdated : s.Dated) {e : Event}
    {orders : List TimerOrder} {report : Option Report}
    (hm : Round.Moves setup.rules setup.wording s.round e round orders report) :
    ∃ clock', { s with clock, journal }.moved setup.ignoring round orders =
        { s.moved setup.honouring round orders with clock := clock', journal } ∧
      Echo round (s.moved setup.honouring round orders).pending
        (s.moved setup.honouring round orders).clock clock' s.journal journal ∧
      (s.moved setup.honouring round orders).clock.now = clock'.now := by
  have hlen : clock.nextHandle = s.clock.nextHandle := h.length_eq.symm
  rcases hm.orders_cases with rfl | rfl | ⟨more, rfl, hmore, hpast⟩
  · exact ⟨clock, rfl, h.mono hm.follows (fun _ => id), hnow⟩
  · refine ⟨clock.set .once setup.rules.advanceDelay (.advance s.nextAdvance s.round.nextAdvance),
      ?_, ?_, hnow⟩
    · simp only [moved, List.foldl_cons, List.foldl_nil, carryOut, scheduleAdvance, hlen]
      rfl
    · exact (h.mono hm.follows (fun _ => id)).schedule hnow hlinked.numbers_lt _ _
  · have hall : ∀ x ∈ s.clock.purposes, round.Supersedes x.generation :=
      fun x hx => hpast _ (hdated x hx)
    rcases hmore with rfl | rfl
    · rw [List.append_nil]
      obtain ⟨muted, hs, hg⟩ := moved_stopAll setup.honouring s round
      obtain ⟨same, ht, hg'⟩ := moved_stopAll setup.ignoring { s with clock, journal } round
      rw [hs, ht, hg'.2 rfl]
      exact ⟨clock, rfl, h.mute hg.1 hlinked.level hm.follows hall, hg.1.now_eq.trans hnow⟩
    · obtain ⟨muted, hs, hg⟩ := moved_restart setup.honouring s round round.generation
      obtain ⟨same, ht, hg'⟩ := moved_restart setup.ignoring { s with clock, journal } round
        round.generation
      have hecho := h.mute hg.1 hlinked.level hm.follows hall
      have hnow' : muted.now = clock.now := hg.1.now_eq.trans hnow
      have hhandle : clock.nextHandle = muted.nextHandle := hecho.length_eq.symm
      rw [hs, ht, hg'.2 rfl]
      exact ⟨_, by rw [hhandle]; rfl, hecho.set hnow' _ _ _, hnow'⟩

/-- What an event comes to takes the same effect. -/
theorem effect_matches (h : Echo s.round s.pending s.clock clock s.journal journal)
    (hnow : s.clock.now = clock.now) (hlinked : Linked s) (hdated : s.Dated) (e : Event) :
    Matches
      (s.effect setup.honouring (s.round.next setup.rules setup.wording e).outcome)
      ({ s with clock, journal }.effect setup.ignoring
        (s.round.next setup.rules setup.wording e).outcome) := by
  cases ho : (s.round.next setup.rules setup.wording e).outcome with
  | error fault => exact .failed h hnow
  | ok t =>
    cases t with
    | ignored => exact .done h hnow
    | moved r orders report =>
      obtain ⟨clock', hm, hecho, hnow'⟩ := moved_echo h hnow hlinked hdated (Round.moves_of_next ho)
      obtain ⟨c, p, n, k, hframe⟩ := moved_frame setup.honouring s r orders
      have hround : (s.moved setup.honouring r orders).round = r := by rw [hframe]
      have hjournal : (s.moved setup.honouring r orders).journal = s.journal := by rw [hframe]
      rw [← hjournal] at hecho
      have hleft : orders.foldl (carryOut setup.honouring) { s with round := r } =
          s.moved setup.honouring r orders := rfl
      have hright : orders.foldl (carryOut setup.ignoring) { s with clock, journal, round := r } =
          { s with clock, journal }.moved setup.ignoring r orders := rfl
      simp only [effect, settle, hleft, hright, hm]
      generalize s.moved setup.honouring r orders = t at hround hecho hnow'
      subst hround
      cases report with
      | none => exact .done hecho hnow'
      | some report =>
        have honour : setup.honouring.tellsResults = setup.tellsResults := rfl
        have ignore : setup.ignoring.tellsResults = setup.tellsResults := rfl
        simp only [handOut, honour, ignore]
        split
        · exact .done (hecho.record [.result report, .notice _]) hnow'
        · exact .done (hecho.record [.notice _]) hnow'

/-- An event does the same to the round. -/
theorem react_matches (h : Echo s.round s.pending s.clock clock s.journal journal)
    (hnow : s.clock.now = clock.now) (hlinked : Linked s) (hdated : s.Dated)
    (hsilent : s.onWording = []) (e : Event) :
    Matches (s.react setup.honouring e) ({ s with clock, journal }.react setup.ignoring e) := by
  by_cases hd : s.disposed = true
  · rw [react, react, if_pos hd, if_pos hd]
    exact .done h hnow
  · have hopen : s.disposed = false := by simpa using hd
    rw [react_of_silent setup.honouring hsilent hopen,
      react_of_silent (s := { s with clock, journal }) setup.ignoring hsilent hopen]
    exact effect_matches (s := s.record _) (h.record _) hnow
      (hlinked.of_eq rfl rfl rfl rfl) hdated e

/-- What a task comes to that brings an event to the round. -/
theorem pursue_event_matches (h : Echo s.round s.pending s.clock clock s.journal journal)
    (hnow : s.clock.now = clock.now) (hlinked : Linked s) (hdated : s.Dated)
    (hsilent : s.onWording = []) (e : Event) (after : List Task) :
    Matches (pursue setup.honouring (.event s e after))
      (pursue setup.ignoring (.event { s with clock, journal } e after)) :=
  (react_matches h hnow hlinked hdated hsilent e).andThen after

theorem pursue_present_matches (h : Echo s.round s.pending s.clock clock s.journal journal)
    (hnow : s.clock.now = clock.now) (hlinked : Linked s) (hdated : s.Dated)
    (hsilent : s.onWording = []) (source : Source) (problems : List Problem) :
    Matches (pursue setup.honouring (s.present source problems))
      (pursue setup.ignoring ({ s with clock, journal }.present source problems)) := by
  unfold present
  split
  · exact .done h hnow
  · exact pursue_event_matches (s := { s with source := some source }) h hnow
      (hlinked.of_eq rfl rfl rfl rfl) hdated hsilent _ _

/-- **A task comes to the same in a sitting and its echo**, unless time is to pass. -/
theorem perform_matches (setup : Setup) (h : Echo s.round s.pending s.clock clock s.journal journal)
    (hnow : s.clock.now = clock.now) (hlinked : Linked s) (hdated : s.Dated)
    (hsilent : s.onWording = []) {task : Task} (hplain : task.Plain)
    (helapse : ∀ target, task ≠ .elapse target) :
    Matches (perform setup.honouring task s)
      (perform setup.ignoring task { s with clock, journal }) := by
  have event : ∀ e after, Matches (pursue setup.honouring (.event s e after))
      (pursue setup.ignoring (.event { s with clock, journal } e after)) :=
    pursue_event_matches h hnow hlinked hdated hsilent
  cases hplain with
  | move m =>
    cases m with
    | present name copied =>
      cases copied with
      | false => exact pursue_present_matches h hnow hlinked hdated hsilent _ _
      | true =>
        exact pursue_present_matches (s := { s with copies := s.copies + 1 }) h hnow
          (hlinked.of_eq rfl rfl rfl rfl) hdated hsilent _ _
    | extend name problem => exact .done (s := { s with sheets := _ }) h hnow
    | submit id answer =>
      simp only [perform, intake, make]
      split
      · exact event _ _
      · exact .done h hnow
    | back => exact event _ _
    | forward => exact event _ _
    | finish => exact event _ _
    | retry => exact event _ _
    | dispose =>
      simp only [perform, intake, make]
      split
      · exact .done h hnow
      · exact event _ _
    | enable value => exact .done (s := { s with enabled := value }) h hnow
    | wait milliseconds =>
      simp only [perform, intake, make, hnow]
      exact .done h hnow
    | giveUp message => exact .failed h hnow
  | announce =>
    exact .done (s := { s.record [.shown s.round] with onChange := s.onChange.tail })
      (h.record [.shown s.round]) hnow
  | retire => exact .done (s := { s with disposed := true }) h hnow
  | elapse target => exact absurd rfl (helapse target)

/-! ## Alarms in a sitting and its echo -/

namespace Echo

variable {target due : Int} {i : Nat}

theorem exists_shadowed (h : Echo round pending clock clock' journal journal') {b : Alarm Purpose}
    (hb : clock'.alarms[i]? = some b) : ∃ a, clock.alarms[i]? = some a := by
  have hlt := (List.getElem?_eq_some_iff.mp hb).1
  exact ⟨_, List.getElem?_eq_getElem (h.length_eq ▸ hlt)⟩

/-- An alarm that runs in a sitting runs in its echo. -/
theorem of_running (h : Echo round pending clock clock' journal journal') {a : Alarm Purpose}
    (ha : clock.alarms[i]? = some a) (hrun : a.running = true) : clock'.alarms[i]? = some a := by
  have hlt := (List.getElem?_eq_some_iff.mp ha).1
  have hb := List.getElem?_eq_getElem (l := clock'.alarms) (i := i) (h.length_eq ▸ hlt)
  rcases (h.shadows i a _ ha hb).same_or with heq | ⟨hstopped, -⟩
  · rw [hb, heq]
  · rw [hrun] at hstopped
    cases hstopped

theorem earliest?_eq_none (h : Echo round pending clock clock' journal journal')
    (hnone : clock'.earliest? target = none) : clock.earliest? target = none :=
  Clock.earliest?_eq_none_iff.mpr fun i a ha hrun =>
    Clock.earliest?_eq_none_iff.mp hnone i a (h.of_running ha hrun) hrun

/-- The alarm that rings next in an echo rings next in the sitting, or is past. -/
theorem earliest?_cases (h : Echo round pending clock clock' journal journal')
    (hsome : clock'.earliest? target = some (i, due)) :
    (clock.earliest? target = some (i, due) ∧ clock.alarms[i]? = clock'.alarms[i]?) ∨
    ∃ a b, clock.alarms[i]? = some a ∧ clock'.alarms[i]? = some b ∧ a.running = false ∧
      b.payload.IsPast round pending := by
  obtain ⟨b, hb⟩ := Clock.earliest?_eq_some_iff.mp hsome
  obtain ⟨a, ha⟩ := h.exists_shadowed hb.at_position
  rcases (h.shadows i a b ha hb.at_position).same_or with rfl | ⟨hstopped, hpast⟩
  · refine .inl ⟨Clock.earliest?_eq_some_iff.mpr ⟨a, { hb with at_position := ha, first := ?_ }⟩,
      ha.trans hb.at_position.symm⟩
    exact fun j x hx hrun => hb.first j x (h.of_running hx hrun) hrun
  · exact .inr ⟨a, b, ha, hb.at_position, hstopped, hpast hb.running⟩

/-- The same alarm rings in a sitting and its echo. -/
theorem ring (due : Int) (h : Echo round pending clock clock' journal journal')
    (heq : clock.alarms[i]? = clock'.alarms[i]?) :
    Echo round pending (clock.ring i due).1 (clock'.ring i due).1 journal journal' := by
  refine ⟨by simp [Clock.ring, Clock.signal, h.length_eq], fun j a b ha hb => ?_, h.audible_eq⟩
  rw [Clock.getElem?_ring] at ha hb
  split at ha
  · rename_i hij
    subst hij
    rw [if_pos rfl, ← heq, ha] at hb
    cases hb
    exact .refl a
  · rename_i hij
    rw [if_neg hij] at hb
    exact h.shadows j a b ha hb

/-- An alarm rings in the echo only. -/
theorem ring_past (due : Int) (h : Echo round pending clock clock' journal journal')
    {a b : Alarm Purpose} (ha : clock.alarms[i]? = some a) (hb : clock'.alarms[i]? = some b)
    (hstopped : a.running = false) (hpast : b.payload.IsPast round pending) :
    Echo round pending clock (clock'.ring i due).1 journal journal' := by
  refine ⟨by simp [Clock.ring, Clock.signal, h.length_eq], fun j x y hx hy => ?_, h.audible_eq⟩
  rw [Clock.getElem?_ring] at hy
  split at hy
  · rename_i hij
    subst hij
    rw [ha] at hx
    rw [hb] at hy
    cases hx
    cases hy
    have hpay : b.elapse.signal.payload = b.payload := by simp
    refine ⟨(h.shadows i a b ha hb).payload_eq.trans hpay.symm, .inr ⟨hstopped, fun _ => ?_⟩⟩
    rw [hpay]
    exact hpast
  · exact h.shadows j x y hx hy

end Echo

/-- What is heard of an alarm in a sitting and its echo comes to the same. -/
theorem hear_matches {x : Purpose} (h : Echo s.round s.pending clock clock' s.journal journal)
    (hnow : clock.now = clock'.now)
    (hlinked : Linked { s.withHeard clock x with journal := s.journal })
    (hdated : Dated { s.withHeard clock x with journal := s.journal })
    (hsilent : s.onWording = []) (after : List Task) :
    Matches (pursue setup.honouring (s.hear after (clock, some x)))
      (pursue setup.ignoring
        ({ s with clock := clock', journal }.hear after (clock', some x))) := by
  cases x with
  | advance number order =>
    have hecho : Echo s.round (s.pending.filter fun p => p.1 != number) clock clock' s.journal
        journal := h.mono (.refl s.round) fun _ hp => (List.mem_filter.mp hp).1
    simp only [hear, deliver]
    split
    · exact .done (s := { s with clock, pending := _ }.record [_]) (hecho.record [_]) hnow
    · exact pursue_event_matches (s := { s with clock, pending := _ }) hecho hnow hlinked hdated
        hsilent _ _
  | tick generation =>
    simp only [hear, deliver]
    split
    · exact .done (s := { s with clock }.record [_]) (h.record [_]) hnow
    · exact pursue_event_matches (s := { s with clock }) h hnow hlinked hdated hsilent _ _

/-- An alarm for something past leaves nothing but a notice, if that. -/
theorem pursue_deliver_of_isPast (setup : Setup) (hsilent : s.onWording = []) {x : Purpose}
    (hpast : x.IsPast s.round s.pending) (clock : Clock Purpose) (after : List Task) :
    ∃ late, late.filter Entry.isAudible = [] ∧
      pursue setup ({ s with clock }.deliver after x) =
        .done { s with clock, journal := late ++ s.journal } after := by
  have hheard : s.withHeard clock x = { s with clock } := by
    cases x with
    | advance number order =>
      have hfilter : s.pending.filter (fun p => p.1 != number) = s.pending :=
        List.filter_eq_self.mpr fun p hp => bne_iff_ne.mpr (hpast.2 number order rfl p hp)
      simp only [withHeard, hfilter]
    | tick generation => rfl
  have ignored : ∀ e, s.round.next setup.rules setup.wording e = pure .ignored →
      pursue setup (.event { s with clock } e after) = .done { s with clock } after := by
    intro e he
    simp only [pursue]
    by_cases hd : s.disposed = true
    · rw [react, if_pos hd]
      rfl
    · rw [react_of_silent (s := { s with clock }) setup hsilent (by simpa using hd)]
      simp only [he]
      rfl
  rcases deliver_eq s clock after x with h | ⟨number, order, rfl, -, h⟩ | ⟨rfl, h⟩
  · refine ⟨[.notice (lateNotice x)], by cases x <;> rfl, ?_⟩
    rw [h, hheard]
    rfl
  · refine ⟨[], rfl, ?_⟩
    rw [h, hheard]
    exact ignored _ (Round.next_advance_of_supersedes hpast.1)
  · refine ⟨[], rfl, ?_⟩
    rw [h, hheard]
    exact ignored _ (Round.next_tick_of_supersedes hpast.1)

/-- **When time passes, it comes to the same in a sitting and its echo**, or the echo hears an alarm
of its own and nothing follows from it. -/
theorem elapse_matches (setup : Setup) (h : Echo s.round s.pending s.clock clock s.journal journal)
    (hlinked : Linked s) (hdated : s.Dated) (hsilent : s.onWording = []) (target : Int) :
    Matches (perform setup.honouring (.elapse target) s)
        (perform setup.ignoring (.elapse target) { s with clock, journal }) ∨
      ∃ clock' journal', perform setup.ignoring (.elapse target) { s with clock, journal } =
          .done { s with clock := clock', journal := journal' } [.elapse target] ∧
        Echo s.round s.pending s.clock clock' s.journal journal' := by
  cases hnext : clock.earliest? target with
  | none =>
    left
    rw [perform_elapse_of_none (h.earliest?_eq_none hnext),
      perform_elapse_of_none (s := { s with clock, journal }) hnext]
    exact .done (s := { s with clock := { s.clock with now := target } })
      ⟨h.length_eq, h.shadows, h.audible_eq⟩ rfl
  | some next =>
    obtain ⟨i, due⟩ := next
    rw [perform_elapse_of_next (s := { s with clock, journal }) hnext]
    rcases h.earliest?_cases hnext with ⟨hsame, halarm⟩ | ⟨a, b, ha, hb, hstopped, hpast⟩
    · left
      have hring := h.ring due halarm
      rw [perform_elapse_of_next hsame, halarm]
      cases hx : clock.alarms[i]?.bind Alarm.heard with
      | none => exact .done (s := { s with clock := (s.clock.ring i due).1 }) hring rfl
      | some x =>
        have htaken : s.Taken { s.withHeard (s.clock.ring i due).1 x with journal := s.journal } :=
          .heard (.inTurn due) (halarm ▸ hx)
        exact hear_matches hring rfl (hlinked.taken htaken) (hdated.taken htaken) hsilent _
    · right
      cases hx : clock.alarms[i]?.bind Alarm.heard with
      | none => exact ⟨_, journal, rfl, h.ring_past due ha hb hstopped hpast⟩
      | some x =>
        rw [hb, Option.bind_some] at hx
        obtain ⟨-, rfl⟩ := Alarm.heard_eq_some_iff.mp hx
        obtain ⟨late, hlate, hdeliver⟩ := pursue_deliver_of_isPast setup.ignoring
          (s := { s with clock, journal }) hsilent hpast (clock.ring i due).1 [.elapse target]
        have hecho := h.ring_past due ha hb hstopped hpast
        refine ⟨_, _, hdeliver, hecho.length_eq, hecho.shadows, ?_⟩
        rw [List.filter_append, hlate]
        exact h.audible_eq

end Sitting

end TimedQuiz
