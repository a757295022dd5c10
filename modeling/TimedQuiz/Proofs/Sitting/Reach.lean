import TimedQuiz.Proofs.Sitting.Steps

/-!
# What holds at every moment of a sitting

* `Task.Outer` — what comes from outside when nothing is under way;
* `Quiet` — no event is held up, and the wording holds up no more;
* `Undisturbed` — besides, no alarm rings out of turn.

Main statements: `Reachable.invariant` — what holds at the opening, survives a call from outside,
and is kept by all that doing a task can come to, holds at every moment; `Reachable.along` — the
same for what speaks of all that came before; `Reachable.guided` — the same as long as a condition
holds.
-/

namespace TimedQuiz

/-- What comes from outside when nothing is under way: a calm move of the client, or the ringing of
an alarm. -/
inductive Task.Outer : Task → Prop
  | move {m : Move} : m.Calm → Outer (.move m)
  | ring (handle : Nat) : Outer (.ring handle)

/-- A task that comes up where no event is held up and no alarm rings out of turn. -/
inductive Task.Plain : Task → Prop
  | move (m : Move) : Plain (.move m)
  | announce : Plain .announce
  | retire : Plain .retire
  | elapse (target : Int) : Plain (.elapse target)

namespace Sitting

variable {setup : Setup} {opening : Sitting}

/-- What came before was reached. -/
theorem Reachable.before {past : List (Agenda Sitting Task Fault)}
    {a b : Agenda Sitting Task Fault} (h : Reachable setup opening (b :: past) a) :
    Reachable setup opening past b := by
  cases h with
  | call hreach _ _ => exact hreach
  | ring _ hreach _ => exact hreach
  | step hreach => exact hreach

theorem Reachable.of_append {later earlier : List (Agenda Sitting Task Fault)}
    {a b : Agenda Sitting Task Fault} (h : Reachable setup opening (later ++ b :: earlier) a) :
    Reachable setup opening earlier b := by
  induction later generalizing a with
  | nil => exact h.before
  | cons c later ih => exact ih h.before

/-- **What every task keeps holds at every moment.** -/
theorem Reachable.invariant {I : Sitting → List Task → Prop}
    {past : List (Agenda Sitting Task Fault)} {a : Agenda Sitting Task Fault}
    (h : Reachable setup opening past a) (start : I opening [])
    (call : ∀ s task, I s [] → task.Outer → I s [task])
    (done : ∀ s task rest s' first, I s (task :: rest) →
      perform setup task s = .done s' first → I s' (first ++ rest))
    (failed : ∀ s task rest s' fault, I s (task :: rest) →
      perform setup task s = .failed s' fault → I s' []) : I a.state a.tasks := by
  induction h with
  | start => exact start
  | call _ hover hcalm ih =>
    rw [hover] at ih
    exact call _ _ ih (.move hcalm)
  | ring handle _ hover ih =>
    rw [hover] at ih
    exact call _ _ ih (.ring handle)
  | @step past a _ ih =>
    unfold Agenda.step
    split
    · exact ih
    · rename_i task rest htasks
      rw [htasks] at ih
      cases hv : perform setup task a.state with
      | done s' first => exact done _ _ _ _ _ ih hv
      | failed s' fault => exact failed _ _ _ _ _ ih hv

/-- **What holds of the opening, and passes from every moment to what its next task leaves behind,
holds of every moment with all that came before it.** A call from outside leaves the sitting as it
is, and so does a step where nothing is under way. -/
theorem Reachable.along {P : List (Agenda Sitting Task Fault) → Sitting → Prop}
    {past : List (Agenda Sitting Task Fault)} {a : Agenda Sitting Task Fault}
    (h : Reachable setup opening past a) (start : P [] opening)
    (next : ∀ past a, Reachable setup opening past a → P past a.state →
      P (a :: past) (a.step (perform setup)).state) : P past a.state := by
  have idle : ∀ a : Agenda Sitting Task Fault, a.tasks = [] → a.step (perform setup) = a := by
    intro a hover
    rw [Agenda.step, hover]
  induction h with
  | start => exact start
  | @call past a m hreach hover _ ih =>
    have hnext := next past a hreach ih
    rwa [idle a hover] at hnext
  | @ring past a handle hreach hover ih =>
    have hnext := next past a hreach ih
    rwa [idle a hover] at hnext
  | @step past a hreach ih => exact next past a hreach ih

/-- **What passes on from every moment at which a condition holds, holds as long as the condition
does**, with all that came before. -/
theorem Reachable.guided {C : Agenda Sitting Task Fault → Prop}
    {P : List (Agenda Sitting Task Fault) → Sitting → List Task → Prop}
    {past : List (Agenda Sitting Task Fault)} {a : Agenda Sitting Task Fault}
    (h : Reachable setup opening past a) (hC : ∀ b ∈ past, C b) (start : P [] opening [])
    (call : ∀ past a task, a.tasks = [] → P past a.state [] → task.Outer →
      P (a :: past) a.state [task])
    (next : ∀ past a, Reachable setup opening past a → C a → P past a.state a.tasks →
      P (a :: past) (a.step (perform setup)).state (a.step (perform setup)).tasks) :
    P past a.state a.tasks := by
  induction h with
  | start => exact start
  | @call past a m _ hover hcalm ih =>
    have hP := ih fun b hb => hC b (List.mem_cons_of_mem a hb)
    rw [hover] at hP
    exact call past a _ hover hP (.move hcalm)
  | @ring past a handle _ hover ih =>
    have hP := ih fun b hb => hC b (List.mem_cons_of_mem a hb)
    rw [hover] at hP
    exact call past a _ hover hP (.ring handle)
  | @step past a hreach ih =>
    have hP := ih fun b hb => hC b (List.mem_cons_of_mem a hb)
    exact next past a hreach (hC a List.mem_cons_self) hP

theorem does_of_perform {s : Sitting} {task : Task} {v : Verdict Sitting Task Fault}
    (h : perform setup task s = v) : Does setup s task v :=
  h ▸ perform_does s task

/-! ## Tasks that come up -/

section Tasks

variable {s s' : Sitting} {task : Task} {first rest : List Task}

theorem Fresh.ne_conclude (h : s.Fresh task) (outcome : Except Fault Transition)
    (entries : List Entry) : task ≠ .conclude outcome entries := by
  cases h <;> nofun

/-- What holds of the tasks before, of every fresh one and of an event that is being held up holds
of all tasks afterwards. -/
theorem Does.tasks_of {Q : Task → Prop} (hd : Does setup s task (.done s' first))
    (hold : ∀ t ∈ task :: rest, Q t) (hfresh : ∀ t, s.Fresh t → Q t)
    (hheld : ∀ t after x key entries, s.onWording ≠ [] → s.Taken t → Due setup t task after x →
      .asked key ∈ x.entries → Q (.conclude x.outcome entries)) : ∀ t ∈ first ++ rest, Q t := by
  have append : ∀ {first : List Task}, (∀ t ∈ first, s.Fresh t) → ∀ t ∈ first ++ rest, Q t := by
    intro first hall t hmem
    rcases List.mem_append.mp hmem with hmem | hmem
    · exact hfresh t (hall t hmem)
    · exact hold t (List.mem_cons_of_mem task hmem)
  cases hd with
  | aside _ hafter _ => exact append hafter
  | moved _ _ _ hall _ => exact append hall
  | @held u after x before entries key moves _ _ ht hdue hentries hw hafter =>
    intro t hmem
    rw [List.append_assoc, List.mem_append] at hmem
    rcases hmem with hmem | hmem
    · obtain ⟨m, hm, rfl⟩ := List.mem_map.mp hmem
      exact hfresh _ (.move (mem_scripted.mpr (.inr (.inr (hw ▸ List.mem_append_left _ hm)))))
    · rcases List.mem_cons.mp hmem with rfl | hmem
      · exact hheld u after x key entries (by simp [hw]) ht hdue (by simp [hentries])
      · exact append hafter t hmem

/-- The same for what holds of the events that are held up. -/
theorem Does.held_of {P : Except Fault Transition → Prop} (hd : Does setup s task (.done s' first))
    (hold : ∀ outcome entries, .conclude outcome entries ∈ task :: rest → P outcome)
    (hnew : ∀ t after x key, s.onWording ≠ [] → s.Taken t → Due setup t task after x →
      .asked key ∈ x.entries → P x.outcome) :
    ∀ outcome entries, .conclude outcome entries ∈ first ++ rest → P outcome := by
  have hall : ∀ t ∈ first ++ rest, ∀ outcome entries, t = .conclude outcome entries → P outcome :=
    hd.tasks_of (fun t hmem outcome entries heq => hold outcome entries (heq ▸ hmem))
    (fun t hfresh outcome entries heq => absurd heq (hfresh.ne_conclude outcome entries))
    fun t after x key entries hw ht hdue hasked outcome entries' heq => by
      cases heq
      exact hnew t after x key hw ht hdue hasked
  exact fun outcome entries hmem => hall _ hmem outcome entries rfl

/-- The scripts only get shorter. -/
theorem Does.scripted_subset (hd : Does setup s task (.done s' first)) :
    ∀ m ∈ s'.scripted, m ∈ s.scripted := by
  have changes : ∀ {t : Sitting}, s.Taken t → ∀ {m : Move}, m ∈ t.onChange.flatten →
      m ∈ s.onChange.flatten := by
    intro t ht m hm
    rcases ht.spared.onChange_cases with heq | heq
    · exact heq ▸ hm
    · exact mem_flatten_of_tail (heq ▸ hm)
  intro m hm
  rw [mem_scripted] at hm ⊢
  cases hd with
  | aside ht _ _ =>
    rw [ht.spared.onResult_eq, ht.spared.onWording_eq] at hm
    exact hm.imp_right (Or.imp_left (changes ht))
  | @moved t first after x r orders report journal onResult ht _ _ _ hres _ =>
    obtain ⟨c, p, n, k, hmoved⟩ := moved_frame setup t r orders
    rw [hmoved] at hm
    refine hm.imp (fun hm => ?_) (Or.imp (changes ht) fun hm => ht.spared.onWording_eq ▸ hm)
    rcases hres with rfl | rfl
    · exact hm
    · exact mem_flatten_of_tail hm
  | @held t after x before entries key moves later journal ht _ _ hw _ _ =>
    rw [ht.spared.onResult_eq] at hm
    refine hm.imp_right (Or.imp (changes ht) fun hm => ?_)
    exact hw ▸ List.mem_append_right moves hm

/-- Every move to be made next is taken out of the scripts. -/
theorem Does.spends (hd : Does setup s task (.done s' first)) :
    first.countP Task.isMove + s'.scripted.length ≤ s.scripted.length := by
  have changes : ∀ {t : Sitting}, s.Taken t →
      t.onChange.flatten.length ≤ s.onChange.flatten.length := by
    intro t ht
    rcases ht.spared.onChange_cases with heq | heq
    · exact Nat.le_of_eq (by rw [heq])
    · rw [heq]
      exact flatten_tail_length_le s.onChange
  simp only [scripted, List.flatten_append, List.length_append]
  cases hd with
  | aside ht _ hspend =>
    rw [ht.spared.onResult_eq, ht.spared.onWording_eq]
    omega
  | @moved t first after x r orders report journal onResult ht _ _ _ _ hspend =>
    obtain ⟨c, p, n, k, hmoved⟩ := moved_frame setup t r orders
    have hchange := changes ht
    simp only [hmoved, ht.spared.onWording_eq]
    omega
  | @held t after x before entries key moves later journal ht _ _ hw _ hnone =>
    have hchange := changes ht
    have hheld : Task.isMove (.conclude x.outcome entries) = false := rfl
    rw [ht.spared.onResult_eq, hw, List.countP_append, countP_isMove_map,
      List.countP_cons_of_neg (by simp [hheld]), hnone, List.flatten_cons, List.length_append]
    show moves.length + 0 + (_ + t.onChange.flatten.length + later.flatten.length) ≤ _
    omega

end Tasks

/-! ## Stopping and starting again -/

/-- Alarms are given up, or nothing happens to them where that is not honoured. -/
def GivesUp (setup : Setup) (clock clock' : Clock Purpose) : Prop :=
  clock.Muted clock' ∧ (setup.honoursCancel = false → clock' = clock)

theorem GivesUp.refl (clock : Clock Purpose) : GivesUp setup clock clock :=
  ⟨.refl clock, fun _ => rfl⟩

theorem GivesUp.trans {c c' c'' : Clock Purpose} (h : GivesUp setup c c')
    (h' : GivesUp setup c' c'') : GivesUp setup c c'' :=
  ⟨h.1.trans h'.1, fun hc => (h'.2 hc).trans (h.2 hc)⟩

theorem givesUp_cancelAlarm (clock : Clock Purpose) (handle : Nat) :
    GivesUp setup clock (cancelAlarm setup clock handle) := by
  unfold cancelAlarm
  split
  · rename_i hc
    exact ⟨clock.muted_cancel handle, fun hc' => by rw [hc] at hc'; cases hc'⟩
  · exact .refl clock

theorem stopTicker_frame (setup : Setup) (s : Sitting) :
    ∃ clock, s.stopTicker setup = { s with clock, ticker := none } ∧
      GivesUp setup s.clock clock := by
  unfold stopTicker
  split
  · rename_i h
    exact ⟨s.clock, by rw [← h], .refl _⟩
  · exact ⟨_, rfl, givesUp_cancelAlarm _ _⟩

theorem cancelAdvances_frame (setup : Setup) (s : Sitting) :
    ∃ clock, s.cancelAdvances setup = { s with clock, pending := [] } ∧
      GivesUp setup s.clock clock := by
  refine ⟨_, rfl, ?_⟩
  generalize s.clock = clock
  induction s.pending generalizing clock with
  | nil => exact .refl clock
  | cons p ps ih => exact (givesUp_cancelAlarm clock p.2).trans (ih _)

/-- All is stopped. -/
theorem moved_stopAll (setup : Setup) (s : Sitting) (round : Round) :
    ∃ clock, s.moved setup round Round.stopAll =
        { s with round, clock, pending := [], ticker := none } ∧
      GivesUp setup s.clock clock := by
  obtain ⟨clock, h, hg⟩ := cancelAdvances_frame setup { s with round }
  obtain ⟨clock', h', hg'⟩ := stopTicker_frame setup ({ s with round }.cancelAdvances setup)
  have heq : s.moved setup round Round.stopAll =
      ({ s with round }.cancelAdvances setup).stopTicker setup := rfl
  rw [h] at h' hg'
  exact ⟨clock', by rw [heq, h, h'], hg.trans hg'⟩

/-- All is stopped, and a new ticker is set. -/
theorem moved_restart (setup : Setup) (s : Sitting) (round : Round) (generation : Int) :
    ∃ clock, s.moved setup round (Round.stopAll ++ [.startTicker generation]) =
        { s with
          round, pending := []
          clock := clock.set .repeating setup.rules.tickInterval (.tick generation)
          ticker := some clock.nextHandle } ∧
      GivesUp setup s.clock clock := by
  obtain ⟨clock, h, hg⟩ := moved_stopAll setup s round
  obtain ⟨clock', h', hg'⟩ := stopTicker_frame setup (s.moved setup round Round.stopAll)
  have heq : s.moved setup round (Round.stopAll ++ [.startTicker generation]) =
      (s.moved setup round Round.stopAll).startTicker setup generation := rfl
  rw [h] at h' hg'
  refine ⟨clock', ?_, hg.trans hg'⟩
  rw [heq, h]
  simp only [startTicker, h']

/-! ## Purposes that are ordered -/

/-- What the alarms are for in the end was so before, or was ordered. -/
theorem mem_purposes_foldl {orders : List TimerOrder} {s : Sitting} {x : Purpose}
    (h : x ∈ (orders.foldl (carryOut setup) s).clock.purposes) :
    x ∈ s.clock.purposes ∨
      (∃ number order, x = .advance number order ∧ .scheduleAdvance order ∈ orders) ∨
      ∃ generation, x = .tick generation ∧ .startTicker generation ∈ orders := by
  induction orders generalizing s with
  | nil => exact .inl h
  | cons o orders ih =>
    rcases ih h with h | ⟨number, order, hx, hmem⟩ | ⟨generation, hx, hmem⟩
    · cases o with
      | scheduleAdvance order =>
        simp only [carryOut, scheduleAdvance, Clock.purposes_set, List.mem_append,
          List.mem_singleton] at h
        exact h.imp_right fun h => .inl ⟨_, order, h, List.mem_cons_self⟩
      | cancelAdvances =>
        obtain ⟨clock, hs, hg⟩ := cancelAdvances_frame setup s
        rw [carryOut, hs] at h
        exact .inl (hg.1.purposes_eq ▸ h)
      | startTicker generation =>
        obtain ⟨clock, hs, hg⟩ := stopTicker_frame setup s
        simp only [carryOut, startTicker, hs, Clock.purposes_set, hg.1.purposes_eq, List.mem_append,
          List.mem_singleton] at h
        exact h.imp_right fun h => .inr ⟨generation, h, List.mem_cons_self⟩
      | stopTicker =>
        obtain ⟨clock, hs, hg⟩ := stopTicker_frame setup s
        rw [carryOut, hs] at h
        exact .inl (hg.1.purposes_eq ▸ h)
    · exact .inr (.inl ⟨number, order, hx, List.mem_cons_of_mem o hmem⟩)
    · exact .inr (.inr ⟨generation, hx, List.mem_cons_of_mem o hmem⟩)

/-! ## Quiet sittings -/

/-- No event is held up, and the wording holds up no more. -/
structure Quiet (s : Sitting) (tasks : List Task) : Prop where
  silent : s.onWording = []
  not_held : ∀ outcome entries, .conclude outcome entries ∉ tasks

theorem Quiet.done {s s' : Sitting} {task : Task} {rest first : List Task}
    (h : Quiet s (task :: rest)) (hd : Does setup s task (.done s' first)) :
    Quiet s' (first ++ rest) := by
  refine ⟨?_, hd.held_of (P := fun _ => False) h.not_held fun _ _ _ _ hw => absurd h.silent hw⟩
  cases hd with
  | aside ht _ _ => exact ht.spared.onWording_eq.trans h.silent
  | @moved t _ _ _ r orders _ _ _ ht _ _ _ _ =>
    obtain ⟨c, p, n, k, hm⟩ := moved_frame setup t r orders
    rw [hm]
    exact ht.spared.onWording_eq.trans h.silent
  | held _ _ _ hw _ => rw [h.silent] at hw; cases hw

theorem Quiet.failed {s s' : Sitting} {task : Task} {rest : List Task} {fault : Fault}
    (h : Quiet s (task :: rest)) (hd : Does setup s task (.failed s' fault)) : Quiet s' [] := by
  cases hd with
  | gaveUp _ => exact ⟨h.silent, fun _ _ => List.not_mem_nil⟩
  | broken ht _ _ =>
    exact ⟨ht.spared.onWording_eq.trans h.silent, fun _ _ => List.not_mem_nil⟩

/-- Where the wording asks nothing back, no event is ever held up. -/
theorem Reachable.quiet {past : List (Agenda Sitting Task Fault)} {a : Agenda Sitting Task Fault}
    (h : Reachable setup opening past a) (hsilent : opening.onWording = []) :
    Quiet a.state a.tasks := by
  refine h.invariant ⟨hsilent, fun _ _ => List.not_mem_nil⟩
    (fun s task hq houter => ⟨hq.silent, fun _ _ hmem => ?_⟩)
    (fun _ _ _ _ _ hq hp => hq.done (does_of_perform hp))
    fun _ _ _ _ _ hq hp => hq.failed (does_of_perform hp)
  rw [← List.mem_singleton.mp hmem] at houter
  cases houter

/-- No event is held up, the wording holds up no more, and no alarm rings out of turn. -/
structure Undisturbed (s : Sitting) (tasks : List Task) : Prop where
  silent : s.onWording = []
  plain : ∀ t ∈ tasks, t.Plain

theorem Undisturbed.quiet {s : Sitting} {tasks : List Task} (h : Undisturbed s tasks) :
    Quiet s tasks :=
  ⟨h.silent, fun _ _ hmem => by cases h.plain _ hmem⟩

theorem Undisturbed.done {s s' : Sitting} {task : Task} {rest first : List Task}
    (h : Undisturbed s (task :: rest)) (hd : Does setup s task (.done s' first)) :
    Undisturbed s' (first ++ rest) := by
  refine ⟨(h.quiet.done hd).silent, hd.tasks_of h.plain (fun t hfresh => ?_)
    fun _ _ _ _ _ hw => absurd h.silent hw⟩
  cases hfresh with
  | move _ => exact .move _
  | announce => exact .announce
  | retire => exact .retire
  | elapse target => exact .elapse target

theorem Undisturbed.failed {s s' : Sitting} {task : Task} {rest : List Task} {fault : Fault}
    (h : Undisturbed s (task :: rest)) (hd : Does setup s task (.failed s' fault)) :
    Undisturbed s' [] :=
  ⟨(h.quiet.failed hd).silent, fun _ hmem => absurd hmem List.not_mem_nil⟩

end Sitting

end TimedQuiz
