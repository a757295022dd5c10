import TimedQuiz.Proofs.Sitting.Changes
import TimedQuiz.Proofs.Sitting.Disposal

/-!
# After the end of a sitting

Once a sitting is over, no event reaches its round and no listener is called for anything new.
Announcements that were to be made by then are still made.

* `Idles` — what doing a task comes to once the sitting is over;
* `Lapsed` — a later moment of a sitting that is over.

Main statement: `Reachable.silent_but_for_announcements_due` — the announcements that are still made
show the round that the end has left, and there are none where the listener for results does nothing
of its own. That there may be one: `shown_after_end`.
-/

namespace TimedQuiz.Sitting

variable {setup : Setup} {opening s s' : Sitting} {task : Task} {rest first after : List Task}
  {past later earlier : List (Agenda Sitting Task Fault)} {a b c : Agenda Sitting Task Fault}

/-! ## One task -/

/-- What doing a task comes to once the sitting is over: the listener for changes is called if that
was to be done, and the round stays. -/
inductive Idles (s : Sitting) (task : Task) : Verdict Sitting Task Fault → Prop
  | announced : task = .announce → Idles s task (.done s.announce.1 s.announce.2)
  | still {s' : Sitting} {after : List Task} : task ≠ .announce → s.Taken s' →
      s'.calls = s.calls → (∀ t ∈ after, ∃ target, t = .elapse target) →
      Idles s task (.done s' after)
  | gaveUp {message : String} : task = .move (.giveUp message) →
      Idles s task (.failed s (.listener message))

/-- **Once the sitting is over, no event reaches the round.** An event that the wording has held up
since before is the exception. -/
theorem perform_idles (setup : Setup) (hover : s.disposed = true)
    (hfree : ∀ outcome entries, task ≠ .conclude outcome entries) :
    s.Idles task (perform setup task s) := by
  unfold perform
  cases hi : s.intake task with
  | aside s' after =>
    have htakes := takesUp_of_intake hi
    by_cases hne : task = .announce
    · subst hne
      cases hi
      exact .announced rfl
    · exact .still hne htakes.taken_of_aside.1 (htakes.calls_of_aside hne)
        (htakes.elapse_of_aside hne)
  | failed s' fault =>
    cases takesUp_of_intake hi
    exact .gaveUp rfl
  | rest s' outcome entries =>
    cases takesUp_of_intake hi
    exact absurd rfl (hfree _ _)
  | event s' e after =>
    have htakes := takesUp_of_intake hi
    obtain ⟨ht, hjournal, hdisposed⟩ := htakes.taken_of_event
    rw [pursue, react, if_pos (hdisposed.trans hover)]
    refine .still htakes.ne_announce_of_event ht (calls_eq_of_journal hjournal) ?_
    rcases htakes.elapse_of_event with ⟨-, -, -, hopen⟩ | ⟨-, hafter⟩
    · rw [hover] at hopen
      cases hopen
    · exact hafter

/-! ## From the end on -/

/-- The second moment is one of a sitting that is over, and comes after the first. Announcements
have been made in between, each of the round that stays, and none that were not to be made at the
first; and if nothing can break off, all that are no longer to be made. -/
structure Lapsed (calm : Prop) (b a : Agenda Sitting Task Fault) : Prop where
  disposed : a.state.disposed = true
  not_held : ∀ outcome entries, .conclude outcome entries ∉ a.tasks
  round_eq : a.state.round = b.state.round
  calls : ∃ k, a.state.calls = List.replicate k (.shown b.state.round) ++ b.state.calls ∧
    k + a.tasks.countP Task.isAnnounce ≤ b.tasks.countP Task.isAnnounce ∧
    (calm → k + a.tasks.countP Task.isAnnounce = b.tasks.countP Task.isAnnounce)

namespace Lapsed

variable {calm : Prop}

theorem refl (hover : b.state.disposed = true)
    (hfree : ∀ outcome entries, .conclude outcome entries ∉ b.tasks) : Lapsed calm b b :=
  ⟨hover, hfree, rfl, 0, rfl, by rw [Nat.zero_add], fun _ => Nat.zero_add _⟩

/-- The sitting goes on with some calls. -/
theorem goesOn (h : Lapsed calm b c) (k : Nat) (hover : a.state.disposed = true)
    (hfree : ∀ outcome entries, .conclude outcome entries ∉ a.tasks)
    (hround : a.state.round = c.state.round)
    (hcalls : a.state.calls = List.replicate k (.shown c.state.round) ++ c.state.calls)
    (hle : k + a.tasks.countP Task.isAnnounce ≤ c.tasks.countP Task.isAnnounce)
    (hall : calm → k + a.tasks.countP Task.isAnnounce = c.tasks.countP Task.isAnnounce) :
    Lapsed calm b a := by
  obtain ⟨n, hn, hnle, hnall⟩ := h.calls
  refine ⟨hover, hfree, hround.trans h.round_eq, k + n, ?_, by omega, fun hcalm => ?_⟩
  · rw [hcalls, hn, h.round_eq, ← List.append_assoc, List.replicate_append_replicate]
  · have hk := hall hcalm
    have hm := hnall hcalm
    omega

theorem step (h : Lapsed calm b c)
    (hcalm : calm → ∀ message, .move (.giveUp message) ∉ c.tasks) :
    Lapsed calm b (c.step (perform setup)) := by
  obtain ⟨s, tasks, fault⟩ := c
  cases tasks with
  | nil => exact h
  | cons task rest =>
    have hrest : ∀ outcome entries, .conclude outcome entries ∉ rest :=
      fun outcome entries hmem => h.not_held outcome entries (List.mem_cons_of_mem task hmem)
    have hidles : s.Idles task (perform setup task s) :=
      perform_idles setup h.disposed fun outcome entries heq =>
        h.not_held outcome entries (heq ▸ List.mem_cons_self)
    rw [Agenda.step_cons]
    generalize perform setup task s = v at hidles
    cases hidles with
    | announced htask =>
      subst htask
      have hcount : 1 + ((offered s.onChange).map Task.move ++ rest).countP Task.isAnnounce =
          (Task.announce :: rest).countP Task.isAnnounce := by
        rw [List.countP_append, countP_isAnnounce_map, List.countP_cons_of_pos rfl]
        omega
      refine h.goesOn 1 h.disposed (fun outcome entries hmem => ?_) rfl (calls_announce s)
        (Nat.le_of_eq hcount) fun _ => hcount
      rcases List.mem_append.mp hmem with hmem | hmem
      · obtain ⟨m, -, heq⟩ := List.mem_map.mp hmem
        cases heq
      · exact hrest outcome entries hmem
    | @still s' after hne ht hcalls hafter =>
      have hcount : 0 + (after ++ rest).countP Task.isAnnounce =
          (task :: rest).countP Task.isAnnounce := by
        rw [List.countP_append, countP_isAnnounce_of_elapse hafter, countP_isAnnounce_cons hne]
        omega
      refine h.goesOn 0 (ht.spared.disposed_of_disposed h.disposed) (fun outcome entries hmem => ?_)
        ht.spared.round_eq hcalls (Nat.le_of_eq hcount) fun _ => hcount
      rcases List.mem_append.mp hmem with hmem | hmem
      · obtain ⟨target, heq⟩ := hafter _ hmem
        cases heq
      · exact hrest outcome entries hmem
    | gaveUp htask =>
      subst htask
      exact h.goesOn 0 h.disposed (fun _ _ => List.not_mem_nil) rfl rfl (Nat.zero_le _)
        fun hc => absurd List.mem_cons_self (hcalm hc _)

end Lapsed

/-- Where no script gives up, no move to be made does. -/
theorem Reachable.calm_tasks (h : Reachable setup opening past a)
    (hcalm : ∀ m ∈ opening.scripted, m.Calm) : ∀ m, .move m ∈ a.tasks → m.Calm := by
  suffices (∀ m ∈ a.state.scripted, m.Calm) ∧ ∀ m, .move m ∈ a.tasks → m.Calm from this.2
  apply h.invariant (I := fun s tasks =>
    (∀ m ∈ s.scripted, m.Calm) ∧ ∀ m, .move m ∈ tasks → m.Calm)
  · exact ⟨hcalm, fun _ hm => absurd hm List.not_mem_nil⟩
  · rintro s task ⟨hs, -⟩ houter
    refine ⟨hs, fun m hm => ?_⟩
    rw [← List.mem_singleton.mp hm] at houter
    cases houter with
    | move hm => exact hm
  · rintro s task rest s' first ⟨hs, htasks⟩ hp
    have hd := does_of_perform hp
    refine ⟨fun m hm => hs m (hd.scripted_subset m hm), fun m hm => ?_⟩
    rcases List.mem_append.mp hm with hm | hm
    · exact hs m (hd.mem_scripted_of_move hm)
    · exact htasks m (List.mem_cons_of_mem task hm)
  · rintro s task rest s' fault ⟨hs, -⟩ hp
    refine ⟨?_, fun m hm => absurd hm List.not_mem_nil⟩
    cases does_of_perform hp with
    | gaveUp _ => exact hs
    | broken ht _ _ => exact fun m hm => hs m (ht.scripted_subset m hm)

/-- A sitting that is over stays so, whatever is asked of it next. -/
theorem Lapsed.next (h : Lapsed (∀ m ∈ opening.scripted, m.Calm) b c)
    (hreach : Reachable setup opening (c :: past) a) :
    Lapsed (∀ m ∈ opening.scripted, m.Calm) b a := by
  have called : ∀ {task : Task}, c.tasks = [] → task.Outer →
      Lapsed (∀ m ∈ opening.scripted, m.Calm) b { state := c.state, tasks := [task] } := by
    intro task hidle houter
    have hcount : 0 + [task].countP Task.isAnnounce = c.tasks.countP Task.isAnnounce := by
      rw [hidle]
      cases houter <;> rfl
    refine h.goesOn 0 h.disposed (fun outcome entries hmem => ?_) rfl rfl (Nat.le_of_eq hcount)
      fun _ => hcount
    rw [← List.mem_singleton.mp hmem] at houter
    cases houter
  cases hreach with
  | call _ hidle hcalm => exact called hidle (.move hcalm)
  | ring handle _ hidle => exact called hidle (.ring handle)
  | step hreach => exact h.step fun hcalm message hmem => hreach.calm_tasks hcalm _ hmem

/-- **What a sitting that is over comes to later on.** -/
theorem Reachable.lapsed (h : Reachable setup opening (later ++ b :: earlier) a)
    (hover : b.state.disposed = true)
    (hfree : ∀ outcome entries, .conclude outcome entries ∉ b.tasks) :
    Lapsed (∀ m ∈ opening.scripted, m.Calm) b a := by
  induction later generalizing a with
  | nil => exact (Lapsed.refl hover hfree).next h
  | cons c later ih => exact (ih h.before).next h

/-! ## Announcements due at the end -/

/-- What puts a round in place leaves the sitting as open as it was. -/
theorem Quiet.disposed_of_replaced (h : Quiet c.state c.tasks) {round : Round}
    (hreplaced : replaced setup c = some round) :
    (c.step (perform setup)).state.disposed = false := by
  obtain ⟨task, rest, s', e, after, orders, report, htasks, hi, hopen, hm⟩ :=
    moves_of_replaced hreplaced
  obtain ⟨-, -, hdisposed⟩ := (takesUp_of_intake hi).taken_of_event
  rw [Agenda.step_of_tasks htasks, perform_of_moved hi h.silent hopen hm.outcome_eq]
  exact (afterMove_disposed ..).trans (hdisposed.trans hopen)

/-- Where the listener for results does nothing of its own, no announcement is due at the end. -/
theorem Reachable.no_announcement_due (h : Reachable setup opening past b)
    (hsilent : opening.onWording = []) (hpassive : opening.onResult.flatten = [])
    (hover : b.state.disposed = true) : b.tasks.countP Task.isAnnounce = 0 := by
  cases h.prompt hsilent hpassive with
  | nothing hnone => exact hnone
  | @next c earlier _ hpast hstep hreplaced _ _ =>
    subst hpast
    have hopen := (h.before.quiet hsilent).disposed_of_replaced hreplaced
    rw [← hstep, hover] at hopen
    cases hopen

/-- **A sitting that is over is silent, but for the announcements that were due at its end.** From
then on the round stays as it is, and all that the listeners are called for is that the round is
shown again, once for every announcement due, or less often if a listener gives up. None is due
where the listener for results does nothing of its own. -/
theorem Reachable.silent_but_for_announcements_due {sheets : Table (List Problem)}
    {onResult onChange : List (List Move)}
    (h : Reachable setup (Sitting.opening sheets onResult onChange) (later ++ b :: earlier) a)
    (hover : b.state.disposed = true) :
    a.state.disposed = true ∧ a.state.round = b.state.round ∧
      (∃ k, a.state.calls = List.replicate k (.shown b.state.round) ++ b.state.calls ∧
        k + a.tasks.countP Task.isAnnounce ≤ b.tasks.countP Task.isAnnounce ∧
        ((∀ m ∈ (onResult ++ onChange).flatten, m.Calm) →
          k + a.tasks.countP Task.isAnnounce = b.tasks.countP Task.isAnnounce)) ∧
      (onResult.flatten = [] → b.tasks.countP Task.isAnnounce = 0) := by
  have hb := h.of_append
  have hlapsed := h.lapsed hover (hb.quiet rfl).not_held
  obtain ⟨k, hcalls, hle, hall⟩ := hlapsed.calls
  refine ⟨hlapsed.disposed, hlapsed.round_eq, ⟨k, hcalls, hle, fun hcalm => hall ?_⟩,
    fun hpassive => hb.no_announcement_due rfl hpassive hover⟩
  simpa [scripted, Sitting.opening] using hcalm

/-- The listener for results ends the sitting, which is announced after that, and then an answer is
given. -/
theorem silent_but_for_announcements_due_of_result :
    ∃ later b earlier a, Reachable {} (Sitting.opening
        (Table.insert {} "sums" [{ id := 1, text := "2 + 3" }]) [[.dispose]] [])
        (later ++ b :: earlier) a ∧
      b.state.disposed = true ∧ a.tasks = [] ∧ a.state.round = b.state.round ∧
      b.tasks.countP Task.isAnnounce = 1 ∧
      ∃ k, a.state.calls = List.replicate k (.shown b.state.round) ++ b.state.calls ∧ k ≤ 1 := by
  have opened : Reachable {} (Sitting.opening
      (Table.insert {} "sums" [{ id := 1, text := "2 + 3" }]) [[.dispose]] []) [] _ := .start
  have shown := (opened.call (m := .present "sums" false) rfl trivial).step.step
  have ended := (shown.call (m := .finish) rfl trivial).step.step.step.step.step
  have answered := (ended.call (m := .submit 1 5.0) (List.isEmpty_iff.mp (by decide +kernel))
    trivial).step
  have since : Reachable {} _ ([_, _] ++ _ :: _) _ := answered
  obtain ⟨-, hround, ⟨k, hcalls, hle, -⟩, -⟩ :=
    since.silent_but_for_announcements_due (by decide +kernel)
  refine ⟨_, _, _, _, since, by decide +kernel, ?_, hround, by decide +kernel, k, hcalls, ?_⟩
  · exact List.isEmpty_iff.mp (by decide +kernel)
  · exact (Nat.le_add_right k _).trans (hle.trans (Nat.le_of_eq (by decide +kernel)))

/-- **A listener may be called after the end**: the listener for results ends the sitting, and then
the listener for changes is shown the round that this has left once more. -/
theorem shown_after_end :
    ∃ past a b, Reachable {} (Sitting.opening
        (Table.insert {} "sums" [{ id := 1, text := "2 + 3" }]) [[.dispose]] []) past a ∧
      b ∈ past ∧ b.state.disposed = true ∧
      a.state.calls = .shown b.state.round :: b.state.calls := by
  have opened : Reachable {} (Sitting.opening
      (Table.insert {} "sums" [{ id := 1, text := "2 + 3" }]) [[.dispose]] []) [] _ := .start
  have shown := (opened.call (m := .present "sums" false) rfl trivial).step.step
  have ended := (shown.call (m := .finish) rfl trivial).step.step.step.step.step
  exact ⟨_, _, _, ended, List.mem_cons_self, by decide +kernel, by decide +kernel⟩

end TimedQuiz.Sitting
