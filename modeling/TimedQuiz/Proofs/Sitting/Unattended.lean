import TimedQuiz.Proofs.Sitting.Passive

/-!
# Sittings that are left to themselves

Where neither the listeners nor the wording do anything, what comes from outside is done with before
anything else comes, and little is under way at any moment.

* `Lone` — the tasks that are under way then;
* `Unattended` — nobody does anything from inside a call.

Main statement: `Reachable.unattended`. The sitting may be over, and the wording may refuse a text.
-/

namespace TimedQuiz

/-- A task that comes up of its own accord while a sitting goes on. -/
inductive Task.Passing : Task → Prop
  | announce : Passing .announce
  | elapse (target : Int) : Passing (.elapse target)

namespace Sitting

/-- The tasks that are under way where nobody acts from inside a call: one from outside, or what
comes up of its own accord, or what follows a teardown. -/
inductive Lone : List Task → Prop
  | outer {task : Task} : task.Outer → Lone [task]
  | passing {tasks : List Task} : (∀ t ∈ tasks, t.Passing) → Lone tasks
  | closing : Lone [.announce, .retire]
  | closed : Lone [.retire]

/-- Nobody does anything from inside a call. -/
structure Unattended (s : Sitting) (tasks : List Task) : Prop where
  onResult_eq : s.onResult = []
  onChange_eq : s.onChange = []
  onWording_eq : s.onWording = []
  lone : Lone tasks

variable {setup : Setup} {s s' t : Sitting} {task : Task} {tasks first rest : List Task}
  {past : List (Agenda Sitting Task Fault)} {a : Agenda Sitting Task Fault}

namespace Unattended

theorem quiet (h : Unattended s tasks) : Quiet s tasks := by
  refine ⟨h.onWording_eq, fun outcome entries hmem => ?_⟩
  cases h.lone with
  | outer houter =>
    cases List.mem_singleton.mp hmem
    cases houter
  | passing hall => cases hall _ hmem
  | closing => simp at hmem
  | closed => simp at hmem

/-- The listener for changes is shown the round and does nothing. -/
theorem announce_snd (h : Unattended s tasks) : s.announce.2 = [] := by
  simp [announce, h.onChange_eq]

/-- Nothing comes up of its own accord but the announcement of an event and more time, apart from
the end of the sitting. -/
theorem first_cases (h : Unattended s (task :: rest))
    (hturns : s.Turns setup task (.done s' first)) :
    (∀ t ∈ first, t.Passing) ∨
      (task = .move .dispose ∧ first = setup.announcement ++ [.retire]) := by
  cases hturns with
  | announced _ =>
    exact .inl fun t hmem => absurd (h.announce_snd ▸ hmem) List.not_mem_nil
  | still _ hafter =>
    refine .inl fun t hmem => ?_
    obtain ⟨target, rfl⟩ := hafter t hmem
    exact .elapse target
  | @moved t e after round orders report hi _ _ =>
    have htakes := takesUp_of_intake hi
    have hresult := htakes.taken_of_event.1.spared.onResult_eq.trans h.onResult_eq
    rw [heeded_eq_nil setup hresult]
    rcases htakes.elapse_of_event with ⟨rfl, -, rfl, -⟩ | ⟨-, hafter⟩
    · exact .inr ⟨rfl, rfl⟩
    · refine .inl fun t hmem => ?_
      rcases List.mem_append.mp hmem with hmem | hmem
      · rw [Setup.eq_announce_of_mem hmem]
        exact .announce
      · obtain ⟨target, rfl⟩ := hafter t hmem
        exact .elapse target

theorem taken (h : Unattended s tasks) (ht : s.Taken t) (hlone : Lone first) :
    Unattended t first := by
  refine ⟨ht.spared.onResult_eq.trans h.onResult_eq, ?_,
    ht.spared.onWording_eq.trans h.onWording_eq, hlone⟩
  rcases ht.spared.onChange_cases with heq | heq
  · exact heq.trans h.onChange_eq
  · rw [heq, h.onChange_eq]
    rfl

theorem done (h : Unattended s (task :: rest)) (hp : perform setup task s = .done s' first) :
    Unattended s' (first ++ rest) := by
  have hturns : s.Turns setup task (.done s' first) := hp ▸ h.quiet.turns
  have hlone : Lone (first ++ rest) := by
    cases h.lone with
    | outer _ =>
      rw [List.append_nil]
      rcases h.first_cases hturns with hall | ⟨-, rfl⟩
      · exact .passing hall
      · unfold Setup.announcement
        split
        · exact .closing
        · exact .closed
    | passing hall =>
      rcases h.first_cases hturns with hfirst | ⟨rfl, -⟩
      · refine .passing fun t hmem => ?_
        rcases List.mem_append.mp hmem with hmem | hmem
        · exact hfirst t hmem
        · exact hall t (List.mem_cons_of_mem _ hmem)
      · cases hall _ List.mem_cons_self
    | closing =>
      cases hp
      rw [h.announce_snd]
      exact .closed
    | closed =>
      cases hp
      exact .passing fun _ hmem => absurd hmem List.not_mem_nil
  cases does_of_perform hp with
  | aside ht _ _ => exact h.taken ht hlone
  | @moved t _ _ _ round orders _ _ onResult ht _ _ _ hres _ =>
    obtain ⟨hresult, hchange, hwording, -⟩ := h.taken ht hlone
    obtain ⟨c, p, n, k, hm⟩ := moved_frame setup t round orders
    rw [hm]
    refine ⟨?_, hchange, hwording, hlone⟩
    rcases hres with rfl | rfl
    · exact h.onResult_eq
    · show s.onResult.tail = []
      rw [h.onResult_eq]
      rfl
  | held _ _ _ hw _ _ =>
    rw [h.onWording_eq] at hw
    cases hw

theorem failed (h : Unattended s (task :: rest)) {fault : Fault}
    (hp : perform setup task s = .failed s' fault) : Unattended s' [] := by
  have hnone : Lone [] := .passing fun _ hmem => absurd hmem List.not_mem_nil
  cases does_of_perform hp with
  | gaveUp _ => exact h.taken (.refl s) hnone
  | broken ht _ _ => exact h.taken (ht.withJournal _) hnone

end Unattended

/-- **A sitting in which nobody was to act is left to itself at every moment.** -/
theorem Reachable.unattended {sheets : Table (List Problem)}
    (h : Reachable setup (opening sheets [] []) past a) : Unattended a.state a.tasks := by
  refine h.invariant ⟨rfl, rfl, rfl, .passing fun _ hmem => absurd hmem List.not_mem_nil⟩
    (fun s task hs houter => ?_) (fun _ _ _ _ _ hs => hs.done) fun _ _ _ _ _ hs => hs.failed
  exact ⟨hs.onResult_eq, hs.onChange_eq, hs.onWording_eq, .outer houter⟩

end Sitting

end TimedQuiz
