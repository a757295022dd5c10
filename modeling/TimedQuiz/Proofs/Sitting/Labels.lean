import Mathlib.Logic.Basic
import TimedQuiz.Proofs.Round.WellFormed
import TimedQuiz.Proofs.Sitting.Reach
import TimedQuiz.Proofs.Timing.Agenda

/-!
# Which problems the round of a sitting has

A list of problems that is taken is the one the round has from then on, but an event that is held up
at that moment puts back the problems that it found when it takes effect.

* `Resumes` — an event that was held up is about to take effect;
* `Labelled` — the problems of the round, and those that the events held up will put in their place,
  are such and such;
* `Superseded` — a list was taken while an event was held up, and such an event has taken effect
  since.

Main statements: `labels_of_step` — what a step makes of the problems; `Reachable.labels_eq` — the
round has the problems taken last unless that was superseded; `Reachable.labels_taken` — it has
those of a list that was taken at any rate.
-/

namespace TimedQuiz

namespace Sitting

variable {setup : Setup} {opening s s' : Sitting} {task : Task} {rest first : List Task}
  {past : List (Agenda Sitting Task Fault)} {a : Agenda Sitting Task Fault}

/-! ## Lists that are handed in -/

theorem copyMade_opening {sheets : Table (List Problem)}
    {onResult onChange onWording : List (List Move)} :
    (Sitting.opening sheets onResult onChange onWording).CopyMade :=
  fun _ hsource => absurd hsource (Option.some_ne_none _).symm

theorem Reachable.copyMade (h : Reachable setup opening past a) (hs : opening.CopyMade) :
    a.state.CopyMade := by
  refine Reachable.invariant (I := fun s _ => s.CopyMade) h hs (fun _ _ hs _ => hs)
    (fun s task rest s' first hs hp => ?_) fun s task rest s' fault hs hp => ?_
  · cases does_of_perform hp with
    | aside ht _ _ => exact ht.spared.copyMade hs
    | @moved t _ _ _ r orders _ _ _ ht _ _ _ _ =>
      obtain ⟨c, p, n, k, hm⟩ := moved_frame setup t r orders
      rw [hm]
      exact ht.spared.copyMade hs
    | held ht _ _ _ _ => exact ht.spared.copyMade hs
  · cases does_of_perform hp with
    | gaveUp _ => exact hs
    | broken ht _ _ => exact ht.spared.copyMade hs

/-- A list of problems that is taken is the one the round has from then on. No wording is asked for
it, so that no event is held up. -/
theorem pursue_present (setup : Setup) {source : Source} (problems : List Problem)
    (hd : s.disposed = false) (hs : s.source ≠ some source) :
    ∃ s' first, pursue setup (s.present source problems) = .done s' first ∧
      s'.round.problems = problems.map Problem.resolved ∧
      ∀ outcome entries, .conclude outcome entries ∉ first := by
  unfold present
  rw [if_neg (by simp [hd, hs])]
  simp only [pursue]
  unfold react
  rw [if_neg (by simp [hd]), Verdict.andThen_nil]
  rcases conclude_eq_cases setup { s with source := some source } (s.round.load problems).outcome
    (s.round.load problems).entries with hload | ⟨before, key, rest, _, _, hentries, _, _⟩
  · obtain ⟨journal, onResult, moves, he, -⟩ := effect_moved setup
      ({ s with source := some source }.record (s.round.load problems).entries) _ _ none
    refine ⟨_, _, hload.trans he, ?_, ?_⟩
    · obtain ⟨c, p, n, k, hm⟩ := moved_frame setup
        ({ s with source := some source }.record (s.round.load problems).entries) _ _
      rw [hm]
    · intro outcome entries hmem
      rcases List.mem_append.mp hmem with hmem | hmem
      · obtain ⟨m, -, heq⟩ := List.mem_map.mp hmem
        cases heq
      · split at hmem <;> simp at hmem
  · have hasked : .asked key ∈ (s.round.load problems).entries := by simp [hentries]
    obtain ⟨n, -, heq⟩ := List.mem_map.mp hasked
    cases heq

theorem accepted_of_not_presents (s : Sitting) (rest : List Task) (h : ¬ task.Presents) :
    accepted { state := s, tasks := task :: rest } = none := by
  unfold accepted
  split
  · rename_i name copied _ heq
    cases heq
    exact absurd ⟨name, copied, rfl⟩ h
  · rfl

/-- A list of problems that is accepted replaces those of the round; one that is not leaves them. No
event is held up for it. -/
theorem labels_of_presents (setup : Setup) (rest : List Task) (hc : s.CopyMade)
    (h : task.Presents) :
    ∃ s' first, perform setup task s = .done s' first ∧
      s'.round.problems.map Problem.label =
        ((accepted { state := s, tasks := task :: rest }).getD s.round.problems).map
          Problem.label ∧
      ∀ outcome entries, .conclude outcome entries ∉ first := by
  obtain ⟨name, copied, rfl⟩ := h
  -- a copy is new, so that only a sheet can be the list handed in last
  obtain ⟨t, source, ht, hsource⟩ : ∃ (t : Sitting) (source : Source),
      perform setup (.move (.present name copied)) s =
        pursue setup (t.present source (s.sheet name)) ∧ t.round = s.round ∧
        t.disposed = s.disposed ∧ (t.source = some source ↔
          copied = false ∧ s.source = some (.sheet name)) := by
    cases copied with
    | false => exact ⟨s, .sheet name, rfl, rfl, rfl, by simp⟩
    | true =>
      refine ⟨{ s with copies := s.copies + 1 }, .copy s.copies, rfl, rfl, rfl, ?_⟩
      simp only [Bool.true_eq_false, false_and, iff_false]
      exact fun heq => Nat.lt_irrefl _ (hc s.copies heq)
  obtain ⟨hround, hdt, hiff⟩ := hsource
  rw [ht]
  by_cases hpass : s.disposed = true ∨ (copied = false ∧ s.source = some (.sheet name))
  · have hpass' : t.disposed = true ∨ t.source = some source := by rwa [hdt, hiff]
    refine ⟨t, [], ?_, ?_, fun _ _ => List.not_mem_nil⟩
    · unfold present
      rw [if_pos hpass']
      rfl
    · simp only [accepted, if_pos hpass, Option.getD_none, hround]
  · have hpass' : ¬ (t.disposed = true ∨ t.source = some source) := by rwa [hdt, hiff]
    obtain ⟨hd, hne⟩ := not_or.mp hpass'
    obtain ⟨s', first, hp, hprob, hfirst⟩ := pursue_present setup (s.sheet name)
      (by simpa using hd) hne
    refine ⟨s', first, hp, ?_, hfirst⟩
    rw [hprob]
    simp only [accepted, if_neg hpass, Option.getD_some, List.map_map, Function.comp_def,
      Problem.label_resolved]

/-! ## What a step makes of the problems -/

theorem Arrives.ne_finish_some {e : Event} (h : s.Arrives e) (problems : List Problem) :
    e ≠ .finish (some problems) := by
  cases h <;> nofun

/-- An event that reaches the round, other than a load, moves it to the same problems. -/
theorem labels_of_event {e : Event} {r : Round} {orders : List TimerOrder} {report : Option Report}
    (he : s.Arrives e) (hload : ∀ problems, e ≠ .load problems)
    (hx : (s.round.next setup.rules setup.wording e).outcome = .ok (.moved r orders report)) :
    r.problems.map Problem.label = s.round.problems.map Problem.label :=
  (Round.moves_of_next hx).labels_eq hload he.ne_finish_some

/-- Nothing holds an event up any more: no question is to be asked, or the wording just answers. -/
def Unhindered (s : Sitting) (entries : List Entry) : Prop :=
  s.onWording = [] ∨ ∀ key, .asked key ∉ entries

/-- An event that was held up leaves the problems as they are, or takes effect. -/
theorem labels_of_conclude (setup : Setup) (s : Sitting) (rest : List Task)
    (outcome : Except Fault Transition) (entries : List Entry) :
    ((perform setup (.conclude outcome entries) s).agenda rest).state.round.problems.map
        Problem.label = s.round.problems.map Problem.label ∨
      ∃ r orders report, outcome = .ok (.moved r orders report) ∧ s.Unhindered entries ∧
        ((perform setup (.conclude outcome entries) s).agenda rest).state.round.problems.map
          Problem.label = r.problems.map Problem.label := by
  have hperform : perform setup (.conclude outcome entries) s = s.conclude setup outcome entries :=
    rfl
  rw [hperform]
  by_cases hfree : s.Unhindered entries
  · rcases conclude_eq_cases setup s outcome entries with heq | ⟨before, key, later, moves, left,
      hentries, hw, -⟩
    · rw [heq]
      cases outcome with
      | error fault => exact .inl rfl
      | ok transition =>
        cases transition with
        | ignored => exact .inl rfl
        | moved r orders report =>
          obtain ⟨journal, onResult, moves, he, -⟩ :=
            effect_moved setup (s.record entries) r orders report
          obtain ⟨c, p, n, k, hm⟩ := moved_frame setup (s.record entries) r orders
          refine .inr ⟨r, orders, report, rfl, hfree, ?_⟩
          simp only [he, Verdict.agenda, hm]
    · rcases hfree with hnil | hnone
      · rw [hnil] at hw
        cases hw
      · exact absurd (by simp [hentries]) (hnone key)
  · obtain ⟨hw, hsome⟩ := not_or.mp hfree
    obtain ⟨key, hasked⟩ := not_forall_not.mp hsome
    obtain ⟨journal, moves, later, left, -, heq⟩ := conclude_of_asked setup hasked hw outcome
    rw [heq]
    exact .inl rfl

/-- Any other task leaves the problems as they are, apart from their answers. -/
theorem labels_of_not_presents (setup : Setup) (s : Sitting) (rest : List Task)
    (hload : ¬ task.Presents) (hfresh : ∀ outcome entries, task ≠ .conclude outcome entries) :
    ((perform setup task s).agenda rest).state.round.problems.map Problem.label =
      s.round.problems.map Problem.label := by
  have hdoes : Does setup s task (perform setup task s) := perform_does s task
  generalize perform setup task s = v at hdoes
  have hround : ∀ {t : Sitting}, s.Taken t → t.round.problems.map Problem.label =
      s.round.problems.map Problem.label := fun ht => by rw [ht.spared.round_eq]
  cases hdoes with
  | aside ht _ _ => exact hround ht
  | gaveUp _ => rfl
  | @broken t _ _ _ _ ht _ _ => exact hround (t := t) ht
  | @held t _ _ _ _ _ _ _ _ ht _ _ _ _ _ => exact hround (t := t) ht
  | @moved t _ _ x r orders report _ _ ht hdue hx _ _ =>
    obtain ⟨c, p, n, k, hm⟩ := moved_frame setup t r orders
    simp only [Verdict.agenda, hm]
    cases hdue with
    | event he hpresents _ =>
      exact (labels_of_event he (fun ps heq => hload (hpresents ps heq)) hx).trans (hround ht)
    | rest htask _ => exact absurd htask (hfresh _ _)

/-- An event that was held up is about to take effect, and moves the round. -/
def Resumes (a : Agenda Sitting Task Fault) (r : Round) : Prop :=
  ∃ orders report entries rest, a.tasks = .conclude (.ok (.moved r orders report)) entries :: rest ∧
    a.state.Unhindered entries

/-- **A step leaves the problems as they are**, apart from their answers, or puts the list that is
taken in their place, unless an event that was held up takes effect. -/
theorem labels_of_step (setup : Setup) (hc : a.state.CopyMade) :
    (a.step (perform setup)).state.round.problems.map Problem.label =
        ((accepted a).getD a.state.round.problems).map Problem.label ∨
      ∃ r, Resumes a r ∧ (a.step (perform setup)).state.round.problems.map Problem.label =
        r.problems.map Problem.label := by
  obtain ⟨s, tasks, fault⟩ := a
  cases tasks with
  | nil => exact .inl rfl
  | cons task rest =>
    rw [Agenda.step_cons]
    by_cases hp : task.Presents
    · obtain ⟨s', first, hv, hlabels, -⟩ := labels_of_presents setup rest hc hp
      rw [hv]
      exact .inl hlabels
    · have hnone : accepted { state := s, tasks := task :: rest, fault } = none :=
        accepted_of_not_presents s rest hp
      rw [hnone]
      by_cases hheld : ∃ outcome entries, task = .conclude outcome entries
      · obtain ⟨outcome, entries, rfl⟩ := hheld
        rcases labels_of_conclude setup s rest outcome entries with hsame | ⟨r, orders, report, rfl,
          hfree, hback⟩
        · exact .inl hsame
        · exact .inr ⟨r, ⟨orders, report, entries, rest, rfl, hfree⟩, hback⟩
      · exact .inl (labels_of_not_presents setup s rest hp
          fun outcome entries heq => hheld ⟨outcome, entries, heq⟩)

/-! ## The problems of the events held up -/

/-- The problems of the round are such and such, answers apart, and so are those that the events
held up will put in their place. -/
structure Labelled (P : List (Int × String) → Prop) (s : Sitting) (tasks : List Task) : Prop where
  round : P (s.round.problems.map Problem.label)
  held : ∀ r orders report entries, .conclude (.ok (.moved r orders report)) entries ∈ tasks →
    P (r.problems.map Problem.label)

theorem Labelled.mono {P Q : List (Int × String) → Prop} {tasks : List Task}
    (h : Labelled P s tasks) (hmono : ∀ labels, P labels → Q labels) : Labelled Q s tasks :=
  ⟨hmono _ h.round, fun r orders report entries hmem =>
    hmono _ (h.held r orders report entries hmem)⟩

theorem Labelled.of_idle {P : List (Int × String) → Prop}
    (hround : P (s.round.problems.map Problem.label)) : Labelled P s [] :=
  ⟨hround, fun _ _ _ _ hmem => absurd hmem List.not_mem_nil⟩

theorem Labelled.call {P : List (Int × String) → Prop} (h : Labelled P s []) (houter : task.Outer) :
    Labelled P s [task] := by
  refine ⟨h.round, fun _ _ _ _ hmem => ?_⟩
  rw [← List.mem_singleton.mp hmem] at houter
  cases houter

/-- What holds of the problems of the round and of those held up still holds of those held up when
anything but a list has been brought in: an event that is held up from now on keeps the problems. -/
theorem Labelled.held_of_does {P : List (Int × String) → Prop}
    (h : Labelled P s (task :: rest)) (hd : Does setup s task (.done s' first))
    (hp : ¬ task.Presents) (r : Round) (orders : List TimerOrder) (report : Option Report)
    (entries : List Entry)
    (hmem : .conclude (.ok (.moved r orders report)) entries ∈ first ++ rest) :
    P (r.problems.map Problem.label) := by
  refine hd.held_of
    (P := fun outcome => ∀ r orders report, outcome = .ok (.moved r orders report) →
      P (r.problems.map Problem.label)) ?_ ?_ _ _ hmem r orders report rfl
  · rintro outcome entries hmem r orders report rfl
    exact h.held r orders report entries hmem
  · intro t after x key _ ht hdue _ r orders report hx
    cases hdue with
    | event he hload _ =>
      rw [labels_of_event he (fun ps heq => hp (hload ps heq)) hx, ht.spared.round_eq]
      exact h.round
    | rest htask _ => exact h.held r orders report x.entries (by simp [htask, hx])

/-- **What holds of the problems held up, and of those that the round has or is about to take**,
holds of all of them after a step. -/
theorem Labelled.step {P : List (Int × String) → Prop} (setup : Setup) (hc : a.state.CopyMade)
    (hheld : ∀ r orders report entries, .conclude (.ok (.moved r orders report)) entries ∈ a.tasks →
      P (r.problems.map Problem.label))
    (hround : P (((accepted a).getD a.state.round.problems).map Problem.label)) :
    Labelled P (a.step (perform setup)).state (a.step (perform setup)).tasks := by
  refine ⟨?_, ?_⟩
  · rcases labels_of_step setup hc with hsame | ⟨r, hresumes, hback⟩
    · exact hsame ▸ hround
    · obtain ⟨orders, report, entries, rest, htasks, -⟩ := hresumes
      exact hback ▸ hheld r orders report entries (htasks ▸ List.mem_cons_self)
  · obtain ⟨s, tasks, fault⟩ := a
    cases tasks with
    | nil => exact hheld
    | cons task rest =>
      rw [Agenda.step_cons]
      intro r orders report entries hmem
      by_cases hp : task.Presents
      · obtain ⟨s', first, hv, -, hfirst⟩ := labels_of_presents setup rest hc hp
        rw [hv] at hmem
        rcases List.mem_append.mp hmem with hmem | hmem
        · exact absurd hmem (hfirst _ entries)
        · exact hheld r orders report entries (List.mem_cons_of_mem task hmem)
      · have hnone : accepted { state := s, tasks := task :: rest, fault } = none :=
          accepted_of_not_presents s rest hp
        rw [hnone] at hround
        have h : Labelled P s (task :: rest) := ⟨hround, hheld⟩
        cases hv : perform setup task s with
        | failed s' fault =>
          rw [hv] at hmem
          cases hmem
        | done s' first =>
          rw [hv] at hmem
          exact h.held_of_does (does_of_perform hv) hp r orders report entries hmem

/-! ## Lists that are taken while an event is held up -/

/-- An event is held up: the wording is being asked for it. -/
def HoldsUp (a : Agenda Sitting Task Fault) : Prop :=
  ∃ outcome entries, .conclude outcome entries ∈ a.tasks

/-- The moment at which the last list was taken. -/
def lastTaking (past : List (Agenda Sitting Task Fault)) : Option (Agenda Sitting Task Fault) :=
  past.find? fun a => (accepted a).isSome

/-- The moments since then, the latest first. -/
def sinceTaking (past : List (Agenda Sitting Task Fault)) : List (Agenda Sitting Task Fault) :=
  past.takeWhile fun a => (accepted a).isNone

/-- The last list was taken while an event was held up, and an event that was held up has taken
effect since: it puts back the problems that it found. -/
def Superseded (past : List (Agenda Sitting Task Fault)) : Prop :=
  (∃ b, lastTaking past = some b ∧ HoldsUp b) ∧ ∃ c ∈ sinceTaking past, ∃ r, Resumes c r

theorem Resumes.accepted_eq_none {r : Round} (h : Resumes a r) : accepted a = none := by
  obtain ⟨orders, report, entries, rest, htasks, -⟩ := h
  rw [accepted, htasks]

theorem accepted_of_idle (h : a.tasks = []) : accepted a = none := by
  rw [accepted, h]

section

variable {problems : List Problem}

@[simp] theorem lastTaking_cons_of_none (h : accepted a = none) :
    lastTaking (a :: past) = lastTaking past := by
  simp [lastTaking, h]

@[simp] theorem sinceTaking_cons_of_none (h : accepted a = none) :
    sinceTaking (a :: past) = a :: sinceTaking past := by
  simp [sinceTaking, h]

@[simp] theorem lastAccepted_cons_of_none (h : accepted a = none) :
    lastAccepted (a :: past) = lastAccepted past := by
  simp [lastAccepted, h]

@[simp] theorem lastTaking_cons_of_some (h : accepted a = some problems) :
    lastTaking (a :: past) = some a := by
  simp [lastTaking, h]

@[simp] theorem lastAccepted_cons_of_some (h : accepted a = some problems) :
    lastAccepted (a :: past) = problems := by
  simp [lastAccepted, h]

end

theorem Superseded.cons (h : Superseded past) (hnone : accepted a = none) :
    Superseded (a :: past) := by
  obtain ⟨hlast, c, hc, hresumes⟩ := h
  refine ⟨by rwa [lastTaking_cons_of_none hnone], c, ?_, hresumes⟩
  rw [sinceTaking_cons_of_none hnone]
  exact List.mem_cons_of_mem a hc

/-- Where the wording asks nothing back, no event is held up when a list is taken. -/
theorem Reachable.not_superseded (h : Reachable setup opening past a)
    (hw : opening.onWording = []) : ¬ Superseded past := by
  rintro ⟨⟨b, hlast, outcome, entries, hheld⟩, -⟩
  obtain ⟨later, earlier, rfl⟩ := List.append_of_mem (List.mem_of_find?_eq_some hlast)
  exact (h.of_append.quiet hw).not_held outcome entries hheld

/-- The round has the problems taken last, unless that has been superseded, and so have the events
held up, unless that was done while an event was held up. -/
structure Current (past : List (Agenda Sitting Task Fault)) (s : Sitting) (tasks : List Task) :
    Prop where
  labels_eq : ¬ Superseded past →
    s.round.problems.map Problem.label = (lastAccepted past).map Problem.label
  labelled : (∀ b, lastTaking past = some b → ¬ HoldsUp b) →
    Labelled (fun labels => labels = (lastAccepted past).map Problem.label) s tasks

theorem Current.call (h : Current past a.state []) (hover : a.tasks = []) (houter : task.Outer) :
    Current (a :: past) a.state [task] := by
  have hnone := accepted_of_idle hover
  refine ⟨fun hs => ?_, fun hlast => ?_⟩
  · rw [lastAccepted_cons_of_none hnone]
    exact h.labels_eq fun hsup => hs (hsup.cons hnone)
  · rw [lastTaking_cons_of_none hnone] at hlast
    rw [lastAccepted_cons_of_none hnone]
    exact (h.labelled hlast).call houter

theorem Current.step (setup : Setup) (h : Current past a.state a.tasks) (hc : a.state.CopyMade) :
    Current (a :: past) (a.step (perform setup)).state (a.step (perform setup)).tasks := by
  cases hacc : accepted a with
  | some problems =>
    -- the list is taken here, so that nothing has taken effect since
    have hnew : ((accepted a).getD a.state.round.problems).map Problem.label =
        (lastAccepted (a :: past)).map Problem.label := by
      rw [lastAccepted_cons_of_some hacc, hacc, Option.getD_some]
    refine ⟨fun _ => ?_, fun hlast => ?_⟩
    · rcases labels_of_step setup hc with hsame | ⟨r, hresumes, -⟩
      · exact hsame.trans hnew
      · rw [hresumes.accepted_eq_none] at hacc
        cases hacc
    · refine Labelled.step setup hc (fun r orders report entries hmem => ?_) hnew
      exact absurd ⟨_, entries, hmem⟩ (hlast a (lastTaking_cons_of_some hacc))
  | none =>
    have hkept : ((accepted a).getD a.state.round.problems).map Problem.label =
        a.state.round.problems.map Problem.label := by rw [hacc, Option.getD_none]
    have hlabelled (hlast : ∀ b, lastTaking past = some b → ¬ HoldsUp b) :
        Labelled (fun labels => labels = (lastAccepted past).map Problem.label)
          (a.step (perform setup)).state (a.step (perform setup)).tasks :=
      Labelled.step setup hc (h.labelled hlast).held (hkept.trans (h.labelled hlast).round)
    refine ⟨fun hs => ?_, fun hlast => ?_⟩
    · rw [lastAccepted_cons_of_none hacc]
      rcases labels_of_step setup hc with hsame | ⟨r, hresumes, -⟩
      · exact (hsame.trans hkept).trans (h.labels_eq fun hsup => hs (hsup.cons hacc))
      · -- nothing was held up when the last list was taken
        refine (hlabelled fun b hb hheld => hs ⟨⟨b, ?_, hheld⟩, a, ?_, r, hresumes⟩).round
        · rwa [lastTaking_cons_of_none hacc]
        · rw [sinceTaking_cons_of_none hacc]
          exact List.mem_cons_self
    · rw [lastTaking_cons_of_none hacc] at hlast
      rw [lastAccepted_cons_of_none hacc]
      exact hlabelled hlast

theorem Reachable.current (h : Reachable setup opening past a) (hround : opening.round = {})
    (hc : opening.CopyMade) : Current past a.state a.tasks := by
  have hnil : opening.round.problems.map Problem.label = [] := by rw [hround]; rfl
  exact h.guided (C := fun _ => True) (P := Current) (fun _ _ => trivial)
    ⟨fun _ => hnil, fun _ => .of_idle hnil⟩
    (fun past a task hover hcurrent houter => hcurrent.call hover houter)
    fun past a hreach _ hcurrent => hcurrent.step setup (hreach.copyMade hc)

/-- **The problems of the round are, answers apart, those taken last**, unless that has been
superseded. -/
theorem Reachable.labels_eq (h : Reachable setup opening past a) (hround : opening.round = {})
    (hc : opening.CopyMade) (hs : ¬ Superseded past) :
    a.state.round.problems.map Problem.label = (lastAccepted past).map Problem.label :=
  (h.current hround hc).labels_eq hs

/-- No problems, or those of a list that was taken. -/
def TakenBefore (past : List (Agenda Sitting Task Fault)) (labels : List (Int × String)) : Prop :=
  labels = [] ∨ ∃ problems ∈ past.filterMap accepted, labels = problems.map Problem.label

theorem TakenBefore.cons {labels : List (Int × String)} (h : TakenBefore past labels) :
    TakenBefore (a :: past) labels := by
  refine h.imp_right fun ⟨problems, hmem, heq⟩ => ⟨problems, ?_, heq⟩
  obtain ⟨b, hb, hacc⟩ := List.mem_filterMap.mp hmem
  exact List.mem_filterMap.mpr ⟨b, List.mem_cons_of_mem a hb, hacc⟩

/-- **The problems of the round are, answers apart, those of a list that was taken**, if there are
any, and so are those that the events held up will put in their place. -/
theorem Reachable.labels_taken (h : Reachable setup opening past a) (hround : opening.round = {})
    (hc : opening.CopyMade) : Labelled (TakenBefore past) a.state a.tasks := by
  have hnil : opening.round.problems.map Problem.label = [] := by rw [hround]; rfl
  refine h.guided (C := fun _ => True)
    (P := fun past s tasks => Labelled (TakenBefore past) s tasks) (fun _ _ => trivial)
    (.of_idle (.inl hnil))
    (fun past a task _ hl houter => (hl.mono fun _ => TakenBefore.cons).call houter)
    fun past a hreach _ hl => ?_
  refine Labelled.step setup (hreach.copyMade hc)
    (fun r orders report entries hmem => (hl.held r orders report entries hmem).cons) ?_
  cases hacc : accepted a with
  | none => exact hl.round.cons
  | some problems =>
    exact .inr ⟨problems, List.mem_filterMap.mpr ⟨a, List.mem_cons_self, hacc⟩, rfl⟩

end Sitting

end TimedQuiz
