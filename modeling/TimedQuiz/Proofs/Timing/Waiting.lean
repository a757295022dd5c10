import TimedQuiz.Proofs.Timing.Agenda
import TimedQuiz.Proofs.Timing.Clock

/-!
# Waiting in one go and in two

Time moves on to a moment alarm by alarm, and each alarm may call for any amount of work before the
next one rings. Whoever stops on the way, at whatever moment, and then goes on to the same moment,
hears the same alarms at the same times and finds the same in the end.

* `Agenda.Goes` — doing some of the tasks, with the marks that they leave;
* `Timekeeper` — a system that lets time pass as one of its tasks;
* `Timekeeper.Lasts` — time passes up to a moment, and all that it brings is done;
* `Timekeeper.Waits`, `Timekeeper.Rings` — milliseconds pass, and the alarms that ring first;
* `Timekeeper.ofAnswer` — a clock whose alarms are answered in any way at all.

Main statements: `Timekeeper.lasts_iff` — time passes up to a moment as it passes up to an earlier
one and then on; `Timekeeper.hears_iff` — the same of the alarms heard so far, also where time never
gets to the moment; `Timekeeper.splits`, `Timekeeper.rings_add` — the same of waiting.
-/

namespace TimedQuiz

variable {σ τ ε ρ : Type}

namespace Agenda

variable (perform : τ → σ → Verdict σ τ ε) (mark : Agenda σ τ ε → Option ρ)

/-- Some of the tasks are done, one after the other; with the marks that stood at them. -/
inductive Goes : Agenda σ τ ε → List ρ → Agenda σ τ ε → Prop
  | stay {a : Agenda σ τ ε} : Goes a [] a
  | step {a b : Agenda σ τ ε} {marks : List ρ} : a.tasks ≠ [] → Goes (a.step perform) marks b →
      Goes a ((mark a).toList ++ marks) b

variable {perform mark} {a b c : Agenda σ τ ε} {marks marks' : List ρ}

theorem Goes.trans (h : Goes perform mark a marks b) (h' : Goes perform mark b marks' c) :
    Goes perform mark a (marks ++ marks') c := by
  induction h with
  | stay => exact h'
  | step hne _ ih =>
    rw [List.append_assoc]
    exact .step hne (ih h')

/-- The first step, with the mark that stood at it, and then the others. -/
theorem Goes.of_step {first : Option ρ} (hne : a.tasks ≠ []) (hmark : mark a = first)
    (hstep : a.step perform = b) (h : Goes perform mark b marks c) :
    Goes perform mark a (first.toList ++ marks) c := by
  subst hmark
  subst hstep
  exact .step hne h

theorem Goes.of_idle (h : Goes perform mark a marks b) (hidle : a.tasks = []) :
    marks = [] ∧ b = a := by
  cases h with
  | stay => exact ⟨rfl, rfl⟩
  | step hne _ => exact absurd hidle hne

theorem Goes.run_eq (h : Goes perform mark a marks b) : ∃ n, a.run perform n = b := by
  induction h with
  | stay => exact ⟨0, rfl⟩
  | step hne _ ih =>
    obtain ⟨n, hn⟩ := ih
    exact ⟨n + 1, by rw [run_succ_of_ne hne, hn]⟩

theorem goes_run (perform : τ → σ → Verdict σ τ ε) (mark : Agenda σ τ ε → Option ρ)
    (a : Agenda σ τ ε) (n : Nat) :
    ∃ marks, Goes perform mark a marks (a.run perform n) := by
  induction n generalizing a with
  | zero => exact ⟨[], .stay⟩
  | succ n ih =>
    by_cases hidle : a.tasks = []
    · exact ⟨[], by rw [run_of_isOver hidle]; exact .stay⟩
    · obtain ⟨marks, h⟩ := ih (a.step perform)
      exact ⟨_, by rw [run_succ_of_ne hidle]; exact .step hidle h⟩

/-- No more marks stand on the way than there are tasks to be done. -/
theorem Goes.length_le {n : Nat} (h : Goes perform mark a marks b)
    (hend : (a.run perform n).tasks = []) : marks.length ≤ n := by
  induction h generalizing n with
  | stay => exact Nat.zero_le n
  | @step a b marks hne _ ih =>
    cases n with
    | zero => exact absurd hend hne
    | succ n =>
      rw [run_succ_of_ne hne] at hend
      have hrest := ih hend
      have hmark := Option.length_toList_le (o := mark a)
      rw [List.length_append]
      omega

/-- There is one way to the end. -/
theorem Goes.unique (h : Goes perform mark a marks b) (hb : b.tasks = [])
    (h' : Goes perform mark a marks' c) (hc : c.tasks = []) : marks' = marks ∧ c = b := by
  induction h generalizing marks' with
  | stay => exact h'.of_idle hb
  | step hne _ ih =>
    cases h' with
    | stay => exact absurd hc hne
    | step _ h' =>
      obtain ⟨rfl, heq⟩ := ih hb h'
      exact ⟨rfl, heq⟩

/-- What goes on the same way goes the same way. -/
theorem Goes.of_same_step (hstep : a.step perform = b.step perform) (hmark : mark a = mark b)
    (hne : b.tasks ≠ []) (h : Goes perform mark a marks c) :
    (marks = [] ∧ c = a) ∨ Goes perform mark b marks c := by
  cases h with
  | stay => exact .inl ⟨rfl, rfl⟩
  | step _ hrest =>
    rw [hmark]
    exact .inr (.step hne (hstep ▸ hrest))

end Agenda

/-- To wait in one go is to wait in two: the same alarms ring, and the same is left in the end. -/
def Splits (Waits : σ → Int → List ρ → σ → Prop) : Prop :=
  ∀ (s u : σ) (ms more : Int) (rings : List ρ), 0 ≤ more →
    (Waits s (ms + more) rings u ↔
      ∃ before t after, Waits s ms before t ∧ Waits t more after u ∧ rings = before ++ after)

/-- A system that lets time pass as one of its tasks. Whether an alarm rings next on the way to a
moment, and which, and what it brings, has nothing to do with what time it is; and the alarm that
rings next on the way to a moment is also the next one on the way to a later moment. -/
structure Timekeeper (σ τ ε ρ : Type) where
  perform : τ → σ → Verdict σ τ ε
  /-- The task of letting time pass up to a moment. -/
  elapse : Int → τ
  /-- The moment up to which a task lets time pass. -/
  target? : τ → Option Int
  /-- The alarm that rings next on the way to a moment. -/
  next : Int → σ → Option ρ
  /-- It rings. -/
  strike : ρ → σ → Verdict σ τ ε
  /-- The moment is reached. -/
  arrive : Int → σ → σ
  /-- What time it is. -/
  now : σ → Int
  target?_elapse (target : Int) : target? (elapse target) = some target
  perform_of_next {target : Int} {s : σ} {x : ρ} : next target s = some x →
    perform (elapse target) s = (strike x s).andThen [elapse target]
  perform_of_none {target : Int} {s : σ} : next target s = none →
    perform (elapse target) s = .done (arrive target s) []
  next_mono {target later : Int} {s : σ} {x : ρ} : target ≤ later → next target s = some x →
    next later s = some x
  next_arrive (target later : Int) (s : σ) : next later (arrive target s) = next later s
  strike_arrive (target : Int) (x : ρ) (s : σ) : strike x (arrive target s) = strike x s
  arrive_arrive (target later : Int) (s : σ) : arrive later (arrive target s) = arrive later s
  now_arrive (target : Int) (s : σ) : now (arrive target s) = target

namespace Timekeeper

variable (k : Timekeeper σ τ ε ρ)

/-- The alarm that the first task is about to make ring. -/
def mark (a : Agenda σ τ ε) : Option ρ :=
  match a.tasks with
  | [] => none
  | task :: _ => (k.target? task).bind fun target => k.next target a.state

/-- Some of the tasks are done; with the alarms that ring on the way. -/
abbrev Goes : Agenda σ τ ε → List ρ → Agenda σ τ ε → Prop := Agenda.Goes k.perform k.mark

/-- Tasks, and after them time passes up to a moment. -/
def upTo (target : Int) (tasks : List τ) (s : σ) : Agenda σ τ ε :=
  { state := s, tasks := tasks ++ [k.elapse target] }

/-- Time passes up to a moment, and all that it brings is done; with the alarms that ring on the
way. -/
def Lasts (s : σ) (target : Int) (rings : List ρ) (t : σ) : Prop :=
  k.Goes (k.upTo target [] s) rings { state := t, tasks := [] }

/-- These alarms ring first while time passes up to a moment. -/
def Hears (s : σ) (target : Int) (rings : List ρ) : Prop :=
  ∃ a, k.Goes (k.upTo target [] s) rings a

variable {k} {s t u : σ} {tasks : List τ} {target later : Int} {rings : List ρ}
  {a : Agenda σ τ ε}

theorem upTo_ne_nil (k : Timekeeper σ τ ε ρ) (target : Int) (tasks : List τ) (s : σ) :
    (k.upTo target tasks s).tasks ≠ [] := by
  simp [upTo]

theorem Lasts.unique {rings' : List ρ} (h : k.Lasts s target rings t)
    (h' : k.Lasts s target rings' u) : rings' = rings ∧ u = t := by
  obtain ⟨hrings, heq⟩ := Agenda.Goes.unique h rfl h' rfl
  cases heq
  exact ⟨hrings, rfl⟩

/-! ## One step -/

theorem mark_upTo_nil (k : Timekeeper σ τ ε ρ) (target : Int) (s : σ) :
    k.mark (k.upTo target [] s) = k.next target s := by
  show (k.target? (k.elapse target)).bind _ = _
  rw [k.target?_elapse]
  rfl

theorem step_upTo_nil (k : Timekeeper σ τ ε ρ) (target : Int) (s : σ) :
    (k.upTo target [] s).step k.perform = (k.perform (k.elapse target) s).agenda [] := rfl

/-- What one step comes to on the way to a moment: the moment is reached; or the work goes on, with
the moment still ahead; or it breaks off. -/
theorem step_upTo_cases (k : Timekeeper σ τ ε ρ) (target : Int) (tasks : List τ) (s : σ) :
    (tasks = [] ∧ k.next target s = none ∧ k.mark (k.upTo target tasks s) = none ∧
      (k.upTo target tasks s).step k.perform = { state := k.arrive target s, tasks := [] }) ∨
    ((tasks = [] → k.next target s ≠ none) ∧
      ((∃ tasks' s', ∀ moment, target ≤ moment →
        k.mark (k.upTo moment tasks s) = k.mark (k.upTo target tasks s) ∧
        (k.upTo moment tasks s).step k.perform = k.upTo moment tasks' s') ∨
      ∃ s' fault, ∀ moment, target ≤ moment →
        k.mark (k.upTo moment tasks s) = k.mark (k.upTo target tasks s) ∧
        (k.upTo moment tasks s).step k.perform =
          { state := s', tasks := [], fault := some fault })) := by
  cases tasks with
  | cons task rest =>
    refine .inr ⟨nofun, ?_⟩
    have hstep : ∀ moment, (k.upTo moment (task :: rest) s).step k.perform =
        (k.perform task s).agenda (rest ++ [k.elapse moment]) := fun _ => rfl
    cases hp : k.perform task s with
    | done s' first =>
      refine .inl ⟨first ++ rest, s', fun moment _ => ⟨rfl, ?_⟩⟩
      rw [hstep, hp, Verdict.agenda, upTo, List.append_assoc]
    | failed s' fault =>
      refine .inr ⟨s', fault, fun moment _ => ⟨rfl, ?_⟩⟩
      rw [hstep, hp]
      rfl
  | nil =>
    cases hnext : k.next target s with
    | none =>
      refine .inl ⟨rfl, rfl, by rw [mark_upTo_nil, hnext], ?_⟩
      rw [step_upTo_nil, k.perform_of_none hnext]
      rfl
    | some x =>
      refine .inr ⟨fun _ => nofun, ?_⟩
      -- the same alarm rings next on the way to every later moment
      have hsame : ∀ moment, target ≤ moment → k.mark (k.upTo moment [] s) =
          k.mark (k.upTo target [] s) := by
        intro moment hle
        rw [mark_upTo_nil, mark_upTo_nil, hnext, k.next_mono hle hnext]
      cases hp : k.strike x s with
      | done s' first =>
        refine .inl ⟨first, s', fun moment hle => ⟨hsame moment hle, ?_⟩⟩
        rw [step_upTo_nil, k.perform_of_next (k.next_mono hle hnext), hp, Verdict.andThen,
          Verdict.agenda, List.append_nil, upTo]
      | failed s' fault =>
        refine .inr ⟨s', fault, fun moment hle => ⟨hsame moment hle, ?_⟩⟩
        rw [step_upTo_nil, k.perform_of_next (k.next_mono hle hnext), hp]
        rfl

/-- Whether time stands at an earlier moment or not, it passes in the same way from there. -/
theorem step_arrive (k : Timekeeper σ τ ε ρ) (target later : Int) (s : σ) :
    (k.upTo later [] (k.arrive target s)).step k.perform = (k.upTo later [] s).step k.perform ∧
      k.mark (k.upTo later [] (k.arrive target s)) = k.mark (k.upTo later [] s) := by
  constructor
  · rw [step_upTo_nil, step_upTo_nil]
    cases hnext : k.next later s with
    | none =>
      rw [k.perform_of_none hnext,
        k.perform_of_none ((k.next_arrive target later s).trans hnext), k.arrive_arrive]
    | some x =>
      rw [k.perform_of_next hnext,
        k.perform_of_next ((k.next_arrive target later s).trans hnext), k.strike_arrive]
  · rw [mark_upTo_nil, mark_upTo_nil]
    exact k.next_arrive target later s

/-! ## The whole way -/

/-- **On the way to the earlier moment** everything happens as on the way to the later one, up to
where the moment is reached, with no alarm due any more, or where the work breaks off. -/
theorem Goes.onward (hle : target ≤ later) (h : k.Goes (k.upTo target tasks s) rings a) :
    (∃ tasks' s', a = k.upTo target tasks' s' ∧
      k.Goes (k.upTo later tasks s) rings (k.upTo later tasks' s')) ∨
    (∃ s', a = { state := k.arrive target s', tasks := [] } ∧
      k.Goes (k.upTo later tasks s) rings (k.upTo later [] s')) ∨
    (∃ s' fault, a = { state := s', tasks := [], fault := some fault } ∧
      k.Goes (k.upTo later tasks s) rings a) := by
  generalize hb : k.upTo target tasks s = b at h
  induction h generalizing tasks s with
  | stay => exact .inl ⟨tasks, s, hb.symm, .stay⟩
  | @step b a marks hne hrest ih =>
    subst hb
    rcases step_upTo_cases k target tasks s with ⟨rfl, -, hmark, hstep⟩ | ⟨-, ⟨tasks₁, s₁,
      hstep⟩ | ⟨s₁, fault, hstep⟩⟩
    · rw [hstep] at hrest
      obtain ⟨rfl, rfl⟩ := hrest.of_idle rfl
      rw [hmark]
      exact .inr (.inl ⟨s, rfl, .stay⟩)
    · have first : ∀ {marks b}, k.Goes (k.upTo later tasks₁ s₁) marks b →
          k.Goes (k.upTo later tasks s)
            ((k.mark (k.upTo target tasks s)).toList ++ marks) b :=
        .of_step (upTo_ne_nil k _ _ _) (hstep later hle).1 (hstep later hle).2
      rcases ih (hstep target (Int.le_refl _)).2.symm with ⟨tasks', s', ha, hgoes⟩ | ⟨s', ha,
        hgoes⟩ | ⟨s', fault, ha, hgoes⟩
      · exact .inl ⟨tasks', s', ha, first hgoes⟩
      · exact .inr (.inl ⟨s', ha, first hgoes⟩)
      · exact .inr (.inr ⟨s', fault, ha, first hgoes⟩)
    · rw [(hstep target (Int.le_refl _)).2] at hrest
      obtain ⟨rfl, rfl⟩ := hrest.of_idle rfl
      refine .inr (.inr ⟨s₁, fault, rfl, ?_⟩)
      exact .of_step (upTo_ne_nil k _ _ _) (hstep later hle).1 (hstep later hle).2 .stay

/-- **On the way to the later moment** the work is still on the way to the earlier one, or has gone
on from there, or has broken off before. -/
theorem Goes.earlier (hle : target ≤ later) (h : k.Goes (k.upTo later tasks s) rings a) :
    (∃ tasks' s', a = k.upTo later tasks' s' ∧
      k.Goes (k.upTo target tasks s) rings (k.upTo target tasks' s')) ∨
    (∃ before s' after,
      k.Goes (k.upTo target tasks s) before { state := k.arrive target s', tasks := [] } ∧
      k.Goes (k.upTo later [] s') after a ∧ rings = before ++ after) ∨
    (∃ s' fault, a = { state := s', tasks := [], fault := some fault } ∧
      k.Goes (k.upTo target tasks s) rings a) := by
  generalize hb : k.upTo later tasks s = b at h
  induction h generalizing tasks s with
  | stay => exact .inl ⟨tasks, s, hb.symm, .stay⟩
  | @step b a marks hne hrest ih =>
    subst hb
    rcases step_upTo_cases k target tasks s with ⟨rfl, -, hmark, hstep⟩ | ⟨-, ⟨tasks₁, s₁,
      hstep⟩ | ⟨s₁, fault, hstep⟩⟩
    · refine .inr (.inl ⟨[], s, _, ?_, .step hne hrest, rfl⟩)
      exact .of_step (upTo_ne_nil k _ _ _) hmark hstep .stay
    · have hstep₁ := hstep target (Int.le_refl _)
      have first : ∀ {marks b}, k.Goes (k.upTo target tasks₁ s₁) marks b →
          k.Goes (k.upTo target tasks s)
            ((k.mark (k.upTo later tasks s)).toList ++ marks) b :=
        .of_step (upTo_ne_nil k _ _ _) (hstep later hle).1.symm hstep₁.2
      rcases ih (hstep later hle).2.symm with ⟨tasks', s', ha, hgoes⟩ | ⟨before, s', after,
        hbefore, hafter, rfl⟩ | ⟨s', fault, ha, hgoes⟩
      · exact .inl ⟨tasks', s', ha, first hgoes⟩
      · exact .inr (.inl ⟨_, s', after, first hbefore, hafter, (List.append_assoc ..).symm⟩)
      · exact .inr (.inr ⟨s', fault, ha, first hgoes⟩)
    · rw [(hstep later hle).2] at hrest
      obtain ⟨rfl, rfl⟩ := hrest.of_idle rfl
      refine .inr (.inr ⟨s₁, fault, rfl, ?_⟩)
      exact .of_step (upTo_ne_nil k _ _ _) (hstep later hle).1.symm
        (hstep target (Int.le_refl _)).2 .stay

theorem upTo_ne_over (k : Timekeeper σ τ ε ρ) (target : Int) (tasks : List τ) (s t : σ)
    (fault : Option ε) : k.upTo target tasks s ≠ { state := t, tasks := [], fault } :=
  fun h => absurd (congrArg Agenda.tasks h) (upTo_ne_nil k _ _ _)

/-- From an earlier moment time passes as if it did not stand there. -/
theorem lasts_arrive_iff :
    k.Lasts (k.arrive target s) later rings u ↔ k.Lasts s later rings u := by
  obtain ⟨hstep, hmark⟩ := step_arrive k target later s
  have hne := fun s => upTo_ne_nil k later [] s
  constructor
  · intro h
    rcases Agenda.Goes.of_same_step hstep hmark (hne s) h with ⟨-, ha⟩ | h
    · exact absurd ha.symm (upTo_ne_over k _ _ _ _ _)
    · exact h
  · intro h
    rcases Agenda.Goes.of_same_step hstep.symm hmark.symm (hne _) h with ⟨-, ha⟩ | h
    · exact absurd ha.symm (upTo_ne_over k _ _ _ _ _)
    · exact h

theorem hears_arrive_iff : k.Hears (k.arrive target s) later rings ↔ k.Hears s later rings := by
  obtain ⟨hstep, hmark⟩ := step_arrive k target later s
  have hne := fun s => upTo_ne_nil k later [] s
  constructor
  · rintro ⟨a, h⟩
    rcases Agenda.Goes.of_same_step hstep hmark (hne s) h with ⟨rfl, -⟩ | h
    · exact ⟨_, .stay⟩
    · exact ⟨a, h⟩
  · rintro ⟨a, h⟩
    rcases Agenda.Goes.of_same_step hstep.symm hmark.symm (hne _) h with ⟨rfl, -⟩ | h
    · exact ⟨_, .stay⟩
    · exact ⟨a, h⟩

/-- The moment is reached in the end, from where no alarm is due any more up to it. -/
theorem Lasts.arrived (hle : target ≤ later) (h : k.Lasts s target rings t) :
    ∃ s', t = k.arrive target s' ∧ k.Goes (k.upTo later [] s) rings (k.upTo later [] s') := by
  rcases Goes.onward hle h with ⟨tasks', s', ha, -⟩ | ⟨s', ha, hgoes⟩ | ⟨s', fault, ha, -⟩
  · exact absurd ha.symm (upTo_ne_over k _ _ _ _ _)
  · exact ⟨s', congrArg Agenda.state ha, hgoes⟩
  · cases ha

/-- **Time passes up to a moment as it passes up to an earlier one and then on**: the same alarms
ring, and the same is left in the end. -/
theorem lasts_iff (hle : target ≤ later) :
    k.Lasts s later rings u ↔
      ∃ before t after, k.Lasts s target before t ∧ k.Lasts t later after u ∧
        rings = before ++ after := by
  constructor
  · intro h
    rcases Goes.earlier hle h with ⟨tasks', s', ha, -⟩ | ⟨before, s', after, hbefore, hafter,
      hrings⟩ | ⟨s', fault, ha, -⟩
    · exact absurd ha.symm (upTo_ne_over k _ _ _ _ _)
    · exact ⟨before, k.arrive target s', after, hbefore, lasts_arrive_iff.mpr hafter, hrings⟩
    · cases ha
  · rintro ⟨before, t, after, hbefore, hafter, rfl⟩
    obtain ⟨s', rfl, hgoes⟩ := hbefore.arrived hle
    exact Agenda.Goes.trans hgoes (lasts_arrive_iff.mp hafter)

/-- **The alarms that ring first on the way to a moment** are those on the way to an earlier one,
and then on from there; also where the moment is never reached, since alarms go on ringing or the
work breaks off. -/
theorem hears_iff (hle : target ≤ later) :
    k.Hears s later rings ↔
      k.Hears s target rings ∨
        ∃ before t after, k.Lasts s target before t ∧ k.Hears t later after ∧
          rings = before ++ after := by
  constructor
  · rintro ⟨a, h⟩
    rcases Goes.earlier hle h with ⟨tasks', s', -, hgoes⟩ | ⟨before, s', after, hbefore, hafter,
      hrings⟩ | ⟨s', fault, -, hgoes⟩
    · exact .inl ⟨_, hgoes⟩
    · exact .inr ⟨before, k.arrive target s', after, hbefore, hears_arrive_iff.mpr ⟨a, hafter⟩,
        hrings⟩
    · exact .inl ⟨a, hgoes⟩
  · rintro (⟨a, h⟩ | ⟨before, t, after, hbefore, hafter, rfl⟩)
    · rcases Goes.onward hle h with ⟨tasks', s', -, hgoes⟩ | ⟨s', -, hgoes⟩ | ⟨s', fault, -, hgoes⟩
      · exact ⟨_, hgoes⟩
      · exact ⟨_, hgoes⟩
      · exact ⟨_, hgoes⟩
    · obtain ⟨s', rfl, hgoes⟩ := hbefore.arrived hle
      obtain ⟨a, ha⟩ := hears_arrive_iff.mp hafter
      exact ⟨a, Agenda.Goes.trans hgoes ha⟩

/-! ## Waiting -/

variable {ms more : Int}

variable (k) in
/-- Milliseconds pass, and all that they bring is done; with the alarms that ring on the way. -/
def Waits (s : σ) (ms : Int) (rings : List ρ) (t : σ) : Prop := k.Lasts s (k.now s + ms) rings t

variable (k) in
/-- These alarms ring first while milliseconds pass. -/
def Rings (s : σ) (ms : Int) (rings : List ρ) : Prop := k.Hears s (k.now s + ms) rings

theorem Waits.now_eq (h : k.Waits s ms rings t) : k.now t = k.now s + ms := by
  obtain ⟨s', rfl, -⟩ := Lasts.arrived (Int.le_refl _) h
  exact k.now_arrive _ s'

/-- **Waiting can be split.** -/
theorem splits (k : Timekeeper σ τ ε ρ) : Splits k.Waits := by
  intro s u ms more rings hmore
  have hsum : k.now s + (ms + more) = k.now s + ms + more := (Int.add_assoc ..).symm
  rw [Waits, hsum, lasts_iff (show k.now s + ms ≤ k.now s + ms + more by omega)]
  constructor
  · rintro ⟨before, t, after, hbefore, hafter, hrings⟩
    refine ⟨before, t, after, hbefore, ?_, hrings⟩
    rw [Waits, Waits.now_eq hbefore]
    exact hafter
  · rintro ⟨before, t, after, hbefore, hafter, hrings⟩
    rw [Waits, hbefore.now_eq] at hafter
    exact ⟨before, t, after, hbefore, hafter, hrings⟩

theorem Waits.unique {rings' : List ρ} (h : k.Waits s ms rings t) (h' : k.Waits s ms rings' u) :
    rings' = rings ∧ u = t :=
  Lasts.unique h h'

/-- **The alarms that ring first** are the same, however the time is split. -/
theorem rings_add (hmore : 0 ≤ more) :
    k.Rings s (ms + more) rings ↔
      k.Rings s ms rings ∨
        ∃ before t after, k.Waits s ms before t ∧ k.Rings t more after ∧
          rings = before ++ after := by
  have hsum : k.now s + (ms + more) = k.now s + ms + more := (Int.add_assoc ..).symm
  rw [Rings, hsum, hears_iff (show k.now s + ms ≤ k.now s + ms + more by omega)]
  refine or_congr_right ⟨?_, ?_⟩
  · rintro ⟨before, t, after, hbefore, hafter, hrings⟩
    refine ⟨before, t, after, hbefore, ?_, hrings⟩
    rw [Rings, Waits.now_eq hbefore]
    exact hafter
  · rintro ⟨before, t, after, hbefore, hafter, hrings⟩
    rw [Rings, hbefore.now_eq] at hafter
    exact ⟨before, t, after, hbefore, hafter, hrings⟩

/-- An agenda that begins with a wait goes on as the wait does. -/
theorem goes_iff_of_wait {b : Agenda σ τ ε} (hne : b.tasks ≠ []) (hmark : k.mark b = none)
    (hstep : b.step k.perform = k.upTo (k.now s + ms) [] s) (ha : a ≠ b) :
    k.Goes b rings a ↔ k.Goes (k.upTo (k.now s + ms) [] s) rings a := by
  constructor
  · intro h
    cases h with
    | stay => exact absurd rfl ha
    | step _ hrest =>
      rw [hmark]
      exact hstep ▸ hrest
  · exact Agenda.Goes.of_step hne hmark hstep

/-! ## A clock by itself -/

/-- A clock with whatever its holder keeps, where an alarm that is heard is answered by setting and
cancelling alarms, or in any other way. -/
def ofAnswer {α μ : Type} (answer : α → Clock α × μ → Clock α × μ) :
    Timekeeper (Clock α × μ) Int Empty (Nat × Int) where
  perform target s :=
    match s.1.earliest? target with
    | none => .done ({ s.1 with now := target }, s.2) []
    | some (handle, due) =>
      match s.1.ring handle due with
      | (clock, none) => .done (clock, s.2) [target]
      | (clock, some x) => .done (answer x (clock, s.2)) [target]
  elapse target := target
  target? := some
  next target s := s.1.earliest? target
  strike ringing s :=
    match s.1.ring ringing.1 ringing.2 with
    | (clock, none) => .done (clock, s.2) []
    | (clock, some x) => .done (answer x (clock, s.2)) []
  arrive target s := ({ s.1 with now := target }, s.2)
  now s := s.1.now
  target?_elapse _ := rfl
  perform_of_next := by
    intro target s x h
    simp only [h]
    obtain ⟨clock, heard⟩ := s.1.ring x.1 x.2
    cases heard <;> rfl
  perform_of_none := by
    intro target s h
    simp only [h]
  next_mono := Clock.earliest?_mono
  next_arrive _ _ _ := rfl
  strike_arrive _ _ _ := rfl
  arrive_arrive _ _ _ := rfl
  now_arrive _ _ := rfl

end Timekeeper

end TimedQuiz
