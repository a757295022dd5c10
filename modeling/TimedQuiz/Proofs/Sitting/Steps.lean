import TimedQuiz.Proofs.Round.Moves
import TimedQuiz.Proofs.Timing.Clock
import TimedQuiz.Sitting.Run

/-!
# What one task can do to a sitting

* `Sitting.moved` — the sitting whose round has moved and whose timers have been set right;
* `Sitting.Taken` — what taking up a task changes, before any event reaches the round;
* `Sitting.Arrives` — the events that reach the round;
* `Sitting.Due` — what a task lets take effect: an event that reaches the round, or what is left of
  one that the wording has held up;
* `Sitting.Does` — all that doing one task can come to.

Main statement: `perform_does` — doing a task comes to one of these things only.
-/

namespace TimedQuiz

/-- The task is a move to be made. -/
def Task.isMove : Task → Bool
  | .move _ => true
  | _ => false

/-- The task is neither a move nor an event: it follows a move or an alarm of its own accord. -/
inductive Task.Chore : Task → Prop
  | retire : Chore .retire
  | elapse (target : Int) : Chore (.elapse target)

/-- The task hands in a list of problems. -/
def Task.Presents (task : Task) : Prop := ∃ name copied, task = .move (.present name copied)

namespace Sitting

variable (setup : Setup)

/-! ## Records and timers touch little else -/

theorem record_record (s : Sitting) (es fs : List Entry) :
    (s.record es).record fs = s.record (es ++ fs) := by
  simp [record]

/-- The sitting whose round has moved and whose timers have been set right. -/
def moved (s : Sitting) (round : Round) (orders : List TimerOrder) : Sitting :=
  orders.foldl (carryOut setup) { s with round }

theorem carryOut_frame (s : Sitting) (order : TimerOrder) :
    ∃ clock pending nextAdvance ticker,
      s.carryOut setup order = { s with clock, pending, nextAdvance, ticker } := by
  cases order with
  | scheduleAdvance order => exact ⟨_, _, _, _, rfl⟩
  | cancelAdvances => exact ⟨_, _, s.nextAdvance, s.ticker, rfl⟩
  | startTicker generation =>
    simp only [carryOut, startTicker, stopTicker]
    split
    · exact ⟨_, s.pending, s.nextAdvance, _, rfl⟩
    · exact ⟨_, s.pending, s.nextAdvance, _, rfl⟩
  | stopTicker =>
    simp only [carryOut, stopTicker]
    split
    · exact ⟨s.clock, s.pending, s.nextAdvance, s.ticker, rfl⟩
    · exact ⟨_, s.pending, s.nextAdvance, _, rfl⟩

/-- Timers are set right without touching anything else. -/
theorem moved_frame (s : Sitting) (round : Round) (orders : List TimerOrder) :
    ∃ clock pending nextAdvance ticker,
      s.moved setup round orders = { s with round, clock, pending, nextAdvance, ticker } := by
  unfold moved
  suffices ∀ t : Sitting, ∃ clock pending nextAdvance ticker,
      orders.foldl (carryOut setup) t = { t with clock, pending, nextAdvance, ticker } from
    this { s with round }
  induction orders with
  | nil => exact fun t => ⟨t.clock, t.pending, t.nextAdvance, t.ticker, rfl⟩
  | cons order orders ih =>
    intro t
    obtain ⟨c, p, n, k, h⟩ := carryOut_frame setup t order
    obtain ⟨c', p', n', k', h'⟩ :=
      ih { t with clock := c, pending := p, nextAdvance := n, ticker := k }
    exact ⟨c', p', n', k', by rw [List.foldl_cons, h, h']⟩

/-! ## What the scripts offer -/

/-- All moves that the listeners and the wording have yet to make. -/
def scripted (s : Sitting) : List Move := (s.onResult ++ s.onChange ++ s.onWording).flatten

/-- The moves that a script of calls offers next. -/
def offered (script : List (List Move)) : List Move := script.head?.getD []

theorem mem_flatten_of_offered {script : List (List Move)} {m : Move} (h : m ∈ offered script) :
    m ∈ script.flatten := by
  cases script with
  | nil => cases h
  | cons moves later => exact List.mem_append_left _ h

theorem mem_flatten_of_tail {script : List (List Move)} {m : Move} (h : m ∈ script.tail.flatten) :
    m ∈ script.flatten := by
  cases script with
  | nil => exact h
  | cons moves later => exact List.mem_append_right moves h

theorem offered_length_add (script : List (List Move)) :
    (offered script).length + script.tail.flatten.length = script.flatten.length := by
  cases script with
  | nil => rfl
  | cons moves later => exact List.length_append.symm

theorem flatten_tail_length_le (script : List (List Move)) :
    script.tail.flatten.length ≤ script.flatten.length := by
  rw [← offered_length_add script]
  exact Nat.le_add_left _ _

theorem countP_isMove_map (moves : List Move) :
    (moves.map Task.move).countP Task.isMove = moves.length := by
  rw [List.countP_map]
  exact List.countP_eq_length.mpr fun _ _ => rfl

theorem mem_scripted {s : Sitting} {m : Move} :
    m ∈ s.scripted ↔
      m ∈ s.onResult.flatten ∨ m ∈ s.onChange.flatten ∨ m ∈ s.onWording.flatten := by
  simp only [scripted, List.flatten_append, List.mem_append, or_assoc]

theorem carryOut_withJournal (s : Sitting) (journal : List Entry) (order : TimerOrder) :
    { s with journal }.carryOut setup order = { s.carryOut setup order with journal } := by
  cases order with
  | scheduleAdvance order => rfl
  | cancelAdvances => rfl
  | startTicker generation =>
    simp only [carryOut, startTicker, stopTicker]
    split <;> rfl
  | stopTicker =>
    simp only [carryOut, stopTicker]
    split <;> rfl

/-- What is on record has no influence on the timers. -/
theorem moved_withJournal (s : Sitting) (journal : List Entry) (round : Round)
    (orders : List TimerOrder) :
    { s with journal }.moved setup round orders = { s.moved setup round orders with journal } := by
  unfold moved
  suffices ∀ t : Sitting, orders.foldl (carryOut setup) { t with journal } =
      { orders.foldl (carryOut setup) t with journal } from this { s with round }
  induction orders with
  | nil => exact fun _ => rfl
  | cons order orders ih =>
    intro t
    rw [List.foldl_cons, List.foldl_cons, carryOut_withJournal, ih]

/-! ## What an event leaves behind -/

/-- **What a moving event leaves behind.** The round has moved and the timers are right; beyond
that there are entries, and the listener for results may have been called. -/
theorem effect_moved (s : Sitting) (round : Round) (orders : List TimerOrder)
    (report : Option Report) :
    ∃ journal onResult moves,
      s.effect setup (.ok (.moved round orders report)) =
        .done { s.moved setup round orders with journal, onResult }
          (moves.map .move ++ if setup.tellsChanges then [.announce] else []) ∧
      ((onResult = s.onResult ∧ moves = []) ∨
        (onResult = s.onResult.tail ∧ moves = offered s.onResult)) := by
  obtain ⟨c, p, n, k, hm⟩ := moved_frame setup s round orders
  have hfold : orders.foldl (carryOut setup) { s with round } = s.moved setup round orders := rfl
  simp only [effect, settle, hfold]
  cases report with
  | none => exact ⟨s.journal, s.onResult, [], by rw [hm]; rfl, .inl ⟨rfl, rfl⟩⟩
  | some report =>
    simp only [handOut]
    split
    · exact ⟨_, s.onResult.tail, offered s.onResult, by rw [hm]; rfl, .inr ⟨rfl, rfl⟩⟩
    · exact ⟨_, s.onResult, [], by rw [hm]; rfl, .inl ⟨rfl, rfl⟩⟩

theorem conclude_cons (s : Sitting) (outcome : Except Fault Transition) (entry : Entry)
    (entries : List Entry) :
    s.conclude setup outcome (entry :: entries) =
      match entry, s.onWording with
      | .asked _, moves :: later =>
        .done { s.record [entry] with onWording := later }
          (moves.map .move ++ [.conclude outcome entries])
      | _, _ => (s.record [entry]).conclude setup outcome entries := rfl

/-- The entries of an event are all made and it takes effect, or the wording holds it up at one of
its questions, when those up to there are made. -/
theorem conclude_eq_cases (s : Sitting) (outcome : Except Fault Transition) (entries : List Entry) :
    s.conclude setup outcome entries = (s.record entries).effect setup outcome ∨
    ∃ before key rest moves later, entries = before ++ .asked key :: rest ∧
      s.onWording = moves :: later ∧
      s.conclude setup outcome entries =
        .done { s.record (before ++ [.asked key]) with onWording := later }
          (moves.map .move ++ [.conclude outcome rest]) := by
  induction entries generalizing s with
  | nil => exact .inl rfl
  | cons entry entries ih =>
    have hrec : ∀ es, (s.record [entry]).record es = s.record (entry :: es) :=
      record_record s [entry]
    rw [conclude_cons]
    split
    · rename_i key moves later hw
      exact .inr ⟨[], key, entries, moves, later, rfl, hw, rfl⟩
    · rcases ih (s.record _) with h | ⟨before, key, rest, moves, later, hentries, hw, h⟩
      · exact .inl (h.trans (by rw [hrec]))
      · refine .inr ⟨_ :: before, key, rest, moves, later, by rw [hentries]; rfl, hw, h.trans ?_⟩
        rw [hrec]
        rfl

/-- The same, whatever is on record. -/
theorem conclude_cases (s : Sitting) (outcome : Except Fault Transition) (entries : List Entry) :
    (∃ journal, s.conclude setup outcome entries = { s with journal }.effect setup outcome) ∨
    ∃ journal before key rest moves later, entries = before ++ .asked key :: rest ∧
      s.onWording = moves :: later ∧
      s.conclude setup outcome entries =
        .done { s with journal, onWording := later }
          (moves.map .move ++ [.conclude outcome rest]) := by
  rcases conclude_eq_cases setup s outcome entries with h | ⟨before, key, rest, moves, later,
    hentries, hw, h⟩
  · exact .inl ⟨_, h⟩
  · exact .inr ⟨_, before, key, rest, moves, later, hentries, hw, h⟩

/-- Where a question is still to be asked, and the wording has something to do before it answers, an
event is held up. -/
theorem conclude_of_asked {s : Sitting} {entries : List Entry} {key : String}
    (hasked : .asked key ∈ entries) (hw : s.onWording ≠ []) (outcome : Except Fault Transition) :
    ∃ journal moves later rest, s.onWording = moves :: later ∧
      s.conclude setup outcome entries =
        .done { s with journal, onWording := later }
          (moves.map .move ++ [.conclude outcome rest]) := by
  induction entries generalizing s with
  | nil => cases hasked
  | cons entry entries ih =>
    rw [conclude_cons]
    split
    · rename_i moves later hmoves
      exact ⟨_, moves, later, entries, hmoves, rfl⟩
    · rename_i hnot
      rcases List.mem_cons.mp hasked with rfl | hasked
      · obtain ⟨moves, later, hmoves⟩ := List.exists_cons_of_ne_nil hw
        exact absurd hmoves (hnot key moves later rfl)
      · obtain ⟨journal, moves, later, rest, hmoves, h⟩ := ih (s := s.record _) hasked hw
        exact ⟨journal, moves, later, rest, hmoves, h⟩

/-- Where the wording asks nothing back, an event takes effect at once. -/
theorem conclude_of_silent {s : Sitting} (h : s.onWording = [])
    (outcome : Except Fault Transition) (entries : List Entry) :
    s.conclude setup outcome entries = (s.record entries).effect setup outcome := by
  induction entries generalizing s with
  | nil => rfl
  | cons entry entries ih =>
    have hrec : s.record (entry :: entries) = (s.record [entry]).record entries :=
      (record_record s [entry] entries).symm
    rw [conclude_cons]
    split
    · rename_i heq
      rw [h] at heq
      cases heq
    · rw [hrec]
      exact ih h

theorem react_of_silent {s : Sitting} (h : s.onWording = []) (hd : s.disposed = false)
    (event : Event) :
    s.react setup event =
      (s.record (s.round.next setup.rules setup.wording event).entries).effect setup
        (s.round.next setup.rules setup.wording event).outcome := by
  unfold react
  rw [if_neg (by simp [hd])]
  exact conclude_of_silent setup h _ _

/-! ## What taking up a task changes -/

/-- The sitting after an alarm was heard, apart from what is on record. -/
def withHeard (s : Sitting) (clock : Clock Purpose) : Purpose → Sitting
  | .advance number _ =>
    { s with clock, pending := s.pending.filter fun p => p.1 != number }
  | .tick _ => { s with clock }

/-- A copy that was handed in has been made. -/
def CopyMade (s : Sitting) : Prop := ∀ serial, s.source = some (.copy serial) → serial < s.copies

/-- What taking up a task changes in a sitting, before any event reaches the round. -/
inductive Taken (s : Sitting) : Sitting → Prop
  | desk {source : Option Source} {enabled disposed : Bool} {sheets : Table (List Problem)}
      {copies : Nat} {onChange : List (List Move)} {journal : List Entry} :
      (s.CopyMade → ∀ serial, source = some (.copy serial) → serial < copies) →
      (s.disposed = true → disposed = true) →
      (onChange = s.onChange ∨ onChange = s.onChange.tail) →
      Taken s { s with source, enabled, disposed, sheets, copies, onChange, journal }
  | time {now : Int} {journal : List Entry} :
      Taken s { s with clock := { s.clock with now }, journal }
  | unheard {handle : Nat} {clock : Clock Purpose} {journal : List Entry} :
      s.clock.Sounds handle clock → s.clock.alarms[handle]?.bind Alarm.heard = none →
      Taken s { s with clock, journal }
  | heard {handle : Nat} {clock : Clock Purpose} {x : Purpose} {journal : List Entry} :
      s.clock.Sounds handle clock → s.clock.alarms[handle]?.bind Alarm.heard = some x →
      Taken s { s.withHeard clock x with journal }

theorem Taken.refl (s : Sitting) : s.Taken s := .desk id id (.inl rfl)

/-- The events that reach the round of a sitting. -/
inductive Arrives (s : Sitting) : Event → Prop
  | load (problems : List Problem) : Arrives s (.load problems)
  | submit (id : Int) (answer : Float) : Arrives s (.submit id answer)
  | back : Arrives s .back
  | forward : Arrives s .forward
  | finish : Arrives s (.finish none)
  | retry : Arrives s .retry
  | teardown : s.disposed = false → Arrives s .teardown
  | advance (number : Nat) {order : Advance} : .advance number order ∈ s.clock.purposes →
      order.generation = s.round.generation → Arrives s (.advance order)
  | tick : Arrives s (.tick s.round.generation)

/-- A task that asks for something new: not an event that has been held up. -/
inductive Fresh (s : Sitting) : Task → Prop
  | move {m : Move} : m ∈ s.scripted → Fresh s (.move m)
  | announce : Fresh s .announce
  | retire : Fresh s .retire
  | elapse (target : Int) : Fresh s (.elapse target)

/-- What a task lets take effect: an event that reaches the round, or what is left of one that the
wording has held up. Only what is handed in is loaded, and what follows a teardown is the end of
the sitting. -/
inductive Due (s : Sitting) (task : Task) (after : List Task) : Recorded Transition → Prop
  | event {e : Event} : s.Arrives e → (∀ problems, e = .load problems → task.Presents) →
      (e = .teardown → after = [.retire]) →
      Due s task after (s.round.next setup.rules setup.wording e)
  | rest {x : Recorded Transition} : task = .conclude x.outcome x.entries → after = [] →
      Due s task after x

/-- All that doing a task can come to: something beside the round, a fault, a moved round, or an
event that the wording holds up. -/
inductive Does (s : Sitting) (task : Task) : Verdict Sitting Task Fault → Prop
  | aside {s' : Sitting} {after : List Task} : s.Taken s' → (∀ t ∈ after, s.Fresh t) →
      after.countP Task.isMove + s'.onChange.flatten.length ≤ s.onChange.flatten.length →
      Does s task (.done s' after)
  | gaveUp {message : String} : task = .move (.giveUp message) →
      Does s task (.failed s (.listener message))
  | broken {s' : Sitting} {after : List Task} {x : Recorded Transition} {fault : Fault}
      {journal : List Entry} : s.Taken s' → Due setup s' task after x →
      x.outcome = .error fault → Does s task (.failed { s' with journal } fault)
  | moved {s' : Sitting} {first after : List Task} {x : Recorded Transition} {r : Round}
      {orders : List TimerOrder} {report : Option Report} {journal : List Entry}
      {onResult : List (List Move)} : s.Taken s' → Due setup s' task after x →
      x.outcome = .ok (.moved r orders report) → (∀ t ∈ first ++ after, s.Fresh t) →
      (onResult = s.onResult ∨ onResult = s.onResult.tail) →
      (first ++ after).countP Task.isMove + onResult.flatten.length ≤ s.onResult.flatten.length →
      Does s task (.done { s'.moved setup r orders with journal, onResult } (first ++ after))
  | held {s' : Sitting} {after : List Task} {x : Recorded Transition} {before entries : List Entry}
      {key : String} {moves : List Move} {later : List (List Move)} {journal : List Entry} :
      s.Taken s' → Due setup s' task after x → x.entries = before ++ .asked key :: entries →
      s.onWording = moves :: later → (∀ t ∈ after, s.Fresh t) → after.countP Task.isMove = 0 →
      Does s task (.done { s' with journal, onWording := later }
        (moves.map .move ++ .conclude x.outcome entries :: after))

/-! ## All that doing a task can come to -/

variable {setup}

theorem Taken.withJournal {s s' : Sitting} (h : s.Taken s') (journal : List Entry) :
    s.Taken { s' with journal } := by
  cases h with
  | desk hm hd hc => exact .desk hm hd hc
  | time => exact .time
  | unheard hs hx => exact .unheard hs hx
  | heard hs hx => exact .heard hs hx

/-- What taking up a task leaves alone. -/
structure Spared (s s' : Sitting) : Prop where
  round_eq : s'.round = s.round
  nextAdvance_eq : s'.nextAdvance = s.nextAdvance
  ticker_eq : s'.ticker = s.ticker
  purposes_eq : s'.clock.purposes = s.clock.purposes
  pending_subset : ∀ p ∈ s'.pending, p ∈ s.pending
  onResult_eq : s'.onResult = s.onResult
  onChange_cases : s'.onChange = s.onChange ∨ s'.onChange = s.onChange.tail
  onWording_eq : s'.onWording = s.onWording
  copyMade : s.CopyMade → s'.CopyMade
  disposed_of_disposed : s.disposed = true → s'.disposed = true

theorem Taken.spared {s s' : Sitting} (h : s.Taken s') : s.Spared s' := by
  cases h with
  | desk hm hd hc => exact ⟨rfl, rfl, rfl, rfl, fun _ => id, rfl, hc, rfl, hm, hd⟩
  | time => exact ⟨rfl, rfl, rfl, rfl, fun _ => id, rfl, .inl rfl, rfl, id, id⟩
  | unheard hs _ => exact ⟨rfl, rfl, rfl, hs.purposes_eq, fun _ => id, rfl, .inl rfl, rfl, id, id⟩
  | @heard _ _ x _ hs _ =>
    cases x with
    | advance number order =>
      exact ⟨rfl, rfl, rfl, hs.purposes_eq, fun _ h => (List.mem_filter.mp h).1, rfl, .inl rfl,
        rfl, id, id⟩
    | tick generation =>
      exact ⟨rfl, rfl, rfl, hs.purposes_eq, fun _ => id, rfl, .inl rfl, rfl, id, id⟩

theorem fresh_of_chore {s : Sitting} {task : Task} (h : task.Chore) : s.Fresh task := by
  cases h with
  | retire => exact .retire
  | elapse target => exact .elapse target

theorem countP_isMove_of_chores {after : List Task} (h : ∀ t ∈ after, t.Chore) :
    after.countP Task.isMove = 0 := by
  refine List.countP_eq_zero.mpr fun t ht => ?_
  cases h t ht <;> nofun

theorem Does.of_taken {s s' : Sitting} {task : Task} {after : List Task} (ht : s.Taken s')
    (hafter : ∀ t ∈ after, t.Chore) : Does setup s task (.done s' after) := by
  refine .aside ht (fun t hmem => fresh_of_chore (hafter t hmem)) ?_
  rw [countP_isMove_of_chores hafter, Nat.zero_add]
  rcases ht.spared.onChange_cases with heq | heq
  · exact Nat.le_of_eq (by rw [heq])
  · rw [heq]
    exact flatten_tail_length_le s.onChange

/-- An event that is due takes effect, breaks off or is held up. -/
theorem does_of_due {s s' : Sitting} {task : Task} {after : List Task} {x : Recorded Transition}
    (ht : s.Taken s') (hdue : Due setup s' task after x) (hafter : ∀ t ∈ after, t.Chore) :
    Does setup s task ((s'.conclude setup x.outcome x.entries).andThen after) := by
  rcases conclude_cases setup s' x.outcome x.entries with ⟨journal, h⟩ | ⟨journal, before, key,
    entries, moves, later, hentries, hw, h⟩
  · rw [h]
    cases hx : x.outcome with
    | error fault => exact .broken ht hdue hx
    | ok transition =>
      cases transition with
      | ignored => exact .of_taken (ht.withJournal journal) hafter
      | moved r orders report =>
        obtain ⟨journal', onResult, moves, he, hres⟩ :=
          effect_moved setup { s' with journal } r orders report
        rw [he, moved_withJournal]
        rw [ht.spared.onResult_eq] at hres
        refine .moved ht hdue hx (fun t hmem => ?_) (hres.imp And.left And.left) ?_
        · simp only [List.mem_append, List.mem_map] at hmem
          rcases hmem with (⟨m, hm, rfl⟩ | hmem) | hmem
          · refine .move (mem_scripted.mpr (.inl ?_))
            rcases hres with ⟨-, rfl⟩ | ⟨-, rfl⟩
            · cases hm
            · exact mem_flatten_of_offered hm
          · split at hmem
            · rw [List.mem_singleton.mp hmem]
              exact .announce
            · cases hmem
          · exact fresh_of_chore (hafter t hmem)
        · have hannounce : (if setup.tellsChanges then [Task.announce] else []).countP
              Task.isMove = 0 := by
            split <;> rfl
          rw [List.countP_append, List.countP_append, hannounce, countP_isMove_of_chores hafter,
            countP_isMove_map]
          rcases hres with ⟨rfl, rfl⟩ | ⟨rfl, rfl⟩
          · exact Nat.le_of_eq (Nat.zero_add _)
          · exact Nat.le_of_eq (offered_length_add s.onResult)
  · rw [h]
    simp only [Verdict.andThen, List.append_assoc, List.singleton_append]
    exact .held ht hdue hentries (ht.spared.onWording_eq ▸ hw)
      (fun t hmem => fresh_of_chore (hafter t hmem)) (countP_isMove_of_chores hafter)

/-- An event that reaches the round is due, unless the sitting is over. -/
theorem does_of_event {s s' : Sitting} {task : Task} {after : List Task} {e : Event}
    (ht : s.Taken s') (he : s'.disposed = false → s'.Arrives e)
    (hload : ∀ problems, e = .load problems → task.Presents)
    (hend : e = .teardown → after = [.retire]) (hafter : ∀ t ∈ after, t.Chore) :
    Does setup s task (pursue setup (.event s' e after)) := by
  simp only [pursue, react]
  split
  · exact .of_taken ht hafter
  · rename_i hd
    exact does_of_due ht (.event (he (by simpa using hd)) hload hend) hafter

/-- A list of problems that is handed in is passed over, or loaded. -/
theorem does_of_present {s s' : Sitting} {task : Task} {source : Source} {problems : List Problem}
    (ht : s.Taken s') (ht' : s.Taken { s' with source := some source }) (htask : task.Presents) :
    Does setup s task (pursue setup (s'.present source problems)) := by
  unfold present
  split
  · exact .of_taken ht fun _ h => nomatch h
  · exact does_of_event ht' (fun _ => .load problems) (fun _ _ => htask) nofun
      fun _ h => nomatch h

/-- The notice of an alarm that comes too late. -/
def lateNotice : Purpose → Notice
  | .advance _ order => .staleAdvance order.generation
  | .tick generation => .staleTick generation

/-- An alarm that is heard is dropped if its generation has passed; otherwise its event arrives. -/
theorem deliver_eq (s : Sitting) (clock : Clock Purpose) (after : List Task) (x : Purpose) :
    { s with clock }.deliver after x =
      .aside ((s.withHeard clock x).record [.notice (lateNotice x)]) after ∨
    (∃ number order, x = .advance number order ∧ order.generation = s.round.generation ∧
      { s with clock }.deliver after x = .event (s.withHeard clock x) (.advance order) after) ∨
    (x = .tick s.round.generation ∧
      { s with clock }.deliver after x =
        .event (s.withHeard clock x) (.tick s.round.generation) after) := by
  cases x with
  | advance number order =>
    by_cases h : order.generation = s.round.generation
    · exact .inr (.inl ⟨number, order, rfl, h, by simp [deliver, withHeard, h]⟩)
    · exact .inl (by simp only [deliver, withHeard]; rw [if_pos h]; rfl)
  | tick generation =>
    by_cases h : generation = s.round.generation
    · subst h
      exact .inr (.inr ⟨rfl, by simp [deliver, withHeard]⟩)
    · exact .inl (by simp only [deliver, withHeard]; rw [if_pos h]; rfl)

/-- What is heard of an alarm is dropped, or brings an event to the round. -/
theorem does_of_hear {s : Sitting} {task : Task} {handle : Nat} {clock : Clock Purpose}
    {after : List Task} (hs : s.clock.Sounds handle clock) (hafter : ∀ t ∈ after, t.Chore) :
    Does setup s task
      (pursue setup (s.hear after (clock, s.clock.alarms[handle]?.bind Alarm.heard))) := by
  cases hx : s.clock.alarms[handle]?.bind Alarm.heard with
  | none => exact .of_taken (.unheard hs hx) hafter
  | some x =>
    have hmem : x ∈ s.clock.purposes := Clock.heard_mem_purposes hx
    rw [hear]
    rcases deliver_eq s clock after x with h | ⟨number, order, rfl, hgen, h⟩ | ⟨rfl, h⟩
    · rw [h]
      exact .of_taken (.heard hs hx) hafter
    · rw [h]
      refine does_of_event (.heard hs hx) (fun _ => .advance number ?_ hgen) nofun nofun hafter
      exact hs.purposes_eq ▸ hmem
    · rw [h]
      exact does_of_event (.heard hs hx) (fun _ => .tick) nofun nofun hafter

/-- Time that finds no alarm on its way moves on to its target. -/
theorem perform_elapse_of_none {s : Sitting} {target : Int}
    (h : s.clock.earliest? target = none) : perform setup (.elapse target) s =
      .done { s with clock := { s.clock with now := target } } [] := by
  simp only [perform, intake, elapse, h, pursue]

/-- Time that finds an alarm on its way makes that one ring. -/
theorem perform_elapse_of_next {s : Sitting} {target due : Int} {handle : Nat}
    (h : s.clock.earliest? target = some (handle, due)) : perform setup (.elapse target) s =
      pursue setup (s.hear [.elapse target]
        ((s.clock.ring handle due).1, s.clock.alarms[handle]?.bind Alarm.heard)) := by
  simp only [perform, intake, elapse, h]
  rw [← Clock.ring_heard]

/-- All that a move can come to. -/
theorem make_does (s : Sitting) (m : Move) :
    Does setup s (.move m) (pursue setup (s.make m)) := by
  have nothing : ∀ t ∈ ([] : List Task), t.Chore := fun _ h => nomatch h
  cases m with
  | present name copied =>
    cases copied with
    | false =>
      exact does_of_present (.refl s) (.desk (fun _ => nofun) id (.inl rfl)) ⟨name, false, rfl⟩
    | true =>
      refine does_of_present (.desk (fun h serial hs => ?_) id (.inl rfl))
        (.desk (fun _ serial hs => ?_) id (.inl rfl)) ⟨name, true, rfl⟩
      · exact Nat.lt_succ_of_lt (h serial hs)
      · cases hs
        exact Nat.lt_succ_self _
  | extend name problem => exact .of_taken (.desk id id (.inl rfl)) nothing
  | submit id answer =>
    simp only [make]
    split
    · exact does_of_event (.refl s) (fun _ => .submit id answer) nofun nofun nothing
    · exact .of_taken (.refl s) nothing
  | back => exact does_of_event (.refl s) (fun _ => .back) nofun nofun nothing
  | forward => exact does_of_event (.refl s) (fun _ => .forward) nofun nofun nothing
  | finish => exact does_of_event (.refl s) (fun _ => .finish) nofun nofun nothing
  | retry => exact does_of_event (.refl s) (fun _ => .retry) nofun nofun nothing
  | dispose =>
    simp only [make]
    split
    · exact .of_taken (.refl s) nothing
    · refine does_of_event (.refl s) .teardown nofun (fun _ => rfl) fun t ht => ?_
      rw [List.mem_singleton.mp ht]
      exact .retire
  | enable value => exact .of_taken (.desk id id (.inl rfl)) nothing
  | wait milliseconds =>
    refine .of_taken (.refl s) fun t ht => ?_
    rw [List.mem_singleton.mp ht]
    exact .elapse _
  | giveUp message => exact .gaveUp rfl

/-- **All that doing a task can come to.** -/
theorem perform_does (s : Sitting) (task : Task) : Does setup s task (perform setup task s) := by
  have nothing : ∀ t ∈ ([] : List Task), t.Chore := fun _ h => nomatch h
  cases task with
  | move m => exact make_does s m
  | announce =>
    refine .aside (.desk id id (.inr rfl)) (fun t ht => ?_) ?_
    · obtain ⟨m, hm, rfl⟩ := List.mem_map.mp ht
      exact .move (mem_scripted.mpr (.inr (.inl (mem_flatten_of_offered hm))))
    · show ((offered s.onChange).map Task.move).countP _ + s.onChange.tail.flatten.length ≤ _
      rw [countP_isMove_map]
      exact Nat.le_of_eq (offered_length_add s.onChange)
  | retire => exact .of_taken (.desk id (fun _ => rfl) (.inl rfl)) nothing
  | elapse target =>
    cases hnext : s.clock.earliest? target with
    | none =>
      rw [perform_elapse_of_none hnext]
      exact .of_taken .time nothing
    | some next =>
      rw [perform_elapse_of_next hnext]
      refine does_of_hear (.inTurn next.2) fun t ht => ?_
      rw [List.mem_singleton.mp ht]
      exact .elapse target
  | ring handle => exact does_of_hear .outOfTurn nothing
  | conclude outcome entries =>
    rw [← Verdict.andThen_nil (perform setup (.conclude outcome entries) s)]
    exact does_of_due (.refl s) (x := { entries, outcome }) (.rest rfl rfl) nothing

end Sitting

end TimedQuiz
