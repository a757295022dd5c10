import TimedQuiz.Proofs.Sitting.Silent
import TimedQuiz.Proofs.Sitting.WellFormed

/-!
# Where a delayed advance leads

An advance is ordered for an answer, comes due some time later, and leads to the problem after the
one that was on show when the answer was given. The client may be elsewhere by then.

* `OrdersNext` — the next task gives an answer, and an advance is ordered for it;
* `AdvancesNext` — the next task lets an advance reach the round;
* `GoesOn` — the next task takes the round to a later problem;
* `TracedBack` — the moment at which an advance was ordered, and what happened since;
* `Accounted` — every advance of the present generation is traced back.

Main statement: `Reachable.advance_leads_past_its_answer` — an advance takes the client back exactly
if the problem on show is more than one past the one that was on show at its answer, for which the
client must have gone on in between. That happens: `taken_back_after_going_on`.
-/

namespace TimedQuiz

namespace Round

variable {rules : HouseRules} {wording : Wording} {r r' : Round} {e : Event}
  {orders : List TimerOrder} {report : Option Report} {order : Advance}

/-- A move begins another generation, or it goes on with as many problems; and then only a move
forward or an advance leads to a later one. -/
theorem Moves.begins_or_stays (hm : Moves rules wording r e r' orders report)
    (hown : ∀ problems, e ≠ .finish (some problems)) :
    r'.generation = r.generation + 1 ∨
      (r'.generation = r.generation ∧ r'.size = r.size ∧
        (r.index < r'.index → e = .forward ∨ ∃ order, e = .advance order)) := by
  have nowhere : r.index < r.index → e = .forward ∨ ∃ order, e = .advance order :=
    fun h => absurd h (Int.lt_irrefl _)
  cases hm with
  | load problems => exact .inl rfl
  | retry _ => exact .inl rfl
  | teardown => exact .inl rfl
  | submit id answer p _ _ _ =>
    exact .inr ⟨rfl, congrArg Nat.cast (length_answerFirst ..), nowhere⟩
  | finish given report _ _ _ =>
    cases given with
    | none => exact .inr ⟨rfl, rfl, nowhere⟩
    | some problems => exact absurd rfl (hown problems)
  | advanceToEnd order report _ _ _ _ _ => exact .inr ⟨rfl, rfl, nowhere⟩
  | tick _ => exact .inr ⟨rfl, rfl, nowhere⟩
  | advance order _ _ _ => exact .inr ⟨rfl, rfl, fun _ => .inr ⟨order, rfl⟩⟩
  | forward _ _ => exact .inr ⟨rfl, rfl, fun _ => .inl rfl⟩
  | back _ _ =>
    exact .inr ⟨rfl, rfl, fun h => absurd h (not_lt.mpr (Int.sub_le_self _ (by decide)))⟩

/-- An advance past the last problem ends the round, unless its wording refuses a text. -/
theorem next_advance_at_last (rules : HouseRules) (wording : Wording) (hactive : r.phase = .active)
    (hgen : order.generation = r.generation) (hlast : order.count - 1 ≤ order.index) :
    (∃ report, Moves rules wording r (.advance order) (r.finished r.problems report) stopAll
        (some report)) ∨
      ∃ fault, (r.next rules wording (.advance order)).outcome = .error fault := by
  have hne := (phase_eq_active_iff.mp hactive).2
  cases hassess : (assess wording r.problems).outcome with
  | ok report => exact .inl ⟨report, .advanceToEnd order report hactive hgen hlast hne hassess⟩
  | error fault =>
    have hvalid : ¬(order.generation ≠ r.generation ∨ r.phase ≠ .active) := by simp [hgen, hactive]
    have hopen : ¬(r.phase ≠ .active ∨ r.problems.isEmpty) := by simp [hactive, hne]
    refine .inr ⟨fault, ?_⟩
    rw [next, Round.advance, if_neg hvalid, if_pos hlast, finishWith, if_neg hopen,
      (Recorded.bind_error hassess _).1]

end Round

namespace Sitting

variable (setup : Setup)

/-- The next task gives an answer that the round takes, and an advance is ordered for it, from where
the round stands. -/
structure OrdersNext (b : Agenda Sitting Task Fault) (number : Nat) (order : Advance) : Prop where
  answers : ∃ id answer rest, b.tasks = .move (.submit id answer) :: rest
  opened : b.state.disposed = false
  active : b.state.round.phase = .active
  order_eq : order = b.state.round.nextAdvance
  new : .advance number order ∉ b.state.clock.purposes
  set : .advance number order ∈ (b.step (perform setup)).state.clock.purposes

/-- The next task lets an advance reach the round. -/
def AdvancesNext (a : Agenda Sitting Task Fault) (order : Advance) : Prop :=
  ∃ task rest t after, a.tasks = task :: rest ∧
    a.state.intake task = .event t (.advance order) after

/-- The next task takes the round to a later problem: the client goes forward, or an advance reaches
the round. -/
structure GoesOn (c : Agenda Sitting Task Fault) : Prop where
  brought : (∃ rest, c.tasks = .move .forward :: rest) ∨ ∃ order, AdvancesNext c order
  index_lt : c.state.round.index < (c.step (perform setup)).state.round.index

/-- An advance was ordered for the problems of a round, at a moment of the past; and if the round
shows a later problem than it did then, some task since has taken it there. -/
def TracedBack (past : List (Agenda Sitting Task Fault)) (r : Round) (number : Nat)
    (order : Advance) : Prop :=
  ∃ later b earlier, past = later ++ b :: earlier ∧ OrdersNext setup b number order ∧
    order.count = r.size ∧ order.index < order.count ∧
    (order.index < r.index → ∃ c ∈ later, GoesOn setup c)

variable {setup} {s s' : Sitting} {task : Task} {rest after : List Task} {e : Event}
  {past : List (Agenda Sitting Task Fault)} {a : Agenda Sitting Task Fault}

/-! ## Every advance is traced back to its answer -/

/-- An advance stays traced back as long as the round goes on with as many problems. -/
theorem TracedBack.extend {r r' : Round} {number : Nat} {order : Advance}
    (h : TracedBack setup past r number order) (hsize : r'.size = r.size)
    (hgoes : r.index < r'.index → GoesOn setup a) :
    TracedBack setup (a :: past) r' number order := by
  obtain ⟨later, b, earlier, rfl, horders, hcount, hlt, hsince⟩ := h
  refine ⟨a :: later, b, earlier, rfl, horders, hcount.trans hsize.symm, hlt, fun hpast => ?_⟩
  by_cases hbefore : order.index < r.index
  · obtain ⟨c, hc, hon⟩ := hsince hbefore
    exact ⟨c, List.mem_cons_of_mem a hc, hon⟩
  · exact ⟨a, List.mem_cons_self, hgoes (by omega)⟩

/-- A move forward, or an advance, that leads to a later problem. -/
theorem goesOn_of_intake (htasks : a.tasks = task :: rest)
    (hi : a.state.intake task = .event s' e after)
    (he : e = .forward ∨ ∃ order, e = .advance order)
    (hlt : a.state.round.index < (a.step (perform setup)).state.round.index) : GoesOn setup a := by
  refine ⟨?_, hlt⟩
  rcases he with rfl | ⟨order, rfl⟩
  · cases takesUp_of_intake hi with
    | forward => exact .inl ⟨rest, htasks⟩
  · exact .inr ⟨order, task, rest, s', after, htasks, hi⟩

/-- An advance that a move of the round orders is ordered for an answer. -/
theorem ordersNext_of_moved {round : Round} {orders : List TimerOrder} {report : Option Report}
    {number : Nat} {order : Advance} (htasks : a.tasks = task :: rest)
    (hi : a.state.intake task = .event s' e after) (hopen : a.state.disposed = false)
    (hm : Round.Moves setup.rules setup.wording a.state.round e round orders report)
    (hmem : .scheduleAdvance order ∈ orders)
    (hnew : .advance number order ∉ a.state.clock.purposes)
    (hset : .advance number order ∈ (a.step (perform setup)).state.clock.purposes) :
    OrdersNext setup a number order ∧ round.size = a.state.round.size ∧
      round.index = a.state.round.index := by
  have horder := hm.eq_of_mem_orders hmem
  cases hm with
  | submit id answer p hactive _ _ =>
    cases takesUp_of_intake hi with
    | submit _ =>
      exact ⟨⟨⟨id, answer, rest, htasks⟩, hopen, hactive, horder, hnew, hset⟩,
        congrArg Nat.cast (Round.length_answerFirst ..), rfl⟩
  | load problems => split at hmem <;> simp [Round.stopAll] at hmem
  | finish _ _ _ _ _ => simp [Round.stopAll] at hmem
  | advanceToEnd _ _ _ _ _ _ _ => simp [Round.stopAll] at hmem
  | retry _ => simp [Round.stopAll] at hmem
  | teardown => simp [Round.stopAll] at hmem
  | advance _ _ _ _ => cases hmem
  | back _ _ => cases hmem
  | forward _ _ => cases hmem
  | tick _ => cases hmem

variable (setup) in
/-- No alarm is set for an advance of a later generation, and every advance of the present one is
traced back to its answer. -/
def Accounted (past : List (Agenda Sitting Task Fault)) (s : Sitting) : Prop :=
  ∀ number order, .advance number order ∈ s.clock.purposes →
    order.generation ≤ s.round.generation ∧
      (order.generation = s.round.generation → TracedBack setup past s.round number order)

/-- What leaves the round and the purposes of the alarms alone leaves the advances accounted for. -/
theorem Accounted.still (h : Accounted setup past a.state) (hround : s'.round = a.state.round)
    (hpurposes : s'.clock.purposes = a.state.clock.purposes) : Accounted setup (a :: past) s' := by
  intro number order hmem
  obtain ⟨hle, htraced⟩ := h number order (hpurposes ▸ hmem)
  rw [hround]
  exact ⟨hle, fun hgen => (htraced hgen).extend rfl fun hlt => absurd hlt (Int.lt_irrefl _)⟩

/-- A move of the round leaves the advances accounted for, those that it orders too. -/
theorem Accounted.moved {round : Round} {orders : List TimerOrder} {report : Option Report}
    (h : Accounted setup past a.state)
    (hwf : a.state.round.WellFormed setup.rules setup.wording) (htasks : a.tasks = task :: rest)
    (hi : a.state.intake task = .event s' e after) (hopen : a.state.disposed = false)
    (hm : Round.Moves setup.rules setup.wording a.state.round e round orders report)
    (hround : (a.step (perform setup)).state.round = round)
    (hclock : (a.step (perform setup)).state.clock = (s'.moved setup round orders).clock) :
    Accounted setup (a :: past) (a.step (perform setup)).state := by
  have htakes := takesUp_of_intake hi
  intro number order hmem
  by_cases hold : .advance number order ∈ a.state.clock.purposes
  · obtain ⟨hle, htraced⟩ := h number order hold
    rw [hround]
    rcases hm.begins_or_stays htakes.ne_finish_some with hgen | ⟨hgen, hsize, hon⟩
    · exact ⟨by omega, fun heq => by omega⟩
    · refine ⟨by omega, fun heq => (htraced (heq.trans hgen)).extend hsize fun hlt => ?_⟩
      exact goesOn_of_intake htasks hi (hon hlt) (hround ▸ hlt)
  · have hsame : s'.clock.purposes = a.state.clock.purposes :=
      htakes.taken_of_event.1.spared.purposes_eq
    rcases mem_purposes_foldl (hclock ▸ hmem) with hin | ⟨n, order', heq, hordered⟩ | ⟨g, heq, -⟩
    · exact absurd (hsame ▸ hin) hold
    · cases heq
      obtain ⟨horders, hsize, hindex⟩ :=
        ordersNext_of_moved htasks hi hopen hm hordered hold hmem
      have hne := (Round.phase_eq_active_iff.mp horders.active).2
      rw [hround]
      refine ⟨?_, fun _ => ⟨[], a, past, rfl, horders, ?_, ?_, ?_⟩⟩ <;> rw [horders.order_eq]
      · exact hm.follows.le
      · rw [hsize]
        rfl
      · exact hwf.index_lt hne
      · rw [hindex]
        exact fun hlt => absurd hlt (Int.lt_irrefl _)
    · cases heq

/-- **A step leaves the advances accounted for.** -/
theorem Accounted.step (h : Accounted setup past a.state) (hq : Quiet a.state a.tasks)
    (hwf : a.state.round.WellFormed setup.rules setup.wording) :
    Accounted setup (a :: past) (a.step (perform setup)).state := by
  rcases hq.step_turns setup with ⟨-, hstep⟩ | ⟨task, rest, v, htasks, -, hstep, hturns⟩
  · rw [hstep]
    exact h.still rfl rfl
  · cases hturns with
    | announced _ =>
      rw [hstep]
      exact h.still rfl rfl
    | still hs _ =>
      rw [hstep]
      exact h.still hs.taken.spared.round_eq hs.taken.spared.purposes_eq
    | failed hs _ =>
      rw [hstep]
      exact h.still hs.taken.spared.round_eq hs.taken.spared.purposes_eq
    | moved hi hopen ho =>
      refine h.moved hwf htasks hi hopen (Round.moves_of_next ho) ?_ ?_
      · rw [hstep]
        exact afterMove_round ..
      · rw [hstep]
        exact afterMove_clock ..

/-- **The advances are accounted for at every moment.** -/
theorem Reachable.accounted {sheets : Table (List Problem)} {onResult onChange : List (List Move)}
    (h : Reachable setup (opening sheets onResult onChange) past a) :
    Accounted setup past a.state :=
  h.along (fun _ _ hmem => absurd hmem List.not_mem_nil) fun _ _ hreach hs =>
    hs.step (hreach.quiet rfl) (hreach.steady (steady_opening ..)).round

/-! ## What an advance does -/

/-- What an event leaves behind that breaks off. -/
theorem perform_of_error {fault : Fault} (hi : s.intake task = .event s' e after)
    (hsilent : s.onWording = []) (hopen : s.disposed = false)
    (ho : (s.round.next setup.rules setup.wording e).outcome = .error fault) :
    perform setup task s =
      .failed (s'.record (s.round.next setup.rules setup.wording e).entries) fault := by
  obtain ⟨ht, -, hdisposed⟩ := (takesUp_of_intake hi).taken_of_event
  rw [perform, hi, pursue, react_of_silent setup (ht.spared.onWording_eq.trans hsilent)
    (hdisposed.trans hopen), ht.spared.round_eq, ho]
  rfl

/-- An advance that reaches the round is that of an alarm, for the present generation. -/
theorem AdvancesNext.mem_purposes {order : Advance} (h : AdvancesNext a order) :
    (∃ number, .advance number order ∈ a.state.clock.purposes) ∧
      order.generation = a.state.round.generation := by
  obtain ⟨task, rest, t, after, -, hi⟩ := h
  cases takesUp_of_intake hi with
  | advance _ hx hgen => exact ⟨⟨_, Clock.heard_mem_purposes hx⟩, hgen⟩

/-- **An advance ends the round past the last problem, unless a text is refused, and before it shows
the problem after its own.** -/
theorem AdvancesNext.step (setup : Setup) {order : Advance} (h : AdvancesNext a order)
    (hsilent : a.state.onWording = []) (hopen : a.state.disposed = false)
    (hactive : a.state.round.phase = .active) (hcount : order.count = a.state.round.size)
    (hlt : order.index < order.count) :
    (order.index = a.state.round.lastIndex →
      ((a.step (perform setup)).state.round.phase = .completed ∧
        (a.step (perform setup)).state.round.index = a.state.round.index) ∨
      ((a.step (perform setup)).state.round = a.state.round ∧
        (a.step (perform setup)).fault ≠ none)) ∧
    (order.index ≠ a.state.round.lastIndex → order.index < a.state.round.lastIndex ∧
      (a.step (perform setup)).state.round = { a.state.round with index := order.index + 1 }) := by
  obtain ⟨-, hgen⟩ := h.mem_purposes
  obtain ⟨task, rest, t, after, htasks, hi⟩ := h
  have hstep : a.step (perform setup) = (perform setup task a.state).agenda rest :=
    Agenda.step_of_tasks htasks
  have moved : ∀ {round : Round} {orders : List TimerOrder} {report : Option Report},
      Round.Moves setup.rules setup.wording a.state.round (.advance order) round orders report →
      (a.step (perform setup)).state.round = round := by
    intro round orders report hm
    rw [hstep, perform_of_moved hi hsilent hopen hm.outcome_eq]
    exact afterMove_round ..
  refine ⟨fun hlast => ?_, fun hne => ?_⟩
  · have hpast : order.count - 1 ≤ order.index := by rw [hlast, hcount, Round.lastIndex]
    rcases Round.next_advance_at_last setup.rules setup.wording hactive hgen hpast with
      ⟨report, hm⟩ | ⟨fault, ho⟩
    · rw [moved hm]
      exact .inl ⟨Round.phase_eq_completed_iff.mpr rfl, rfl⟩
    · rw [hstep, perform_of_error hi hsilent hopen ho]
      have hround := (takesUp_of_intake hi).taken_of_event.1.spared.round_eq
      exact .inr ⟨hround, Option.some_ne_none fault⟩
  · have hbefore : order.index < a.state.round.lastIndex := by
      rw [Round.lastIndex] at hne ⊢
      omega
    refine ⟨hbefore, (moved (.advance order hactive hgen ?_)).trans ?_⟩
    · rw [hcount]
      exact hbefore
    · rw [min_eq_left (by omega)]

/-- **Where a delayed advance leads.** It was ordered for an answer in the present generation, at a
moment of the past, and it leads past the problem that was on show then, wherever the client is by
now: to the problem after it, or to the end of the round. It takes the client back exactly if the
problem on show is more than one past that problem, and then the client has gone forward since, or
an advance has led it there. -/
theorem Reachable.advance_leads_past_its_answer {sheets : Table (List Problem)}
    {onResult onChange : List (List Move)}
    (h : Reachable setup (opening sheets onResult onChange) past a) {order : Advance}
    (hadvance : AdvancesNext a order) (hopen : a.state.disposed = false)
    (hactive : a.state.round.phase = .active) :
    ∃ number later b earlier, past = later ++ b :: earlier ∧ OrdersNext setup b number order ∧
      b.state.round.generation = a.state.round.generation ∧
      (b.state.round.index = a.state.round.lastIndex →
        ((a.step (perform setup)).state.round.phase = .completed ∧
          (a.step (perform setup)).state.round.index = a.state.round.index) ∨
        ((a.step (perform setup)).state.round = a.state.round ∧
          (a.step (perform setup)).fault ≠ none)) ∧
      (b.state.round.index ≠ a.state.round.lastIndex →
        b.state.round.index < a.state.round.lastIndex ∧ (a.step (perform setup)).state.round =
          { a.state.round with index := b.state.round.index + 1 }) ∧
      ((a.step (perform setup)).state.round.index < a.state.round.index ↔
        b.state.round.index + 1 < a.state.round.index) ∧
      (b.state.round.index + 1 < a.state.round.index → ∃ c ∈ later, GoesOn setup c) := by
  obtain ⟨⟨number, hmem⟩, hgen⟩ := hadvance.mem_purposes
  obtain ⟨later, b, earlier, hpast, horders, hcount, hlt, hsince⟩ :=
    (h.accounted number order hmem).2 hgen
  have hindex : order.index = b.state.round.index := congrArg Advance.index horders.order_eq
  have hsame : order.generation = b.state.round.generation :=
    congrArg Advance.generation horders.order_eq
  obtain ⟨hend, hnext⟩ := hadvance.step setup (h.quiet rfl).silent hopen hactive hcount hlt
  rw [hindex] at hend hnext
  refine ⟨number, later, b, earlier, hpast, horders, hsame.symm.trans hgen, hend, hnext, ?_,
    fun hback => hsince (by omega)⟩
  have hinside : a.state.round.index ≤ a.state.round.lastIndex := by
    have := (h.steady (steady_opening ..)).round.index_lt
      (Round.phase_eq_active_iff.mp hactive).2
    rw [Round.lastIndex]
    omega
  by_cases hlast : b.state.round.index = a.state.round.lastIndex
  · have hstays : (a.step (perform setup)).state.round.index = a.state.round.index := by
      rcases hend hlast with ⟨-, heq⟩ | ⟨heq, -⟩
      · exact heq
      · rw [heq]
    rw [hstays]
    omega
  · rw [(hnext hlast).2]

/-- The first of three problems is answered, and its advance comes due. -/
theorem advance_leads_past_its_answer_at_first :
    ∃ past a order, Reachable {} (opening (Table.insert {} "sums" [{ id := 1, text := "2 + 3" },
        { id := 2, text := "4 - 1" }, { id := 3, text := "6 / 2" }]) [] []) past a ∧
      AdvancesNext a order ∧ a.state.disposed = false ∧ a.state.round.phase = .active ∧
      ∃ number later b earlier, past = later ++ b :: earlier ∧ OrdersNext {} b number order ∧
        ((a.step (perform {})).state.round.index < a.state.round.index ↔
          b.state.round.index + 1 < a.state.round.index) := by
  have opened : Reachable {} (opening (Table.insert {} "sums" [{ id := 1, text := "2 + 3" },
      { id := 2, text := "4 - 1" }, { id := 3, text := "6 / 2" }]) [] []) [] _ := .start
  have shown := (opened.call (m := .present "sums" false) rfl trivial).step.step
  have answered := (shown.call (m := .submit 1 5.0) (List.isEmpty_iff.mp (by decide +kernel))
    trivial).step.step
  have due := (answered.call (m := .wait 1500) (List.isEmpty_iff.mp (by decide +kernel))
    trivial).step.step.step
  obtain ⟨number, later, b, earlier, hpast, horders, -, -, -, hback, -⟩ :=
    due.advance_leads_past_its_answer ⟨_, _, _, _, rfl, rfl⟩ (by decide +kernel) (by decide +kernel)
  exact ⟨_, _, _, due, ⟨_, _, _, _, rfl, rfl⟩, by decide +kernel, by decide +kernel, number, later,
    b, earlier, hpast, horders, hback⟩

/-- **A client who went on is taken back**: the first of four problems is answered, the third one is
put on show, and then the advance comes due. -/
theorem taken_back_after_going_on :
    ∃ past a order, Reachable {} (opening (Table.insert {} "sums" [{ id := 1, text := "2 + 3" },
        { id := 2, text := "4 - 1" }, { id := 3, text := "6 / 2" }, { id := 4, text := "7" }])
        [] []) past a ∧
      AdvancesNext a order ∧ a.state.disposed = false ∧ a.state.round.phase = .active ∧
      (a.step (perform {})).state.round.phase = .active ∧
      a.state.round.index = 2 ∧ (a.step (perform {})).state.round.index = 1 := by
  have opened : Reachable {} (opening (Table.insert {} "sums" [{ id := 1, text := "2 + 3" },
      { id := 2, text := "4 - 1" }, { id := 3, text := "6 / 2" }, { id := 4, text := "7" }])
      [] []) [] _ := .start
  have shown := (opened.call (m := .present "sums" false) rfl trivial).step.step
  have answered := (shown.call (m := .submit 1 5.0) (List.isEmpty_iff.mp (by decide +kernel))
    trivial).step.step
  have second := (answered.call (m := .forward) (List.isEmpty_iff.mp (by decide +kernel))
    trivial).step.step
  have third := (second.call (m := .forward) (List.isEmpty_iff.mp (by decide +kernel))
    trivial).step.step
  have due := (third.call (m := .wait 1500) (List.isEmpty_iff.mp (by decide +kernel))
    trivial).step.step.step
  exact ⟨_, _, _, due, ⟨_, _, _, _, rfl, rfl⟩, by decide +kernel, by decide +kernel,
    by decide +kernel, by decide +kernel, by decide +kernel⟩

end Sitting

end TimedQuiz
