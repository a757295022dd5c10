import TimedQuiz.Proofs.Round.Moves

/-!
# Runs of a round by itself

A round takes events one after the other, whoever sends them and in whatever order, each under the
rules and with the wording of its moment. What it asks of the timers comes back to it as an event
later on, possibly much later.

* `Occasion` — an event with the rules and the wording of its moment;
* `Round.after`, `Round.afterAll` — the round after one occasion, and after several;
* `Round.ordersAt`, `Round.allOrders` — what it asks of the timers on the way;
* `TimerOrder.Brings` — the event that an order brings once it comes due;
* `Round.Retires` — the occasions that leave no effect to what was ordered before.

Main statement: `retired_order_has_no_effect` — once retired, an order is ignored for good.
-/

namespace TimedQuiz

/-- An event, with the rules and the wording of its moment. -/
structure Occasion where
  rules : HouseRules := {}
  wording : Wording := .ofCatalog .builtIn
  event : Event

/-- The order brings the event once it comes due, tagged with the generation. -/
inductive TimerOrder.Brings : TimerOrder → Event → Int → Prop
  | advance (order : Advance) : Brings (.scheduleAdvance order) (.advance order) order.generation
  | tick (generation : Int) : Brings (.startTicker generation) (.tick generation) generation

namespace Round

/-- What an occasion does to a round; one that breaks off does nothing. -/
def transitionAt (r : Round) (o : Occasion) : Transition :=
  match (r.next o.rules o.wording o.event).outcome with
  | .ok t => t
  | .error _ => .ignored

/-- The round after an occasion. -/
def after (r : Round) (o : Occasion) : Round :=
  match r.transitionAt o with
  | .ignored => r
  | .moved r' _ _ => r'

/-- What the round asks of the timers at an occasion. -/
def ordersAt (r : Round) (o : Occasion) : List TimerOrder :=
  match r.transitionAt o with
  | .ignored => []
  | .moved _ orders _ => orders

/-- The round after several occasions. -/
def afterAll (r : Round) (os : List Occasion) : Round := os.foldl after r

/-- What the round asks of the timers at several occasions. -/
def allOrders : Round → List Occasion → List TimerOrder
  | _, [] => []
  | r, o :: os => r.ordersAt o ++ allOrders (r.after o) os

/-- The occasion leaves no effect to what was ordered before: a load, a teardown, another try that
takes effect, or one at which the round ends, by hand or by an advance. -/
inductive Retires (r : Round) (o : Occasion) : Prop
  | load {problems : List Problem} : o.event = .load problems → Retires r o
  | teardown : o.event = .teardown → Retires r o
  | retry : o.event = .retry → r.transitionAt o ≠ .ignored → Retires r o
  | finish : r.phase = .active → (r.after o).phase = .completed → Retires r o

variable {r r' r'' : Round} {o : Occasion} {order : TimerOrder} {generation : Int}

/-! ## One occasion -/

/-- An occasion leaves the round as it is, or moves it in one of the ways listed. -/
theorem transitionAt_cases (r : Round) (o : Occasion) :
    (r.transitionAt o = .ignored ∧ r.after o = r ∧ r.ordersAt o = []) ∨
      ∃ report, r.transitionAt o = .moved (r.after o) (r.ordersAt o) report ∧
        Moves o.rules o.wording r o.event (r.after o) (r.ordersAt o) report := by
  cases h : r.transitionAt o with
  | ignored => exact .inl ⟨rfl, by simp only [after, h], by simp only [ordersAt, h]⟩
  | moved r' orders report =>
    have hafter : r.after o = r' := by simp only [after, h]
    have horders : r.ordersAt o = orders := by simp only [ordersAt, h]
    rw [hafter, horders]
    refine .inr ⟨report, rfl, moves_of_next ?_⟩
    unfold transitionAt at h
    split at h
    · rename_i t ht
      rw [ht, h]
    · cases h

/-- A move that an event allows takes place. -/
theorem Moves.transitionAt_eq {orders : List TimerOrder} {report : Option Report}
    (h : Moves o.rules o.wording r o.event r' orders report) :
    r.transitionAt o = .moved r' orders report := by
  simp only [transitionAt, h.outcome_eq]

theorem Follows.trans (h : r.Follows r') (h' : r'.Follows r'') : r.Follows r'' := by
  rcases h with hlt | ⟨heq, hc⟩
  · exact .inl (Int.lt_of_lt_of_le hlt h'.le)
  · rcases h' with hlt | ⟨heq', hc'⟩
    · exact .inl (heq ▸ hlt)
    · exact .inr ⟨heq.trans heq', fun h => hc' (hc h)⟩

theorem follows_after (r : Round) (o : Occasion) : r.Follows (r.after o) := by
  rcases r.transitionAt_cases o with ⟨-, hsame, -⟩ | ⟨report, -, hm⟩
  · rw [hsame]
    exact .refl r
  · exact hm.follows

/-- What is ordered is meant for the round as the occasion leaves it, or for an earlier one. -/
theorem le_of_mem_ordersAt {event : Event} (hgiven : order ∈ r.ordersAt o)
    (hb : order.Brings event generation) : generation ≤ (r.after o).generation := by
  have hle := (r.follows_after o).le
  rcases r.transitionAt_cases o with ⟨-, -, hnone⟩ | ⟨report, -, hm⟩
  · rw [hnone] at hgiven
    cases hgiven
  · cases hb with
    | advance order =>
      rw [hm.eq_of_mem_orders hgiven]
      exact hle
    | tick generation =>
      rcases hm.orders_cases with h | h | ⟨more, h, hmore, -⟩
      · rw [h] at hgiven
        cases hgiven
      · rw [h] at hgiven
        cases List.mem_singleton.mp hgiven
      · rcases hmore with rfl | rfl
        · simp [h, stopAll] at hgiven
        · refine Int.le_of_eq ?_
          simpa [h, stopAll] using hgiven

theorem Moves.generation_of_retry {rules : HouseRules} {wording : Wording}
    {orders : List TimerOrder} {report : Option Report}
    (h : Moves rules wording r .retry r' orders report) : r'.generation = r.generation + 1 := by
  cases h
  rfl

/-- What was set before has no effect on the round that a retiring occasion leaves. -/
theorem Retires.supersedes (h : r.Retires o) (hle : generation ≤ r.generation) :
    (r.after o).Supersedes generation := by
  have renewed : ∀ {event r' orders report}, o.event = event →
      Moves o.rules o.wording r event r' orders report → r'.generation = r.generation + 1 →
      (r.after o).Supersedes generation := by
    intro event r' orders report hevent hm hg
    subst hevent
    refine .inl ?_
    simp only [after, hm.transitionAt_eq]
    omega
  cases h with
  | load hevent => exact renewed hevent (.load _) rfl
  | teardown hevent => exact renewed hevent .teardown rfl
  | retry hevent heffect =>
    rcases r.transitionAt_cases o with ⟨hignored, -⟩ | ⟨report, -, hm⟩
    · exact absurd hignored heffect
    · rw [hevent] at hm
      exact renewed hevent hm hm.generation_of_retry
  | finish _ hended =>
    have hc : (r.after o).completed = true := phase_eq_completed_iff.mp hended
    rcases Int.lt_or_eq_of_le (Int.le_trans hle (r.follows_after o).le) with hlt | heq
    · exact .inl hlt
    · exact .inr ⟨heq, hc⟩

/-! ## Several occasions -/

@[simp] theorem afterAll_nil (r : Round) : r.afterAll [] = r := rfl

@[simp] theorem afterAll_cons (r : Round) (o : Occasion) (os : List Occasion) :
    r.afterAll (o :: os) = (r.after o).afterAll os := rfl

@[simp] theorem afterAll_append (r : Round) (os os' : List Occasion) :
    r.afterAll (os ++ os') = (r.afterAll os).afterAll os' :=
  List.foldl_append

theorem follows_afterAll (r : Round) (os : List Occasion) : r.Follows (r.afterAll os) := by
  induction os generalizing r with
  | nil => exact .refl r
  | cons o os ih => exact (r.follows_after o).trans (ih (r.after o))

/-- What was set for a superseded generation is ignored when it comes. -/
theorem next_of_supersedes {event : Event} (hb : order.Brings event generation)
    (hs : r.Supersedes generation) (rules : HouseRules) (wording : Wording) :
    r.next rules wording event = pure .ignored := by
  cases hb with
  | advance order => exact next_advance_of_supersedes hs
  | tick generation => exact next_tick_of_supersedes hs

/-- **Once retired, an order has no effect any more.** Whatever has happened to the round before the
order was given, and between that and the occasion that retired it, what it brings is ignored at
once, and after whatever else happens. -/
theorem retired_order_has_no_effect (start : Round) (before between further : List Occasion)
    (source turn late : Occasion) {order : TimerOrder} {generation : Int}
    (hgiven : order ∈ (start.afterAll before).ordersAt source)
    (hturn : (start.afterAll (before ++ source :: between)).Retires turn)
    (hlate : order.Brings late.event generation) :
    (start.afterAll (before ++ source :: (between ++ turn :: further))).next
      late.rules late.wording late.event = pure .ignored := by
  rw [afterAll_append, afterAll_cons] at hturn
  rw [afterAll_append, afterAll_cons, afterAll_append, afterAll_cons]
  generalize start.afterAll before = r at hgiven hturn ⊢
  -- the generation of the order is one that the round has reached when it is retired
  have hgeneration : generation ≤ ((r.after source).afterAll between).generation :=
    Int.le_trans (le_of_mem_ordersAt hgiven hlate) ((r.after source).follows_afterAll between).le
  have hretired := hturn.supersedes hgeneration
  exact next_of_supersedes hlate ((follows_afterAll _ further).supersedes hretired) _ _

/-- Two problems are handed in. -/
abbrev twoProblems : Occasion where
  event := .load [{ id := 1, text := "2 + 3" }, { id := 2, text := "4" }]

/-- The first of two problems is answered, the round is ended by hand and begun over, and then the
advance comes that was ordered at the answer. -/
theorem retired_order_has_no_effect_after_retry :
    .scheduleAdvance { generation := 1, index := 0, count := 2 } ∈
        (afterAll {} [twoProblems]).ordersAt { event := .submit 1 5.0 } ∧
      (afterAll {} [twoProblems, { event := .submit 1 5.0 }, { event := .forward }]).Retires
        { event := .finish none } ∧
      (afterAll {} [twoProblems, { event := .submit 1 5.0 }, { event := .forward },
          { event := .finish none }, { event := .retry }]).next {} (.ofCatalog .builtIn)
        (.advance { generation := 1, index := 0, count := 2 }) = pure .ignored := by
  have hgiven : .scheduleAdvance { generation := 1, index := 0, count := 2 } ∈
      (afterAll {} [twoProblems]).ordersAt { event := .submit 1 5.0 } := by decide +kernel
  have hturn : (afterAll {} [twoProblems, { event := .submit 1 5.0 },
      { event := .forward }]).Retires { event := .finish none } :=
    .finish (by decide +kernel) (by decide +kernel)
  refine ⟨hgiven, hturn, ?_⟩
  exact retired_order_has_no_effect {} [twoProblems] [_] [_] _ _ { event := .advance _ }
    hgiven hturn (.advance _)

end Round

end TimedQuiz
