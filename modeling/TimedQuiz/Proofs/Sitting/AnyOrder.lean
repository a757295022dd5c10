import TimedQuiz.Proofs.Round.Answering
import TimedQuiz.Proofs.Sitting.Cancellation
import TimedQuiz.Proofs.Sitting.Underway

/-!
# Answers in any order

An advance moves past the position that the round showed when the answer was given. So a round whose
problems are all answered, in whatever order, comes to its end only if each answer had its advance
before the next one was given: two answers at one position are followed by one step only, and the
round never makes up for it.

* `Turn`, `Turn.Rests` — an answer and the waits after it, which last until the delay is over;
* `Owed` — turns that answer each of the problems that are left once;
* `Behind` — the round lags behind the answers given.

Main statements: `Underway.takesTurn` — what a turn does while the round keeps pace;
`Behind.takesTurns` — a round that lags behind never ends; `Reachable.answered_in_any_order`;
`unfinished_though_answered` — two answers given at once.
-/

namespace TimedQuiz

/-! ## Turns -/

/-- An answer to the problem with an identity, and the waits that follow. -/
structure Turn where
  id : Int
  answer : Float
  waits : List Int

namespace Turn

/-- The moves of a turn. -/
def moves (turn : Turn) : List Move := .submit turn.id turn.answer :: turn.waits.map .wait

/-- Time passes after the answer until a delay is over. -/
def Rests (delay : Int) (turn : Turn) : Prop := turn.waits ≠ [] ∧ delay ≤ turn.waits.sum

instance (delay : Int) (turn : Turn) : Decidable (turn.Rests delay) :=
  inferInstanceAs (Decidable (_ ∧ _))

end Turn

/-- The turns answer every problem that is left once. -/
structure Owed (problems : List Problem) (turns : List Turn) : Prop where
  nodup : (problems.map (·.id)).Nodup
  perm : (turns.map (·.id)).Perm (Round.unanswered problems)

section Owed

variable {problems : List Problem} {turn : Turn} {turns : List Turn}

theorem Owed.answered (h : Owed problems []) : ∀ p ∈ problems, p.isAnswered = true := by
  intro p hp
  by_contra hopen
  have hmem : p.id ∈ Round.unanswered problems :=
    List.mem_map.mpr ⟨p, List.mem_filter.mpr ⟨hp, by simpa using hopen⟩, rfl⟩
  rw [List.nil_perm.mp h.perm] at hmem
  cases hmem

/-- The next turn answers a problem, and the others answer those that are left then. -/
theorem Owed.next (h : Owed problems (turn :: turns)) :
    ∃ p, problems.find? (fun p => decide (p.id = turn.id)) = some p ∧ p.isAnswered = false ∧
      ∀ x tolerance, Owed (Round.answerFirst turn.id x tolerance problems) turns := by
  obtain ⟨hmem, hperm⟩ := List.cons_perm_iff_perm_erase.mp h.perm
  obtain ⟨p, hfind, hopen⟩ := Round.find?_of_mem_unanswered h.nodup hmem
  refine ⟨p, hfind, hopen, fun x tolerance => ⟨?_, ?_⟩⟩
  · rw [Round.map_id_answerFirst]
    exact h.nodup
  · rw [Round.unanswered_answerFirst hfind hopen]
    exact hperm

end Owed

namespace Sitting

variable {setup : Setup} {s : Sitting} {problems : List Problem} {reports : List Report}
  {turn : Turn} {turns : List Turn} {k : Int}

/-! ## Keeping pace -/

variable (setup) in
/-- After so many answers the round lags behind: neither its position nor the advances that are
still to come take account of all of them. -/
structure Behind (s : Sitting) (k : Int) : Prop where
  index_lt : s.round.index < k
  awaited_lt : ∀ w ∈ s.awaited, w.2 < k
  due_le : ∀ w ∈ s.awaited, w.1 ≤ s.clock.now + setup.rules.advanceDelay

/-- The only advance comes: the round shows the next problem, or ends. -/
theorem Underway.rests (h : Underway setup s problems reports) (hr : Reliable setup) {due : Int}
    (hawaited : s.awaited = [(due, s.round.index)]) {waits : List Int}
    (hnonneg : ∀ w ∈ waits, 0 ≤ w) (hne : waits ≠ []) (hdue : due ≤ s.clock.now + waits.sum) :
    ∃ t, Conveys setup s (waits.map .wait) t ∧
      ((Underway setup t problems reports ∧ t.awaited = [] ∧
          t.round.index = s.round.index + 1) ∨
        (Ended t reports ∧ problems.length ≤ s.round.index + 1)) := by
  have hkeep : Keeps (fun index waiting =>
      waiting = [(due, s.round.index)] ∨ (waiting = [] ∧ index = s.round.index + 1))
      problems.length (s.clock.now + waits.sum) := by
    rintro index before after moment x (hone | ⟨hnil, -⟩) - -
    · rcases List.append_eq_singleton_iff.mp hone with ⟨rfl, hrest⟩ | ⟨-, hrest⟩
      · cases hrest
        exact .inr ⟨rfl, rfl⟩
      · cases hrest
    · simp at hnil
  obtain ⟨t, hconveys, hnow, ⟨ht, hI, hlater⟩ | ⟨ht, hends⟩⟩ :=
    h.waits hr (.inl hawaited) hnonneg hkeep
  · refine ⟨t, hconveys, .inl ⟨ht, ?_⟩⟩
    rcases hI with hone | hnil
    · -- the advance would have come by now
      have hlt := hlater hne (due, s.round.index) (hone ▸ List.mem_cons_self)
      rw [hnow] at hlt
      exact absurd hlt (Int.not_lt.mpr hdue)
    · exact hnil
  · refine ⟨t, hconveys, .inr ⟨ht, ?_⟩⟩
    obtain ⟨index, waiting, moment, x, hone | ⟨rfl, -⟩, hmem, -, hlast⟩ := hends
    · rw [hone] at hmem
      cases List.mem_singleton.mp hmem
      exact hlast
    · cases hmem

/-- The only advance does not come yet. -/
theorem Underway.goesOn (h : Underway setup s problems reports) (hr : Reliable setup) {due : Int}
    (hawaited : s.awaited = [(due, s.round.index)]) {waits : List Int}
    (hnonneg : ∀ w ∈ waits, 0 ≤ w) (hearly : waits ≠ [] → s.clock.now + waits.sum < due) :
    ∃ t, Conveys setup s (waits.map .wait) t ∧ t.clock.now = s.clock.now + waits.sum ∧
      Underway setup t problems reports ∧ t.awaited = [(due, s.round.index)] ∧
      t.round.index = s.round.index := by
  by_cases hne : waits = []
  · subst hne
    exact ⟨s, .nil, (Int.add_zero _).symm, h, hawaited, rfl⟩
  · have hlater : ∀ {waiting : List (Int × Int)} {moment x : Int},
        waiting = [(due, s.round.index)] → (moment, x) ∈ waiting →
        ¬ moment ≤ s.clock.now + waits.sum := by
      intro waiting moment x hone hmem
      rw [hone] at hmem
      cases List.mem_singleton.mp hmem
      exact Int.not_le.mpr (hearly hne)
    have hkeep : Keeps (fun index waiting =>
        waiting = [(due, s.round.index)] ∧ index = s.round.index) problems.length
        (s.clock.now + waits.sum) := by
      rintro index before after moment x ⟨hone, -⟩ hdue -
      exact absurd hdue (hlater hone (List.mem_append_right before List.mem_cons_self))
    obtain ⟨t, hconveys, hnow, ⟨ht, hI, -⟩ | ⟨-, hends⟩⟩ :=
      h.waits hr ⟨hawaited, rfl⟩ hnonneg hkeep
    · exact ⟨t, hconveys, hnow, ht, hI⟩
    · obtain ⟨index, waiting, moment, x, ⟨hone, -⟩, hmem, hdue, -⟩ := hends
      exact absurd hdue (hlater hone hmem)

/-- **A turn in a round that keeps pace.** If it rests, the round still keeps pace, or ends if it
was the last one; if not, the round lags behind from then on. -/
theorem Underway.takesTurn (h : Underway setup s problems reports) (hr : Reliable setup)
    (hnone : s.awaited = []) (howed : Owed problems (turn :: turns))
    (hnonneg : ∀ w ∈ turn.waits, 0 ≤ w) :
    ∃ t problems', Conveys setup s turn.moves t ∧ problems'.length = problems.length ∧
      Owed problems' turns ∧
      ((turn.Rests setup.rules.advanceDelay ∧
          ((Underway setup t problems' reports ∧ t.awaited = [] ∧
              t.round.index = s.round.index + 1) ∨
            (Ended t reports ∧ problems.length ≤ s.round.index + 1))) ∨
        (¬ turn.Rests setup.rules.advanceDelay ∧ Underway setup t problems' reports ∧
          Behind setup t (s.round.index + 1))) := by
  obtain ⟨p, hfind, hopen, hrest⟩ := howed.next
  obtain ⟨t, hsubmit, ht, hindex, hnow, hawaited⟩ := h.submit hr hfind hopen turn.answer
  have hlen := Round.length_answerFirst turn.id turn.answer setup.rules.tolerance problems
  rw [hnone, List.nil_append, ← hnow, ← hindex] at hawaited
  by_cases hrests : turn.Rests setup.rules.advanceDelay
  · obtain ⟨hne, hdue⟩ := hrests
    obtain ⟨u, hconveys, hcases⟩ := ht.rests hr hawaited hnonneg hne (by omega)
    rw [hindex, hlen] at hcases
    exact ⟨u, _, .cons hsubmit hconveys, hlen, hrest _ _, .inl ⟨⟨hne, hdue⟩, hcases⟩⟩
  · have hearly : turn.waits ≠ [] →
        t.clock.now + turn.waits.sum < t.clock.now + setup.rules.advanceDelay := by
      intro hne
      by_contra hlate
      exact hrests ⟨hne, by omega⟩
    obtain ⟨u, hconveys, hnow', hu, hone, hindex'⟩ := ht.goesOn hr hawaited hnonneg hearly
    refine ⟨u, _, .cons hsubmit hconveys, hlen, hrest _ _, .inr ⟨hrests, hu, ?_⟩⟩
    have hsum := List.sum_nonneg hnonneg
    constructor
    · omega
    · rw [hone, hindex]
      simp
    · rw [hone]
      simp
      omega

/-! ## Lagging behind -/

/-- **A turn in a round that lags behind** leaves it behind; nothing is awaited any more if it
rests. -/
theorem Behind.takesTurn (hb : Behind setup s k) (h : Underway setup s problems reports)
    (hr : Reliable setup) (howed : Owed problems (turn :: turns))
    (hnonneg : ∀ w ∈ turn.waits, 0 ≤ w) (hlt : k < problems.length) :
    ∃ t problems', Conveys setup s turn.moves t ∧ problems'.length = problems.length ∧
      Owed problems' turns ∧ Underway setup t problems' reports ∧ Behind setup t (k + 1) ∧
      (turn.Rests setup.rules.advanceDelay → t.awaited = []) := by
  obtain ⟨p, hfind, hopen, hrest⟩ := howed.next
  obtain ⟨t, hsubmit, ht, hindex, hnow, hawaited⟩ := h.submit hr hfind hopen turn.answer
  have hlen := Round.length_answerFirst turn.id turn.answer setup.rules.tolerance problems
  have hI : t.round.index < k + 1 ∧
      ∀ w ∈ t.awaited, w.2 < k ∧ w.1 ≤ t.clock.now + setup.rules.advanceDelay := by
    refine ⟨by have := hb.index_lt; omega, fun w hw => ?_⟩
    rw [hawaited] at hw
    rcases List.mem_append.mp hw with hw | hw
    · exact ⟨hb.awaited_lt w hw, hnow ▸ hb.due_le w hw⟩
    · rw [List.mem_singleton.mp hw]
      exact ⟨hb.index_lt, hnow ▸ Int.le_refl _⟩
  have hkeep : Keeps (fun index waiting => index < k + 1 ∧
      ∀ w ∈ waiting, w.2 < k ∧ w.1 ≤ t.clock.now + setup.rules.advanceDelay)
      (Round.answerFirst turn.id turn.answer setup.rules.tolerance problems).length
      (t.clock.now + turn.waits.sum) := by
    rintro index before after moment x ⟨-, hall⟩ - -
    have hx := (hall (moment, x) (List.mem_append_right before List.mem_cons_self)).1
    refine ⟨by omega, fun w hw => hall w ?_⟩
    exact (List.sublist_cons_self (moment, x) after).append_left before |>.subset hw
  obtain ⟨u, hconveys, hnow', ⟨hu, ⟨hindex', hall⟩, hlater⟩ | ⟨-, hends⟩⟩ :=
    ht.waits hr hI hnonneg hkeep
  · have hsum := List.sum_nonneg hnonneg
    refine ⟨u, _, .cons hsubmit hconveys, hlen, hrest _ _, hu, ⟨hindex', fun w hw => ?_,
      fun w hw => ?_⟩, fun ⟨hne, hdue⟩ => ?_⟩
    · have := (hall w hw).1
      omega
    · have := (hall w hw).2
      omega
    · refine List.eq_nil_iff_forall_not_mem.mpr fun w hw => ?_
      have := (hall w hw).2
      have := hlater hne w hw
      omega
  · obtain ⟨index, waiting, moment, x, ⟨-, hall⟩, hmem, -, hlast⟩ := hends
    have := (hall _ hmem).1
    rw [hlen] at hlast
    omega

/-- **A round that lags behind never ends**, and in the end waits for nothing any more. -/
theorem Behind.takesTurns (hb : Behind setup s k) (h : Underway setup s problems reports)
    (hr : Reliable setup) (howed : Owed problems turns)
    (hnonneg : ∀ turn ∈ turns, ∀ w ∈ turn.waits, 0 ≤ w)
    (hle : k + turns.length ≤ problems.length) :
    ∃ t problems', Conveys setup s (turns.flatMap Turn.moves) t ∧
      Underway setup t problems' reports ∧ (∀ p ∈ problems', p.isAnswered = true) ∧
      ∀ turn ∈ turns.getLast?, turn.Rests setup.rules.advanceDelay → t.awaited = [] := by
  induction turns generalizing s problems k with
  | nil => exact ⟨s, problems, .nil, h, howed.answered, nofun⟩
  | cons turn turns ih =>
    obtain ⟨hfirst, hothers⟩ := List.forall_mem_cons.mp hnonneg
    rw [List.length_cons] at hle
    obtain ⟨t, problems', hconveys, hlen, howed', ht, hb', hrest⟩ :=
      hb.takesTurn h hr howed hfirst (by omega)
    obtain ⟨u, problems'', hconveys', hu, hanswered, hlast⟩ :=
      ih hb' ht howed' hothers (by rw [hlen]; omega)
    refine ⟨u, problems'', hconveys.append hconveys', hu, hanswered, ?_⟩
    cases turns with
    | nil =>
      cases hconveys'
      rintro _ ⟨⟩
      exact hrest
    | cons turn' turns =>
      rw [List.getLast?_cons_cons]
      exact hlast

/-! ## All turns -/

/-- **All turns in a round that keeps pace.** If each of them rests, the round ends; otherwise it
lags behind in the end. -/
theorem Underway.takesTurns (h : Underway setup s problems reports) (hr : Reliable setup)
    (hnone : s.awaited = []) (howed : Owed problems turns)
    (hnonneg : ∀ turn ∈ turns, ∀ w ∈ turn.waits, 0 ≤ w)
    (hindex : s.round.index + turns.length = problems.length)
    (hlast : ∀ turn ∈ turns.getLast?, turn.Rests setup.rules.advanceDelay) :
    ∃ t, Conveys setup s (turns.flatMap Turn.moves) t ∧
      (((∀ turn ∈ turns, turn.Rests setup.rules.advanceDelay) ∧ Ended t reports) ∨
        ((∃ turn ∈ turns, ¬ turn.Rests setup.rules.advanceDelay) ∧
          ∃ problems', Underway setup t problems' reports ∧
            (∀ p ∈ problems', p.isAnswered = true) ∧ t.awaited = [])) := by
  induction turns generalizing s problems with
  | nil =>
    have hlt := h.index_lt
    rw [List.length_nil] at hindex
    omega
  | cons turn turns ih =>
    obtain ⟨hfirst, hothers⟩ := List.forall_mem_cons.mp hnonneg
    rw [List.length_cons] at hindex
    obtain ⟨t, problems', hconveys, hlen, howed', ⟨hrests, ⟨ht, hnone', hnext⟩ | ⟨ht, hover⟩⟩ |
      ⟨hhurries, ht, hb⟩⟩ := h.takesTurn hr hnone howed hfirst
    · have hmore : turns ≠ [] := by
        rintro rfl
        have hlt := ht.index_lt
        rw [List.length_nil] at hindex
        omega
      have hlast' : ∀ turn ∈ turns.getLast?, turn.Rests setup.rules.advanceDelay := by
        obtain ⟨turn', turns', rfl⟩ := List.exists_cons_of_ne_nil hmore
        rw [List.getLast?_cons_cons] at hlast
        exact hlast
      obtain ⟨u, hconveys', hcases⟩ := ih ht hnone' howed' hothers (by omega) hlast'
      refine ⟨u, hconveys.append hconveys', hcases.imp ?_ ?_⟩
      · rintro ⟨hall, hu⟩
        exact ⟨List.forall_mem_cons.mpr ⟨hrests, hall⟩, hu⟩
      · rintro ⟨⟨turn', hmem, hnot⟩, hu⟩
        exact ⟨⟨turn', List.mem_cons_of_mem turn hmem, hnot⟩, hu⟩
    · have hnil : turns = [] := List.length_eq_zero_iff.mp (by omega)
      subst hnil
      exact ⟨t, hconveys.append .nil, .inl ⟨by simpa using hrests, ht⟩⟩
    · obtain ⟨u, problems'', hconveys', hu, hanswered, hspent⟩ :=
        hb.takesTurns ht hr howed' hothers (by omega)
      refine ⟨u, hconveys.append hconveys', .inr ⟨⟨turn, List.mem_cons_self, hhurries⟩,
        problems'', hu, hanswered, ?_⟩⟩
      cases turns with
      | nil => exact absurd (hlast turn rfl) hhurries
      | cons turn' turns =>
        rw [List.getLast?_cons_cons] at hlast
        have hsome : (turn' :: turns).getLast? ≠ none := by simp
        obtain ⟨final, hfinal⟩ := Option.ne_none_iff_exists'.mp hsome
        exact hspent final hfinal (hlast final hfinal)

/-- A list of problems is accepted, time passes, and turns answer each of its problems once. -/
theorem Passive.conveys (hs : s.Passive) (hr : Reliable setup) (hl : Linked s)
    (hb : s.clock.Beats) (hc : s.CopyMade) (henabled : s.enabled = true) {m : Move}
    (haccepted : accepted (s.start m) = some problems) (hne : problems ≠ [])
    (hids : (problems.map (·.id)).Nodup) {before : List Int} (hbefore : ∀ w ∈ before, 0 ≤ w)
    (hnonneg : ∀ turn ∈ turns, ∀ w ∈ turn.waits, 0 ≤ w)
    (hall : (turns.map (·.id)).Perm (problems.map (·.id)))
    (hlast : ∀ turn ∈ turns.getLast?, turn.Rests setup.rules.advanceDelay) :
    ∃ t, Conveys setup s (m :: before.map .wait ++ turns.flatMap Turn.moves) t ∧
      (((∀ turn ∈ turns, turn.Rests setup.rules.advanceDelay) ∧ Ended t s.reports) ∨
        ((∃ turn ∈ turns, ¬ turn.Rests setup.rules.advanceDelay) ∧
          ∃ problems', Underway setup t problems' s.reports ∧
            (∀ p ∈ problems', p.isAnswered = true) ∧ t.awaited = [])) := by
  obtain ⟨t, hm, ht, hnone, hindex⟩ :=
    underway_of_accepted hr hs hl hb hc henabled haccepted hne
  have howed : Owed (problems.map Problem.resolved) turns := by
    refine ⟨?_, by rw [Round.unanswered_resolved]; exact hall⟩
    rw [List.map_map]
    exact hids
  have hlen : turns.length = problems.length := by simpa using hall.length_eq
  have hkeep : ∀ moment, Keeps (fun index waiting => waiting = [] ∧ index = 0)
      (problems.map Problem.resolved).length moment := by
    rintro moment index before after due x ⟨hnil, -⟩
    simp at hnil
  obtain ⟨u, hconveys, -, ⟨hu, ⟨hnone', hindex'⟩, -⟩ | ⟨-, hends⟩⟩ :=
    ht.waits hr ⟨hnone, hindex⟩ hbefore (hkeep _)
  · obtain ⟨v, hconveys', hcases⟩ := hu.takesTurns hr hnone' howed hnonneg
      (by rw [hindex', hlen, List.length_map, Int.zero_add]) hlast
    exact ⟨v, .cons hm (hconveys.append hconveys'), hcases⟩
  · obtain ⟨index, waiting, due, x, ⟨rfl, -⟩, hmem, -⟩ := hends
    cases hmem

/-- **Answers in any order.** A list of problems is handed in, and each is answered once, in
whatever order and with whatever answers, while nobody acts besides; after the last answer the delay
goes by. If the delay is over after each answer before the next one is given, the round is completed
and the listener for results has been given one report more. If not, the round stays active with all
its problems answered, nothing was reported, and no advance is to come any more. -/
theorem Reachable.answered_in_any_order (hcancel : setup.honoursCancel = true)
    (hresults : setup.tellsResults = true) (hwording : setup.wording.Willing)
    (htick : 1 ≤ setup.rules.tickInterval) (hdelay : 0 ≤ setup.rules.advanceDelay)
    {sheets : Table (List Problem)} {onResult onChange : List (List Move)}
    {past : List (Agenda Sitting Task Fault)} {a : Agenda Sitting Task Fault}
    (h : Reachable setup (opening sheets onResult onChange) past a) (hpassive : a.state.Passive)
    (henabled : a.state.enabled = true) {name : String} {copied : Bool}
    (haccepted : accepted (a.state.start (.present name copied)) = some problems)
    (hne : problems ≠ []) (hids : (problems.map (·.id)).Nodup) {before : List Int}
    (hbefore : ∀ w ∈ before, 0 ≤ w) (hnonneg : ∀ turn ∈ turns, ∀ w ∈ turn.waits, 0 ≤ w)
    (hall : (turns.map (·.id)).Perm (problems.map (·.id)))
    (hlast : ∀ turn ∈ turns.getLast?, turn.Rests setup.rules.advanceDelay) :
    ∃ outcomes s,
      (∀ o, Conducts setup a.state
        (.present name copied :: before.map .wait ++ turns.flatMap Turn.moves) o ↔
          o = outcomes ++ [(s, none)]) ∧
      ((∀ turn ∈ turns, turn.Rests setup.rules.advanceDelay) →
        s.round.phase = .completed ∧ ∃ report, s.reports = report :: a.state.reports) ∧
      ((∃ turn ∈ turns, ¬ turn.Rests setup.rules.advanceDelay) →
        s.round.phase = .active ∧ (∀ p ∈ s.round.problems, p.isAnswered = true) ∧
        s.reports = a.state.reports ∧ ∀ (i : Nat) (alarm : Alarm Purpose),
          s.clock.alarms[i]? = some alarm → ¬ alarm.Waits) := by
  have hr : Reliable setup := ⟨hcancel, hresults, hwording, htick, hdelay⟩
  obtain ⟨s, hconveys, hcases⟩ := hpassive.conveys hr (h.linked hcancel (.opening ..))
    (h.beats htick fun _ hmem => absurd hmem List.not_mem_nil) (h.copyMade copyMade_opening)
    henabled haccepted hne hids hbefore hnonneg hall hlast
  obtain ⟨outcomes, hconducts⟩ := hconveys.conducts (List.cons_ne_nil _ _)
  refine ⟨outcomes, s, fun o => ⟨hconducts.unique, ?_⟩, fun hrest => ?_, fun hhurry => ?_⟩
  · rintro rfl
    exact hconducts
  · rcases hcases with ⟨-, hended⟩ | ⟨⟨turn, hmem, hnot⟩, -⟩
    · exact ⟨hended.phase_eq, hended.reports_eq⟩
    · exact absurd (hrest turn hmem) hnot
  · rcases hcases with ⟨hrest, -⟩ | ⟨-, problems', hu, hanswered, hnone⟩
    · obtain ⟨turn, hmem, hnot⟩ := hhurry
      exact absurd (hrest turn hmem) hnot
    · exact ⟨hu.phase_eq, hu.problems_eq ▸ hanswered, hu.reports_eq, fun i alarm ha =>
        hu.not_waits hnone ha⟩

/-- Of two problems the second is answered first, and each answer rests for its delay, the second in
two waits. -/
theorem answered_in_any_order_backwards :
    ∃ outcomes s report,
      Conducts {} (opening (Table.insert {} "sums" [{ id := 1, text := "2 + 3" },
        { id := 2, text := "2 * 3" }]) [] [])
        [.present "sums" false, .wait 700, .submit 2 6.0, .wait 1500, .submit 1 5.0, .wait 1000,
          .wait 500] (outcomes ++ [(s, none)]) ∧
      s.round.phase = .completed ∧ s.reports = [report] := by
  have hwording : ({} : Setup).wording.Willing := fun _ => ⟨_, rfl⟩
  have haccepted : accepted ((opening (Table.insert {} "sums" [{ id := 1, text := "2 + 3" },
      { id := 2, text := "2 * 3" }]) [] []).start (.present "sums" false)) =
    some [{ id := 1, text := "2 + 3" }, { id := 2, text := "2 * 3" }] := rfl
  have hbefore : ∀ w ∈ [(700 : Int)], 0 ≤ w := by decide
  have hnonneg : ∀ turn ∈ [Turn.mk 2 6.0 [1500], Turn.mk 1 5.0 [1000, 500]], ∀ w ∈ turn.waits,
      0 ≤ w := by decide
  obtain ⟨outcomes, s, hconducts, hrested, -⟩ :=
    Reachable.answered_in_any_order rfl rfl hwording (by decide) (by decide) .start
      (passive_opening _) rfl haccepted (List.cons_ne_nil _ _) (by decide) hbefore hnonneg
      (by decide) (by decide)
  obtain ⟨hphase, report, hreports⟩ := hrested (by decide)
  exact ⟨outcomes, s, report, (hconducts _).mpr rfl, hphase, hreports⟩

/-- Both problems are answered at once: both advances move past the first, and the round never
ends. -/
theorem unfinished_though_answered :
    ∃ outcomes s,
      Conducts {} (opening (Table.insert {} "sums" [{ id := 1, text := "1 + 1" },
        { id := 2, text := "2 + 2" }]) [] [])
        [.present "sums" false, .submit 1 2.0, .submit 2 4.0, .wait 1500]
        (outcomes ++ [(s, none)]) ∧
      s.round.phase = .active ∧ (∀ p ∈ s.round.problems, p.isAnswered = true) ∧
      s.reports = [] := by
  have hr : Reliable {} := ⟨rfl, rfl, fun _ => ⟨_, rfl⟩, by decide, by decide⟩
  have haccepted : accepted ((opening (Table.insert {} "sums" [{ id := 1, text := "1 + 1" },
      { id := 2, text := "2 + 2" }]) [] []).start (.present "sums" false)) =
    some [{ id := 1, text := "1 + 1" }, { id := 2, text := "2 + 2" }] := rfl
  have hbefore : ∀ w ∈ ([] : List Int), 0 ≤ w := by decide
  have hnonneg : ∀ turn ∈ [Turn.mk 1 2.0 [], Turn.mk 2 4.0 [1500]], ∀ w ∈ turn.waits, 0 ≤ w := by
    decide
  obtain ⟨s, hconveys, ⟨hrest, -⟩ | ⟨-, problems', hu, hanswered, -⟩⟩ :=
    (passive_opening _).conveys hr (.opening ..) (fun _ hmem => absurd hmem List.not_mem_nil) nofun
      rfl haccepted (List.cons_ne_nil _ _) (by decide) hbefore hnonneg (by decide) (by decide)
  · exact absurd (hrest _ List.mem_cons_self) (by decide)
  · obtain ⟨outcomes, hconducts⟩ := hconveys.conducts (List.cons_ne_nil _ _)
    exact ⟨outcomes, s, hconducts, hu.phase_eq, hu.problems_eq ▸ hanswered, hu.reports_eq⟩

end Sitting

end TimedQuiz
