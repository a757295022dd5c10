import TimedQuiz.Proofs.Expr.Stack
import TimedQuiz.Proofs.Round.WellFormed

/-!
# One bad problem among others

The problems are worked out one after the other. What a text is rejected for is caught and put on
record; whatever else ends the computation goes through, and the problems after it get no answer.

* `Problem.resolveOne`, `Problem.resolveInTurn` — the correct answers, on a bounded stack;
* `Problem.told` — what is put on record about one problem.

Main statement: `Problem.resolveInTurn_isolated` — nothing goes through: every problem gets its
answer and its record whatever the others are, and a round loads them.
-/

namespace TimedQuiz

open TimedQuiz.Expr (Breakdown)

namespace Problem

variable {p q : Problem} {ps : List Problem}

/-- The problem with the correct answer and nothing else that it had besides its label. -/
def withCorrect (p : Problem) (x : Float) : Problem :=
  { p with correct := some x, user := none, isCorrect := false, isAnswered := false }

/-- A problem with its correct answer, and what there is to note about it. -/
def resolveOne (frames : Nat) (p : Problem) : Except Breakdown (Problem × List Notice) :=
  match Expr.Stack.evaluate frames (expressionOf p.text.toList) with
  | .ok x =>
    .ok (p.withCorrect x, if x.isFinite then [] else [.notFinite p.id p.expression x])
  | .error (.rejected cause) =>
    .ok (p.withCorrect (Float.ofBits 0), [.unreadable p.expression cause])
  | .error breakdown => .error breakdown

/-- The problems with their correct answers, one after the other. -/
def resolveInTurn (frames : Nat) : List Problem → Except Breakdown (List Problem × List Notice)
  | [] => .ok ([], [])
  | p :: ps => do
    let (q, noted) ← resolveOne frames p
    let (qs, later) ← resolveInTurn frames ps
    return (q :: qs, noted ++ later)

/-- Of all that can end the computation only a rejection occurs, and that is caught. -/
theorem resolveOne_eq (spare : Nat) (p : Problem) :
    resolveOne (Expr.Stack.framesNeeded + spare) p = .ok (p.resolved, p.notice?.toList) := by
  rw [resolveOne, Expr.Stack.evaluate_eq, resolved, notice?, worth]
  cases Expr.calculate (expressionOf p.text.toList) with
  | error cause => rfl
  | ok x =>
    show Except.ok (p.withCorrect x,
        if x.isFinite then [] else [Notice.notFinite p.id p.expression x]) =
      Except.ok (p.withCorrect x,
        (if x.isFinite then none else some (Notice.notFinite p.id p.expression x)).toList)
    cases x.isFinite <;> rfl

theorem notices_cons (p : Problem) (ps : List Problem) :
    notices (p :: ps) = p.notice?.toList ++ notices ps := by
  unfold notices
  rw [List.filterMap_cons]
  cases p.notice? <;> rfl

/-- **The problems are resolved each by itself.** -/
theorem resolveInTurn_eq (spare : Nat) (ps : List Problem) :
    resolveInTurn (Expr.Stack.framesNeeded + spare) ps =
      .ok (ps.map resolved, notices ps) := by
  induction ps with
  | nil => rfl
  | cons p ps ih =>
    rw [resolveInTurn, resolveOne_eq, ih, List.map_cons, notices_cons]
    rfl

/-- The severity and the wording of what is put on record about a problem: that its text is
rejected, with the cause, or that its value is an infinity or not a number. -/
def told (p : Problem) : List (Severity × String) :=
  match Expr.calculate (expressionOf p.text.toList) with
  | .error cause =>
    [(.error,
      "Error calculating answer for " ++ Text.quote p.expression ++ ": " ++ cause.message)]
  | .ok x =>
    if x.isNaN || x.isInf then
      [(.warning,
        "Problem " ++ toString p.id ++ " has no finite answer (" ++ Text.quote p.expression ++
          " evaluates to " ++ Shortest.text x ++ ")")]
    else []

theorem isFinite_eq (x : Float) : x.isFinite = !(x.isNaN || x.isInf) := by
  show x.toModel.unpack.isFinite = !(x.toModel.unpack.isNaN || x.toModel.unpack.isInf)
  cases x.toModel.unpack <;> rfl

theorem told_eq (p : Problem) :
    p.notice?.toList.map (fun n => (n.severity, n.text)) = p.told := by
  rw [notice?, told, worth]
  cases Expr.calculate (expressionOf p.text.toList) with
  | error cause => rfl
  | ok x =>
    simp only [isFinite_eq]
    cases x.isNaN || x.isInf <;> rfl

theorem map_notices (ps : List Problem) :
    (notices ps).map (fun n => (n.severity, n.text)) = ps.flatMap told := by
  induction ps with
  | nil => rfl
  | cons p ps ih => rw [notices_cons, List.map_append, told_eq, ih, List.flatMap_cons]

/-- Nothing but the label of a problem counts. -/
theorem resolved_eq_of_label (h : p.label = q.label) : p.resolved = q.resolved := by
  obtain ⟨hid, htext⟩ := Prod.mk.inj h
  rw [resolved, resolved, worth, worth, hid, htext]

theorem notice?_eq_of_label (h : p.label = q.label) : p.notice? = q.notice? := by
  obtain ⟨hid, htext⟩ := Prod.mk.inj h
  rw [notice?, notice?, worth, worth, expression, expression, hid, htext]

/-- Nothing but the labels of the problems counts, whatever else they hold. -/
theorem resolveInTurn_eq_of_labels (spare : Nat) {ps qs : List Problem}
    (h : ps.map label = qs.map label) :
    resolveInTurn (Expr.Stack.framesNeeded + spare) ps =
      resolveInTurn (Expr.Stack.framesNeeded + spare) qs := by
  induction ps generalizing qs with
  | nil => rw [List.map_eq_nil_iff.mp h.symm]
  | cons p ps ih =>
    cases qs with
    | nil => cases h
    | cons q qs =>
      obtain ⟨hhead, htail⟩ := List.cons_eq_cons.mp h
      rw [resolveInTurn, resolveInTurn, resolveOne_eq, resolveOne_eq, ih htail,
        resolved_eq_of_label hhead, notice?_eq_of_label hhead]

/-- A round takes the problems on, and is under way if there are any. -/
theorem next_load (rules : HouseRules) (wording : Wording) (r : Round) (ps : List Problem) :
    ∃ orders,
      r.next rules wording (.load ps) = Recorded.mk ((notices ps).map .notice)
        (.ok (.moved { problems := ps.map resolved, generation := r.generation + 1 } orders
          none)) :=
  ⟨_, rfl⟩

/-- **One bad problem never affects the others.** With the frames that a text needs, and any more,
resolving a list of problems breaks down for none of them. The `i`-th result has the identity and
the text of the `i`-th problem and no answer; it is worth what that text is, zero if the text is
rejected. All of it depends on the identities and the texts alone. On record is, in the order of
the problems, an error for each whose text is rejected, a warning for each whose value is an
infinity or not a number, and nothing for the others; and a round that loads the problems comes
under way with the results, if there are any. -/
theorem resolveInTurn_isolated (rules : HouseRules) (wording : Wording) (r : Round) (spare : Nat)
    (ps : List Problem) :
    ∃ (qs : List Problem) (noted : List Notice),
      resolveInTurn (Expr.Stack.framesNeeded + spare) ps = .ok (qs, noted) ∧
      qs.length = ps.length ∧
      (∀ (i : Nat) (p : Problem), ps[i]? = some p →
        qs[i]? = some
          { id := p.id
            text := p.text
            correct := some
              (match Expr.Stack.evaluate (Expr.Stack.framesNeeded + spare)
                  (expressionOf p.text.toList) with
                | .ok x => x
                | .error _ => Float.ofBits 0)
            user := none
            isCorrect := false
            isAnswered := false }) ∧
      (∀ others : List Problem, others.map label = ps.map label →
        resolveInTurn (Expr.Stack.framesNeeded + spare) others = .ok (qs, noted)) ∧
      noted.map (fun n => (n.severity, n.text)) = ps.flatMap told ∧
      ∃ orders r',
        r.next rules wording (.load ps) =
          Recorded.mk (noted.map .notice) (.ok (.moved r' orders none)) ∧
        r'.problems = qs ∧ (ps ≠ [] → r'.phase = .active) := by
  refine ⟨ps.map resolved, notices ps, resolveInTurn_eq spare ps, List.length_map _, ?_, ?_,
    map_notices ps, ?_⟩
  · intro i p hp
    rw [List.getElem?_map, hp, Expr.Stack.evaluate_eq]
    show some p.resolved = _
    rw [resolved, worth]
    cases Expr.calculate (expressionOf p.text.toList) <;> rfl
  · intro others hothers
    rw [resolveInTurn_eq_of_labels spare hothers, resolveInTurn_eq]
  · obtain ⟨orders, hload⟩ := next_load rules wording r ps
    refine ⟨orders, _, hload, rfl, fun hps => ?_⟩
    cases ps with
    | nil => exact absurd rfl hps
    | cons p ps => rfl

end Problem

end TimedQuiz
