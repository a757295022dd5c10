import TimedQuiz.Proofs.Expr.Descent

/-!
# Working out a value on a bounded stack

The procedures of recursive descent once more. They compute the value while they go through the
tokens, and nothing is taken for granted: a division has no result over zero, and every call of a
procedure takes a frame of the stack, of which there are only so many. The loops stay in the frame
of their procedure.

* `Breakdown` — what can end such a computation;
* `guardedQuotient` — division that tells the zero divisors apart first;
* `Stack.evaluate` — the value of a text;
* `Stack.Mirrors` — a procedure against the one that makes trees.

Main statements: `Stack.evaluate_eq` — three frames for every group that may be open, and four more,
are enough: a text has the value that `calculate` gives it, or is rejected for the same cause;
`calculate_accepts_grammar` — a text has a value exactly if it has a derivation, and the operations
of its only derivation are those that are carried out.
-/

namespace TimedQuiz.Expr

/-- What can end a computation that works a value out while it reads. -/
inductive Breakdown where
  /-- The text is not an expression. -/
  | rejected (cause : Rejection)
  /-- No frame is left for a call. -/
  | stackExhausted
  /-- A division by zero. -/
  | divisionByZero
  deriving DecidableEq, Repr

/-- A quotient, which does not exist over zero. -/
def quotient (x y : Float) : Except Breakdown Float :=
  if y == Float.ofBits 0 then .error .divisionByZero else .ok (x / y)

/-- A quotient that is only taken if the divisor is not zero. -/
def guardedQuotient (x y : Float) : Except Breakdown Float :=
  if y != Float.ofBits 0 then quotient x y
  else if x == Float.ofBits 0 || x.isNaN then .ok Binary64.nan
  else .ok (Binary64.copySign Binary64.infinity x * Binary64.copySign Binary64.one y)

/-- **No division by zero gets past the guard.** -/
theorem guardedQuotient_eq (x y : Float) : guardedQuotient x y = .ok (Binary64.divide x y) := by
  unfold guardedQuotient quotient Binary64.divide
  by_cases hy : (y == Float.ofBits 0) = true
  · have hguard : ¬ (y != Float.ofBits 0) = true := by simp only [bne, hy]; exact nofun
    rw [if_neg hguard, if_pos hy]
    split
    · rfl
    · rfl
  · have hguard : (y != Float.ofBits 0) = true := by simp only [bne, hy, Bool.not_false]
    rw [if_pos hguard, if_neg hy, if_neg hy]

/-- What an operator of products makes of two values. -/
def MulOp.attempt : MulOp → Float → Float → Except Breakdown Float
  | .times, x, y => .ok (x * y)
  | .divide, x, y => guardedQuotient x y

theorem MulOp.attempt_eq (op : MulOp) (x y : Float) : op.attempt x y = .ok (op.apply x y) := by
  cases op with
  | times => rfl
  | divide => exact guardedQuotient_eq x y

namespace Stack

variable {b b' d frames : Nat} {ts : List Token}

/-- A value, the tokens after it, fewer than `bound`, and how many groups are open there. -/
structure Part (bound : Nat) where
  value : Float
  rest : List Token
  opened : Nat
  nearer : rest.length < bound

/-- What is found within a bound is found within a greater one. -/
def Part.within (p : Part b) (h : b ≤ b') : Part b' :=
  { p with nearer := Nat.lt_of_lt_of_le p.nearer h }

theorem nearer_of_cons {t : Token} (h : (t :: ts).length < b) : ts.length < b :=
  Nat.lt_of_succ_lt h

/-- A closing parenthesis is due after the sum in a group. -/
def closeGroup (e : Part b) : Except Breakdown (Part b) :=
  match e with
  | ⟨value, .closing :: rest, opened, nearer⟩ =>
    .ok ⟨value, rest, opened - 1, nearer_of_cons nearer⟩
  | _ => .error (.rejected .unclosedGroup)

/-- A numeral. -/
def number (frames d : Nat) (ts : List Token) : Except Breakdown (Part ts.length) :=
  match frames, ts with
  | 0, _ => .error .stackExhausted
  | _ + 1, .number n :: ts => .ok ⟨n.value, ts, d, Nat.lt_add_one _⟩
  | _ + 1, _ => .error (.rejected .operandExpected)

mutual

/-- A numeral or a group. -/
def factor (frames d : Nat) (ts : List Token) : Except Breakdown (Part ts.length) :=
  match frames, ts with
  | 0, _ => .error .stackExhausted
  | frames + 1, .opening :: ts =>
    if maxNesting < d + 1 then .error (.rejected .nestedTooDeeply)
    else do
      let e ← sum frames (d + 1) ts
      let p ← closeGroup e
      return p.within (Nat.le_succ _)
  | frames + 1, ts => number frames d ts
termination_by (frames, ts.length)

/-- Factors for as long as an operator of products comes first; `frames` are left for calls. -/
def moreFactors (frames d : Nat) (l : Float) (ts : List Token) :
    Except Breakdown (Part (ts.length + 1)) :=
  match ts with
  | .mul op :: ts => do
    let p ← factor frames d ts
    have := p.nearer
    let value ← op.attempt l p.value
    let t ← moreFactors frames p.opened value p.rest
    return t.within (Nat.succ_le_succ (Nat.le_succ_of_le (Nat.le_of_lt p.nearer)))
  | ts => .ok ⟨l, ts, d, Nat.lt_succ_self _⟩
termination_by (frames, ts.length)

/-- A product. -/
def term (frames d : Nat) (ts : List Token) : Except Breakdown (Part ts.length) :=
  match frames with
  | 0 => .error .stackExhausted
  | frames + 1 => do
    let p ← factor frames d ts
    let t ← moreFactors frames p.opened p.value p.rest
    return t.within p.nearer
termination_by (frames, ts.length)

/-- Terms for as long as an operator of sums comes first; `frames` are left for calls. -/
def moreTerms (frames d : Nat) (l : Float) (ts : List Token) :
    Except Breakdown (Part (ts.length + 1)) :=
  match ts with
  | .add op :: ts => do
    let t ← term frames d ts
    have := t.nearer
    let e ← moreTerms frames t.opened (op.apply l t.value) t.rest
    return e.within (Nat.succ_le_succ (Nat.le_succ_of_le (Nat.le_of_lt t.nearer)))
  | ts => .ok ⟨l, ts, d, Nat.lt_succ_self _⟩
termination_by (frames, ts.length)

/-- A sum. -/
def sum (frames d : Nat) (ts : List Token) : Except Breakdown (Part ts.length) :=
  match frames with
  | 0 => .error .stackExhausted
  | frames + 1 => do
    let t ← term frames d ts
    let e ← moreTerms frames t.opened t.value t.rest
    return e.within t.nearer
termination_by (frames, ts.length)

end

/-- The value of a text, blanks ignored, with so many frames for the procedures. -/
def evaluate (frames : Nat) (s : List Char) : Except Breakdown Float := do
  let ts ← (lex (Text.removeBlanks s)).mapError .rejected
  let e ← sum frames 0 ts
  match e.rest with
  | [] => .ok e.value
  | _ => .error (.rejected .trailingTokens)

/-! ## Against the procedures that make trees -/

/-- What is left of a tree that was found: its value. -/
def Part.ofFound {r : Rank} (f : Descent.Found r b) : Part b :=
  ⟨f.tree.value, f.rest, f.opened, f.nearer⟩

/-- The procedure finds the value of the tree, and goes as far, or it is rejected for the same
cause. -/
def Mirrors {r : Rank} (got : Except Breakdown (Part b))
    (found : Except Rejection (Descent.Found r b)) : Prop :=
  got = (found.map Part.ofFound).mapError .rejected

/-- How many groups are open where a procedure stops. -/
def Leaves {r : Rank} (found : Except Rejection (Descent.Found r b)) (d : Nat) : Prop :=
  ∀ f, found = .ok f → f.opened = d

section

variable {r r' : Rank} {got : Except Breakdown (Part b)}
  {found : Except Rejection (Descent.Found r b)}

/-- Procedures that go on with what others have found. -/
theorem Mirrors.bind {g : Part b → Except Breakdown (Part b')}
    {h : Descent.Found r b → Except Rejection (Descent.Found r' b')} (hfound : Mirrors got found)
    (hopened : Leaves found d)
    (hnext : ∀ f, f.opened = d → Mirrors (g (Part.ofFound f)) (h f)) :
    Mirrors (got >>= g) (found >>= h) := by
  cases found with
  | error cause =>
    rw [Mirrors] at hfound
    rw [hfound]
    rfl
  | ok f =>
    rw [Mirrors] at hfound
    rw [hfound]
    exact hnext f (hopened f rfl)

theorem Mirrors.within (h : Mirrors got found) (hb : b ≤ b') :
    Mirrors (do return (← got).within hb) (do return (← found).within hb) := by
  cases found with
  | error cause =>
    rw [Mirrors] at h
    rw [h]
    rfl
  | ok f =>
    rw [Mirrors] at h
    rw [h]
    rfl

end

/-- The reader that a procedure tracks tells how many groups are open where it stops. -/
theorem leaves_of_tracks {r : Rank} {found : Except Rejection (Descent.Found r b)}
    {outer : List Pending} {result next} (h : Descent.Tracks found outer result next)
    (hd : outer.length = d) : Leaves found d := by
  intro f hf
  rw [hf] at h
  exact h.1.trans hd

theorem leaves_factor (d : Nat) (ts : List Token) : Leaves (Descent.factor d ts) d := by
  have h := (Descent.agrees ts).factor (List.replicate d {}) {}
  rw [List.length_replicate] at h
  exact leaves_of_tracks h List.length_replicate

theorem leaves_term (d : Nat) (ts : List Token) : Leaves (Descent.term d ts) d := by
  have h := (Descent.agrees ts).term (List.replicate d {}) none
  rw [List.length_replicate] at h
  exact leaves_of_tracks h List.length_replicate

theorem leaves_sum (d : Nat) (ts : List Token) : Leaves (Descent.sum d ts) d := by
  have h := (Descent.agrees ts).sum (List.replicate d {})
  rw [List.length_replicate] at h
  exact leaves_of_tracks h List.length_replicate

/-- The frames that a factor needs where `d` groups are open: three for every group that may still
be opened, one for itself and one for a numeral. -/
def need (d : Nat) : Nat := 3 * (maxNesting - d) + 2

/-- With enough frames, each procedure mirrors the one that makes trees. -/
structure Suffices (ts : List Token) : Prop where
  factor (d frames : Nat) : need d ≤ frames →
    Mirrors (Stack.factor frames d ts) (Descent.factor d ts)
  moreFactors (d frames : Nat) (l : Tree .term) : need d ≤ frames →
    Mirrors (Stack.moreFactors frames d l.value ts) (Descent.moreFactors d l ts)
  term (d frames : Nat) : need d + 1 ≤ frames →
    Mirrors (Stack.term frames d ts) (Descent.term d ts)
  moreTerms (d frames : Nat) (l : Tree .sum) : need d + 1 ≤ frames →
    Mirrors (Stack.moreTerms frames d l.value ts) (Descent.moreTerms d l ts)
  sum (d frames : Nat) : need d + 2 ≤ frames →
    Mirrors (Stack.sum frames d ts) (Descent.sum d ts)

theorem mirrors_closeGroup (e : Descent.Found .sum b) :
    Mirrors (closeGroup (Part.ofFound e)) (Descent.closeGroup e) := by
  obtain ⟨tree, rest, opened, nearer⟩ := e
  cases rest with
  | nil => rfl
  | cons t rest => cases t <;> rfl

section

variable (h : ∀ us : List Token, us.length < ts.length → Suffices us)

include h

theorem mirrors_factor (hframes : need d ≤ frames) :
    Mirrors (factor frames d ts) (Descent.factor d ts) := by
  obtain ⟨frames, rfl⟩ : ∃ n, frames = n + 2 := ⟨frames - 2, by unfold need at hframes; omega⟩
  cases ts with
  | nil =>
    simp only [factor, Descent.factor]
    rfl
  | cons t ts =>
    cases t with
    | opening =>
      rw [factor, Descent.factor]
      by_cases hfull : maxNesting < d + 1
      · rw [if_pos hfull, if_pos hfull]
        rfl
      · rw [if_neg hfull, if_neg hfull]
        have henough : need (d + 1) + 2 ≤ frames + 1 := by
          unfold need at hframes ⊢
          omega
        refine ((h ts (Nat.lt_succ_self _)).sum (d + 1) (frames + 1) henough).bind
          (leaves_sum (d + 1) ts) fun e _ => ?_
        exact (mirrors_closeGroup e).within (Nat.le_succ _)
    | number n =>
      simp only [factor, Descent.factor]
      rfl
    | closing =>
      simp only [factor, Descent.factor]
      rfl
    | add op =>
      simp only [factor, Descent.factor]
      rfl
    | mul op =>
      simp only [factor, Descent.factor]
      rfl

theorem mirrors_moreFactors (l : Tree .term) (hframes : need d ≤ frames) :
    Mirrors (moreFactors frames d l.value ts) (Descent.moreFactors d l ts) := by
  by_cases hmul : ∃ op us, ts = .mul op :: us
  · obtain ⟨op, us, rfl⟩ := hmul
    rw [moreFactors, Descent.moreFactors]
    have hshorter : us.length < (Token.mul op :: us).length := Nat.lt_succ_self _
    refine ((h us hshorter).factor d frames hframes).bind (leaves_factor d us)
      fun f hopened => ?_
    have hnext := (h f.rest (f.nearer.trans hshorter)).moreFactors d frames
      (.product l op f.tree) hframes
    rw [MulOp.attempt_eq]
    rw [← hopened] at hnext
    exact hnext.within _
  · have hstops : Descent.Stops .term ts := fun op us hts => hmul ⟨op, us, hts⟩
    rw [Descent.moreFactors_of_stops hstops, moreFactors]
    · rfl
    · exact hstops

theorem mirrors_term (hframes : need d + 1 ≤ frames) :
    Mirrors (term frames d ts) (Descent.term d ts) := by
  obtain ⟨frames, rfl⟩ : ∃ n, frames = n + 1 := ⟨frames - 1, by omega⟩
  have henough : need d ≤ frames := Nat.le_of_succ_le_succ hframes
  rw [term, Descent.term]
  refine (mirrors_factor h henough).bind (leaves_factor d ts) fun f hopened => ?_
  have hnext := (h f.rest f.nearer).moreFactors d frames (.factor f.tree) henough
  rw [← hopened] at hnext
  exact hnext.within _

theorem mirrors_moreTerms (l : Tree .sum) (hframes : need d + 1 ≤ frames) :
    Mirrors (moreTerms frames d l.value ts) (Descent.moreTerms d l ts) := by
  by_cases hadd : ∃ op us, ts = .add op :: us
  · obtain ⟨op, us, rfl⟩ := hadd
    rw [moreTerms, Descent.moreTerms]
    have hshorter : us.length < (Token.add op :: us).length := Nat.lt_succ_self _
    refine ((h us hshorter).term d frames hframes).bind (leaves_term d us) fun t hopened => ?_
    have hnext := (h t.rest (t.nearer.trans hshorter)).moreTerms d frames
      (.chain l op t.tree) hframes
    rw [← hopened] at hnext
    exact hnext.within _
  · rw [Descent.moreTerms, moreTerms]
    · rfl
    · exact fun op us hts => hadd ⟨op, us, hts⟩
    · exact fun op us hts => hadd ⟨op, us, hts⟩

theorem mirrors_sum (hframes : need d + 2 ≤ frames) :
    Mirrors (sum frames d ts) (Descent.sum d ts) := by
  obtain ⟨frames, rfl⟩ : ∃ n, frames = n + 1 := ⟨frames - 1, by omega⟩
  have henough : need d + 1 ≤ frames := Nat.le_of_succ_le_succ hframes
  rw [sum, Descent.sum]
  refine (mirrors_term h henough).bind (leaves_term d ts) fun t hopened => ?_
  have hnext := (h t.rest t.nearer).moreTerms d frames (.term t.tree) henough
  rw [← hopened] at hnext
  exact hnext.within _

end

/-- The procedures call one another with one frame less; a group costs three of them, and there
may be one more open. -/
theorem suffices_frames (ts : List Token) : Suffices ts :=
  have h : ∀ us : List Token, us.length < ts.length → Suffices us :=
    fun us _ => suffices_frames us
  { factor := fun _ _ => mirrors_factor h
    moreFactors := fun _ _ l => mirrors_moreFactors h l
    term := fun _ _ => mirrors_term h
    moreTerms := fun _ _ l => mirrors_moreTerms h l
    sum := fun _ _ => mirrors_sum h }
termination_by ts.length

/-- The frames that a whole text needs. -/
def framesNeeded : Nat := 3 * maxNesting + 4

/-- **A text is worked out or rejected, and nothing else happens**: with the frames it needs, and
any more, it has the value that `calculate` gives it, or is rejected for the same cause. -/
theorem evaluate_eq (spare : Nat) (s : List Char) :
    evaluate (framesNeeded + spare) s = (calculate s).mapError .rejected := by
  unfold evaluate calculate parse
  cases lex (Text.removeBlanks s) with
  | error cause => rfl
  | ok ts =>
    have henough : need 0 + 2 ≤ framesNeeded + spare := Nat.le_add_right _ spare
    have hsum := (suffices_frames ts).sum 0 (framesNeeded + spare) henough
    show (sum (framesNeeded + spare) 0 ts >>= _) = _
    rw [hsum]
    show _ = ((Tree.ofTokens? ts >>= _).mapError _ : Except Breakdown Float)
    rw [← Descent.read_eq_ofTokens?, Descent.read]
    cases Descent.sum 0 ts with
    | error cause => rfl
    | ok e =>
      obtain ⟨tree, rest, opened, nearer⟩ := e
      cases rest with
      | nil => rfl
      | cons t rest => rfl

end Stack

end TimedQuiz.Expr
