import TimedQuiz.Proofs.Expr.Reading

/-!
# Reading by recursive descent

One procedure for each rank of the grammar, one cursor for all of them, and a count of the groups
that are open: it goes up at an opening parenthesis and comes down when the group is closed.

* `Found` — what a procedure finds, and where it leaves the cursor and the count;
* `factor`, `term`, `sum` — the procedures, `moreFactors` and `moreTerms` their loops;
* `read` — the whole token list;
* `Stops` — where a procedure stops;
* `Tracks` — a procedure against the reader, which goes on from there.

Main statement: `read_eq_ofTokens?` — recursive descent finds the same tree, or the same cause, as
the reader, which recurses on the tokens and keeps what waits for an operand.
-/

namespace TimedQuiz.Expr

namespace Descent

variable {r : Rank} {b b' d : Nat} {ts : List Token}

/-- A tree, the tokens after it, fewer than `bound`, and how many groups are open there. -/
structure Found (r : Rank) (bound : Nat) where
  tree : Tree r
  rest : List Token
  opened : Nat
  nearer : rest.length < bound

/-- What is found within a bound is found within a greater one. -/
def Found.within (f : Found r b) (h : b ≤ b') : Found r b' :=
  { f with nearer := Nat.lt_of_lt_of_le f.nearer h }

/-- A closing parenthesis makes a group of the sum before it. -/
def closeGroup (e : Found .sum b) : Except Rejection (Found .factor b) :=
  match e with
  | ⟨tree, .closing :: rest, opened, nearer⟩ =>
    .ok ⟨.group tree, rest, opened - 1, Nat.lt_of_succ_lt nearer⟩
  | _ => .error .unclosedGroup

mutual

/-- A numeral or a group. -/
def factor (d : Nat) (ts : List Token) : Except Rejection (Found .factor ts.length) :=
  match ts with
  | .number n :: ts => .ok ⟨.number n, ts, d, Nat.lt_succ_self _⟩
  | .opening :: ts =>
    if maxNesting < d + 1 then .error .nestedTooDeeply
    else do
      let e ← sum (d + 1) ts
      let f ← closeGroup e
      return f.within (Nat.le_succ _)
  | _ => .error .operandExpected
termination_by (ts.length, 0)

/-- Factors for as long as an operator of products comes first. -/
def moreFactors (d : Nat) (l : Tree .term) (ts : List Token) :
    Except Rejection (Found .term (ts.length + 1)) :=
  match ts with
  | .mul op :: ts => do
    let f ← factor d ts
    have := f.nearer
    let t ← moreFactors f.opened (.product l op f.tree) f.rest
    return t.within (Nat.succ_le_succ (Nat.le_succ_of_le (Nat.le_of_lt f.nearer)))
  | ts => .ok ⟨l, ts, d, Nat.lt_succ_self _⟩
termination_by (ts.length, 0)

/-- A product. -/
def term (d : Nat) (ts : List Token) : Except Rejection (Found .term ts.length) := do
  let f ← factor d ts
  have := f.nearer
  let t ← moreFactors f.opened (.factor f.tree) f.rest
  return t.within f.nearer
termination_by (ts.length, 1)

/-- Terms for as long as an operator of sums comes first. -/
def moreTerms (d : Nat) (l : Tree .sum) (ts : List Token) :
    Except Rejection (Found .sum (ts.length + 1)) :=
  match ts with
  | .add op :: ts => do
    let t ← term d ts
    have := t.nearer
    let e ← moreTerms t.opened (.chain l op t.tree) t.rest
    return e.within (Nat.succ_le_succ (Nat.le_succ_of_le (Nat.le_of_lt t.nearer)))
  | ts => .ok ⟨l, ts, d, Nat.lt_succ_self _⟩
termination_by (ts.length, 0)

/-- A sum. -/
def sum (d : Nat) (ts : List Token) : Except Rejection (Found .sum ts.length) := do
  let t ← term d ts
  have := t.nearer
  let e ← moreTerms t.opened (.term t.tree) t.rest
  return e.within t.nearer
termination_by (ts.length, 2)

end

/-- The tree of a token list: a sum, with nothing after it. -/
def read (ts : List Token) : Except Rejection (Tree .sum) := do
  let e ← sum 0 ts
  match e.rest with
  | [] => .ok e.tree
  | _ => .error .trailingTokens

/-! ## Against the states of the reader -/

/-- No operator comes next with which a procedure of the rank would have gone on. -/
def Stops : Rank → List Token → Prop
  | .factor, _ => True
  | .term, ts => ∀ op us, ts ≠ .mul op :: us
  | .sum, ts => (∀ op us, ts ≠ .mul op :: us) ∧ ∀ op us, ts ≠ .add op :: us

/-- The procedure fails for the cause that the reader comes to, or it stops, with the groups open
that were, where the reader goes on with the tree. -/
def Tracks (found : Except Rejection (Found r b)) (outer : List Pending)
    (result : Except Rejection (Tree .sum))
    (next : Tree r → List Token → Except Rejection (Tree .sum)) : Prop :=
  match found with
  | .error cause => result = .error cause
  | .ok f => f.opened = outer.length ∧ Stops r f.rest ∧ result = next f.tree f.rest

section

variable {r' : Rank} {outer outer' : List Pending} {found : Except Rejection (Found r b)}
  {result : Except Rejection (Tree .sum)}
  {next : Tree r → List Token → Except Rejection (Tree .sum)}
  {next' : Tree r' → List Token → Except Rejection (Tree .sum)}

/-- A procedure that calls another goes on where that one stops. -/
theorem Tracks.bind {g : Found r b → Except Rejection (Found r' b')}
    (h : Tracks found outer result next)
    (hg : ∀ f : Found r b, f.opened = outer.length → Stops r f.rest →
      Tracks (g f) outer' (next f.tree f.rest) next') :
    Tracks (found >>= g) outer' result next' := by
  cases found with
  | error cause => exact h
  | ok f =>
    obtain ⟨hopened, hstops, hresult⟩ := h
    rw [hresult]
    exact hg f hopened hstops

theorem Tracks.within (h : Tracks found outer result next) (hb : b ≤ b') :
    Tracks (do return (← found).within hb) outer result next := by
  cases found with
  | error cause => exact h
  | ok f => exact h

end

/-- Where the reader goes on after a factor. -/
abbrev afterFactor (outer : List Pending) (here : Pending) (f : Tree .factor) :
    List Token → Except Rejection (Tree .sum) :=
  readOperator outer here.sum (joinProduct here.product f)

/-- Where the reader goes on after a sum, of which it keeps the last term apart. -/
abbrev afterSum (outer : List Pending) (e : Tree .sum) :
    List Token → Except Rejection (Tree .sum) :=
  readOperator outer e.lastTerm.1 e.lastTerm.2

/-- Each procedure tracks the reader from the state that the procedure starts in. -/
structure Agrees (ts : List Token) : Prop where
  factor (outer : List Pending) (here : Pending) :
    Tracks (Descent.factor outer.length ts) outer (readOperand outer here ts)
      (afterFactor outer here)
  moreFactors (outer : List Pending) (s : Option (Tree .sum × AddOp)) (l : Tree .term) :
    Tracks (Descent.moreFactors outer.length l ts) outer (readOperator outer s l ts)
      (readOperator outer s)
  term (outer : List Pending) (s : Option (Tree .sum × AddOp)) :
    Tracks (Descent.term outer.length ts) outer (readOperand outer { sum := s } ts)
      (readOperator outer s)
  moreTerms (outer : List Pending) (l : Tree .sum) : Stops .term ts →
    Tracks (Descent.moreTerms outer.length l ts) outer (afterSum outer l ts) (afterSum outer)
  sum (outer : List Pending) :
    Tracks (Descent.sum outer.length ts) outer (readOperand outer {} ts) (afterSum outer)

/-- A group is closed where a sum stops: what stands there, other than a closing parenthesis, is no
operator, and the reader finds the same fault with it. -/
theorem tracks_closeGroup (outer : List Pending) (here : Pending) (e : Found .sum b)
    (hopened : e.opened = outer.length + 1) (hstops : Stops .sum e.rest) :
    Tracks (closeGroup e) outer (afterSum (here :: outer) e.tree e.rest)
      (afterFactor outer here) := by
  obtain ⟨tree, rest, opened, nearer⟩ := e
  cases rest with
  | nil => rfl
  | cons t rest =>
    cases t with
    | closing =>
      refine ⟨Nat.sub_eq_of_eq_add hopened, trivial, ?_⟩
      rw [afterSum, readOperator_closing, joinSum_lastTerm, afterFactor]
    | number n => rfl
    | opening => rfl
    | add op => exact absurd rfl (hstops.2 op rest)
    | mul op => exact absurd rfl (hstops.1 op rest)

theorem moreFactors_of_stops {l : Tree .term} (h : Stops .term ts) :
    moreFactors d l ts = .ok ⟨l, ts, d, Nat.lt_succ_self _⟩ := by
  rw [moreFactors]
  exact h

theorem moreTerms_of_stops {l : Tree .sum} (h : Stops .sum ts) :
    moreTerms d l ts = .ok ⟨l, ts, d, Nat.lt_succ_self _⟩ := by
  rw [moreTerms]
  exact h.2

section

variable (h : ∀ us : List Token, us.length < ts.length → Agrees us)

include h

theorem tracks_factor (outer : List Pending) (here : Pending) :
    Tracks (factor outer.length ts) outer (readOperand outer here ts)
      (afterFactor outer here) := by
  cases ts with
  | nil =>
    simp only [factor]
    rfl
  | cons t ts =>
    cases t with
    | number n => rw [factor]; exact ⟨rfl, trivial, rfl⟩
    | opening =>
      rw [factor, readOperand_opening]
      by_cases hfull : maxNesting < outer.length + 1
      · rw [if_pos hfull, if_neg (by omega)]
        rfl
      · rw [if_neg hfull, if_pos (by omega)]
        refine ((h ts (Nat.lt_succ_self _)).sum (here :: outer)).bind fun e hopened hstops => ?_
        exact (tracks_closeGroup outer here e hopened hstops).within (Nat.le_succ _)
    | closing =>
      simp only [factor]
      rfl
    | add op =>
      simp only [factor]
      rfl
    | mul op =>
      simp only [factor]
      rfl

theorem tracks_moreFactors (outer : List Pending) (s : Option (Tree .sum × AddOp))
    (l : Tree .term) :
    Tracks (moreFactors outer.length l ts) outer (readOperator outer s l ts)
      (readOperator outer s) := by
  by_cases hmul : ∃ op us, ts = .mul op :: us
  · obtain ⟨op, us, rfl⟩ := hmul
    rw [moreFactors, readOperator_mul]
    have hshorter : us.length < (Token.mul op :: us).length := Nat.lt_succ_self _
    refine ((h us hshorter).factor outer { sum := s, product := some (l, op) }).bind
      fun f hopened _ => ?_
    have hnext := (h f.rest (f.nearer.trans hshorter)).moreFactors outer s (.product l op f.tree)
    rw [hopened]
    exact hnext.within _
  · have hstops : Stops .term ts := fun op us hts => hmul ⟨op, us, hts⟩
    rw [moreFactors_of_stops hstops]
    exact ⟨rfl, hstops, rfl⟩

theorem tracks_term (outer : List Pending) (s : Option (Tree .sum × AddOp)) :
    Tracks (term outer.length ts) outer (readOperand outer { sum := s } ts)
      (readOperator outer s) := by
  rw [term]
  refine (tracks_factor h outer { sum := s }).bind fun f hopened _ => ?_
  have hnext := (h f.rest f.nearer).moreFactors outer s (.factor f.tree)
  rw [hopened]
  exact hnext.within _

theorem tracks_moreTerms (outer : List Pending) (l : Tree .sum) (hterm : Stops .term ts) :
    Tracks (moreTerms outer.length l ts) outer (afterSum outer l ts) (afterSum outer) := by
  by_cases hadd : ∃ op us, ts = .add op :: us
  · obtain ⟨op, us, rfl⟩ := hadd
    rw [moreTerms, afterSum, readOperator_add, joinSum_lastTerm]
    have hshorter : us.length < (Token.add op :: us).length := Nat.lt_succ_self _
    refine ((h us hshorter).term outer (some (l, op))).bind fun t hopened hstops => ?_
    have hnext := (h t.rest (t.nearer.trans hshorter)).moreTerms outer (.chain l op t.tree) hstops
    rw [hopened]
    exact hnext.within _
  · have hstops : Stops .sum ts := ⟨hterm, fun op us hts => hadd ⟨op, us, hts⟩⟩
    rw [moreTerms_of_stops hstops]
    exact ⟨rfl, hstops, rfl⟩

theorem tracks_sum (outer : List Pending) :
    Tracks (sum outer.length ts) outer (readOperand outer {} ts) (afterSum outer) := by
  rw [sum]
  refine (tracks_term h outer none).bind fun t hopened hstops => ?_
  have hnext := (h t.rest t.nearer).moreTerms outer (.term t.tree) hstops
  rw [hopened]
  exact hnext.within _

end

/-- The procedures call one another on fewer tokens, or on as many and for a lower rank. -/
theorem agrees (ts : List Token) : Agrees ts :=
  have h : ∀ us : List Token, us.length < ts.length → Agrees us := fun us _ => agrees us
  { factor := tracks_factor h
    moreFactors := tracks_moreFactors h
    term := tracks_term h
    moreTerms := tracks_moreTerms h
    sum := tracks_sum h }
termination_by ts.length

/-- **Recursive descent finds what the reader finds**, the same tree or the same cause. -/
theorem read_eq_ofTokens? (ts : List Token) : read ts = Tree.ofTokens? ts := by
  have hsum : Tracks (sum 0 ts) [] (readOperand [] {} ts) (afterSum []) := (agrees ts).sum []
  rw [Tree.ofTokens?, read]
  cases hfound : sum 0 ts with
  | error cause =>
    rw [hfound] at hsum
    exact hsum.symm
  | ok e =>
    rw [hfound] at hsum
    obtain ⟨-, hstops, hresult⟩ := hsum
    obtain ⟨tree, rest, opened, nearer⟩ := e
    rw [hresult]
    cases rest with
    | nil => exact congrArg Except.ok (joinSum_lastTerm tree).symm
    | cons t rest =>
      cases t with
      | number n => rfl
      | opening => rfl
      | closing => rfl
      | add op => exact absurd rfl (hstops.2 op rest)
      | mul op => exact absurd rfl (hstops.1 op rest)

end Descent

end TimedQuiz.Expr
