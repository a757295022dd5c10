import TimedQuiz.Proofs.Expr.Descent

/-!
# The first fault, found by counting parentheses

Whether a token list is read, and what is wrong with it if not, can be told without a tree: it is
enough to know what is due next and how many parentheses are open.

* `Count` — what is due, and the parentheses that are open;
* `Count.step`, `Count.finish` — one token, and the end;
* `verdict` — the first fault of a token list, or none;
* `outcome` — the same of a result of the reader;
* `siblings` — groups side by side.

Main statement: `outcome_eq_verdict` — the reader comes to the same end as the count, and only
groups that are open at the same time count towards the limit.
-/

namespace TimedQuiz.Expr

/-- What comes next. -/
inductive Due where
  | operand
  | operator
  deriving DecidableEq, Repr

/-- What is due, and how many parentheses are open. -/
structure Count where
  due : Due := .operand
  opened : Nat := 0
  deriving DecidableEq, Repr

namespace Count

/-- One token. -/
def step (c : Count) (t : Token) : Except String Count :=
  match c.due, t with
  | .operand, .number _ => .ok { c with due := .operator }
  | .operand, .opening =>
    if c.opened + 1 = 101 then .error "Expression is nested too deeply"
    else .ok { c with opened := c.opened + 1 }
  | .operand, _ => .error "Expected number"
  | .operator, .add _ => .ok { c with due := .operand }
  | .operator, .mul _ => .ok { c with due := .operand }
  | .operator, .closing =>
    if 0 < c.opened then .ok { c with opened := c.opened - 1 }
    else .error "Unexpected tokens after expression"
  | .operator, _ =>
    if 0 < c.opened then .error "Missing closing parenthesis"
    else .error "Unexpected tokens after expression"

/-- The end. -/
def finish (c : Count) : Except String Unit :=
  match c.due with
  | .operand => .error "Expected number"
  | .operator => if c.opened = 0 then .ok () else .error "Missing closing parenthesis"

/-- Tokens up to the end. -/
def scan (c : Count) (ts : List Token) : Except String Unit := do (← ts.foldlM step c).finish

theorem scan_cons (c : Count) (t : Token) (ts : List Token) :
    c.scan (t :: ts) = c.step t >>= fun c => c.scan ts := by
  simp only [scan, List.foldlM_cons, bind_assoc]

end Count

/-- The first fault of a token list, if it has one. -/
def verdict (ts : List Token) : Except String Unit := Count.scan {} ts

/-- A result for which only its success and the wording of a cause matter. -/
def outcome {α : Type} : Except Rejection α → Except String Unit
  | .ok _ => .ok ()
  | .error cause => .error cause.message

/-! ## The reader and the count -/

/-- The count knows of the reader's state how many groups are open, and nothing else. -/
theorem outcome_read (ts : List Token) :
    (∀ outer here, outer.length ≤ maxNesting →
      outcome (readOperand outer here ts) = Count.scan ⟨.operand, outer.length⟩ ts) ∧
    (∀ outer sum term, outer.length ≤ maxNesting →
      outcome (readOperator outer sum term ts) = Count.scan ⟨.operator, outer.length⟩ ts) := by
  induction ts with
  | nil =>
    refine ⟨fun outer here _ => rfl, fun outer sum term _ => ?_⟩
    cases outer <;> rfl
  | cons t ts ih =>
    obtain ⟨ihOperand, ihOperator⟩ := ih
    constructor
    · intro outer here hd
      rw [Count.scan_cons]
      cases t with
      | number n => exact ihOperator outer _ _ hd
      | opening =>
        rw [readOperand_opening]
        simp only [Count.step]
        by_cases hlt : outer.length < maxNesting
        · rw [if_pos hlt, if_neg (by unfold maxNesting at hlt; omega)]
          exact ihOperand (here :: outer) {} hlt
        · rw [if_neg hlt, if_pos (by unfold maxNesting at hlt hd; omega)]
          rfl
      | add op => rfl
      | mul op => rfl
      | closing => rfl
    · intro outer sum term hd
      rw [Count.scan_cons]
      cases t with
      | add op => exact ihOperand outer _ hd
      | mul op => exact ihOperand outer _ hd
      | closing =>
        cases outer with
        | nil => rfl
        | cons around outer => exact ihOperator outer _ _ (Nat.le_of_succ_le hd)
      | number n => cases outer <;> rfl
      | opening => cases outer <;> rfl

theorem outcome_ofTokens? (ts : List Token) : outcome (Tree.ofTokens? ts) = verdict ts :=
  (outcome_read ts).1 [] {} (Nat.zero_le _)

/-! ## Trees and groups side by side -/

variable {r : Rank}

theorem ite_add_max {α : Type} (d a b : Nat) (x y : α) :
    (if d + max a b ≤ 100 then x else y) =
      if d + a ≤ 100 then if d + b ≤ 100 then x else y else y := by
  rw [← ite_and]
  exact if_congr (by omega) rfl rfl

/-- A group is opened, what stands in it is counted with one more open, and it is closed. -/
theorem scan_opening (d : Nat) (ts : List Token) :
    Count.scan ⟨.operand, d⟩ (.opening :: ts) =
      if d + 1 = 101 then .error "Expression is nested too deeply"
      else Count.scan ⟨.operand, d + 1⟩ ts := by
  simp only [Count.scan_cons, Count.step]
  split <;> rfl

/-- Past a tree as many groups are open as before it, unless on the way too many were. -/
theorem scan_tokens (e : Tree r) (d : Nat) (ts : List Token) (hd : d ≤ 100) :
    Count.scan ⟨.operand, d⟩ (e.tokens ++ ts) =
      if d + e.nesting ≤ 100 then Count.scan ⟨.operator, d⟩ ts
      else .error "Expression is nested too deeply" := by
  induction e generalizing d ts with
  | number n => exact (if_pos hd).symm
  | group e ih =>
    have hnesting : d + (Tree.group e).nesting = d + 1 + e.nesting := by
      rw [Tree.nesting]
      omega
    rw [Tree.tokens, List.cons_append, List.append_assoc, scan_opening, hnesting]
    by_cases hfull : d + 1 = 101
    · rw [if_pos hfull, if_neg (by omega)]
    · rw [if_neg hfull, ih (d + 1) _ (by omega)]
      rfl
  | factor f ih => exact ih d ts hd
  | product l op r ihl ihr =>
    rw [Tree.tokens, Tree.nesting, List.append_assoc, List.cons_append, ihl d _ hd, ite_add_max,
      ← ihr d ts hd]
    rfl
  | term t ih => exact ih d ts hd
  | chain l op r ihl ihr =>
    rw [Tree.tokens, Tree.nesting, List.append_assoc, List.cons_append, ihl d _ hd, ite_add_max,
      ← ihr d ts hd]
    rfl

theorem verdict_tokens (e : Tree .sum) :
    verdict e.tokens = if e.nesting ≤ 100 then .ok ()
      else .error "Expression is nested too deeply" := by
  have h := scan_tokens e 0 [] (Nat.zero_le _)
  rw [List.append_nil, Nat.zero_add] at h
  exact h

/-- An operator of sums or of products, followed by a group. -/
def joined (p : (AddOp ⊕ MulOp) × Tree .sum) : List Token :=
  p.1.elim Token.add Token.mul :: (Tree.group p.2).tokens

/-- Groups side by side, with operators between them. -/
def siblings (first : Tree .sum) (others : List ((AddOp ⊕ MulOp) × Tree .sum)) : List Token :=
  (Tree.group first).tokens ++ others.flatMap joined

theorem scan_joined (p : (AddOp ⊕ MulOp) × Tree .sum) (ts : List Token) :
    Count.scan ⟨.operator, 0⟩ (joined p ++ ts) =
      if p.2.nesting < 100 then Count.scan ⟨.operator, 0⟩ ts
      else .error "Expression is nested too deeply" := by
  have hgroup := scan_tokens (Tree.group p.2) 0 ts (Nat.zero_le _)
  rw [Nat.zero_add, Tree.nesting] at hgroup
  obtain ⟨op | op, e⟩ := p <;> exact hgroup

theorem scan_others (others : List ((AddOp ⊕ MulOp) × Tree .sum)) :
    Count.scan ⟨.operator, 0⟩ (others.flatMap joined) =
      if ∀ p ∈ others, p.2.nesting < 100 then .ok ()
      else .error "Expression is nested too deeply" := by
  induction others with
  | nil => rfl
  | cons p others ih =>
    rw [List.flatMap_cons, scan_joined, ih, ← ite_and]
    exact if_congr (by rw [List.forall_mem_cons]) rfl rfl

theorem verdict_siblings (first : Tree .sum) (others : List ((AddOp ⊕ MulOp) × Tree .sum)) :
    verdict (siblings first others) =
      if first.nesting < 100 ∧ ∀ p ∈ others, p.2.nesting < 100 then .ok ()
      else .error "Expression is nested too deeply" := by
  rw [verdict, siblings, scan_tokens _ 0 _ (Nat.zero_le _), scan_others, Nat.zero_add, Tree.nesting,
    ite_and]
  rfl

/-! ## The end that a text comes to -/

theorem outcome_calculate (s : List Char) :
    outcome (calculate s) =
      match lex (Text.removeBlanks s) with
      | .ok ts => verdict ts
      | .error cause => .error cause.message := by
  rw [calculate, parse]
  cases lex (Text.removeBlanks s) with
  | error cause => rfl
  | ok ts =>
    -- a value is computed from the tree, and nothing can go wrong in that
    have hvalue : outcome (do return (← Tree.ofTokens? ts).value) =
        outcome (Tree.ofTokens? ts) := by
      cases Tree.ofTokens? ts <;> rfl
    exact hvalue.trans (outcome_ofTokens? ts)

/-- **The reader, which does what recursive descent does, comes to the same end as the count**: it
finds a tree if there is no fault, and otherwise says what the first fault is. A text comes to that
end if it can be taken apart into tokens. Groups side by side are read however many they are: only
groups that are open at the same time count towards the limit. -/
theorem outcome_eq_verdict :
    (∀ ts, Descent.read ts = Tree.ofTokens? ts ∧ outcome (Tree.ofTokens? ts) = verdict ts) ∧
    (∀ s, outcome (calculate s) =
      match lex (Text.removeBlanks s) with
      | .ok ts => verdict ts
      | .error cause => .error cause.message) ∧
    (∀ e : Tree .sum, verdict e.tokens =
      if e.nesting ≤ 100 then .ok () else .error "Expression is nested too deeply") ∧
    ∀ first others, verdict (siblings first others) =
      if first.nesting < 100 ∧ ∀ p ∈ others, p.2.nesting < 100 then .ok ()
      else .error "Expression is nested too deeply" :=
  ⟨fun ts => ⟨Descent.read_eq_ofTokens? ts, outcome_ofTokens? ts⟩, outcome_calculate,
    verdict_tokens, verdict_siblings⟩

/-- Of several faults the first is found: a numeral follows another inside a group. -/
example (n : Numeral) :
    outcome (Tree.ofTokens? [.opening, .number n, .number n, .closing, .closing, .mul .times]) =
      .error "Missing closing parenthesis" := rfl

end TimedQuiz.Expr
