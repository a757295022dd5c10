import TimedQuiz.Expr.Tree
import TimedQuiz.Text.Blank

/-!
# Reading arithmetic expressions

The reader goes through the tokens once, from left to right. It keeps the sum and the product that
are waiting for their right operand, and the same for every group that is still open.

* `Pending` — what waits for a right operand;
* `readOperand`, `readOperator` — the two states of the reader;
* `Tree.ofTokens?` — the tree of a token list;
* `calculate` — the value of a text, blanks ignored.
-/

namespace TimedQuiz.Expr

/-- How many groups may be open at once. -/
def maxNesting : Nat := 100

/-- A sum and a product that wait for their right operand. -/
structure Pending where
  sum : Option (Tree .sum × AddOp) := none
  product : Option (Tree .term × MulOp) := none

/-- The product at hand with its next factor. -/
def joinProduct : Option (Tree .term × MulOp) → Tree .factor → Tree .term
  | none, f => .factor f
  | some (l, op), f => .product l op f

/-- The sum at hand with its next term. -/
def joinSum : Option (Tree .sum × AddOp) → Tree .term → Tree .sum
  | none, t => .term t
  | some (l, op), t => .chain l op t

mutual

/-- An operand is due; `outer` holds what waits outside the groups that are open, innermost first.
-/
def readOperand (outer : List Pending) (here : Pending) :
    List Token → Except Rejection (Tree .sum)
  | .number n :: ts => readOperator outer here.sum (joinProduct here.product (.number n)) ts
  | .opening :: ts =>
    if outer.length < maxNesting then readOperand (here :: outer) {} ts
    else .error .nestedTooDeeply
  | _ => .error .operandExpected
termination_by structural ts => ts

/-- An operator, or the end of a group or of the whole, is due after a complete term. -/
def readOperator (outer : List Pending) (sum : Option (Tree .sum × AddOp)) (term : Tree .term) :
    List Token → Except Rejection (Tree .sum)
  | .mul op :: ts => readOperand outer { sum := sum, product := some (term, op) } ts
  | .add op :: ts => readOperand outer { sum := some (joinSum sum term, op) } ts
  | [] =>
    match outer with
    | [] => .ok (joinSum sum term)
    | _ :: _ => .error .unclosedGroup
  | .closing :: ts =>
    match outer with
    | [] => .error .trailingTokens
    | around :: outer =>
      readOperator outer around.sum (joinProduct around.product (.group (joinSum sum term))) ts
  | _ :: _ =>
    match outer with
    | [] => .error .trailingTokens
    | _ :: _ => .error .unclosedGroup
termination_by structural ts => ts

end

/-- The tree of a token list. -/
def Tree.ofTokens? (ts : List Token) : Except Rejection (Tree .sum) := readOperand [] {} ts

/-- The tree of a text, blanks ignored. -/
def parse (s : List Char) : Except Rejection (Tree .sum) := do
  Tree.ofTokens? (← lex (Text.removeBlanks s))

/-- The value of a text, blanks ignored. -/
def calculate (s : List Char) : Except Rejection Float := do
  return (← parse s).value

end TimedQuiz.Expr
