import TimedQuiz.Expr.Token
import TimedQuiz.Number.Division

/-!
# Syntax trees of arithmetic expressions

The rank of a tree says which operators may stand at its root, and a chain of operators of one
rank leans to the left, so a tree is a derivation of the grammar

    sum    := term (('+' | '-') term)*
    term   := factor (('*' | '/') factor)*
    factor := numeral | '(' sum ')'

* `Tree` — derivations, by rank;
* `Tree.tokens` — the tokens that a derivation yields;
* `Tree.nesting` — how many groups are open at once at most;
* `Tree.value` — the meaning in doubles.
-/

namespace TimedQuiz.Expr

/-- The three ranks of the grammar. -/
inductive Rank where
  | factor
  | term
  | sum
  deriving DecidableEq, Repr

/-- A derivation of the grammar. -/
inductive Tree : Rank → Type where
  | number (n : Numeral) : Tree .factor
  | group (e : Tree .sum) : Tree .factor
  | factor (f : Tree .factor) : Tree .term
  | product (l : Tree .term) (op : MulOp) (r : Tree .factor) : Tree .term
  | term (t : Tree .term) : Tree .sum
  | chain (l : Tree .sum) (op : AddOp) (r : Tree .term) : Tree .sum
  deriving Repr

/-- Double addition and subtraction. -/
def AddOp.apply : AddOp → Float → Float → Float
  | .plus, x, y => x + y
  | .minus, x, y => x - y

/-- Double multiplication and division; a zero divisor gives an infinity, or NaN, as in IEEE 754. -/
def MulOp.apply : MulOp → Float → Float → Float
  | .times, x, y => x * y
  | .divide, x, y => Binary64.divide x y

namespace Tree

variable {r : Rank}

/-- The tokens of a tree, from left to right. -/
def tokens : {r : Rank} → Tree r → List Token
  | _, .number n => [.number n]
  | _, .group e => .opening :: (e.tokens ++ [.closing])
  | _, .factor f => f.tokens
  | _, .product l op r => l.tokens ++ .mul op :: r.tokens
  | _, .term t => t.tokens
  | _, .chain l op r => l.tokens ++ .add op :: r.tokens

/-- The greatest number of groups open at once. -/
def nesting : {r : Rank} → Tree r → Nat
  | _, .number _ => 0
  | _, .group e => e.nesting + 1
  | _, .factor f => f.nesting
  | _, .product l _ r => max l.nesting r.nesting
  | _, .term t => t.nesting
  | _, .chain l _ r => max l.nesting r.nesting

/-- The value of a tree, every operation rounded to a double. -/
def value : {r : Rank} → Tree r → Float
  | _, .number n => n.value
  | _, .group e => e.value
  | _, .factor f => f.value
  | _, .product l op r => op.apply l.value r.value
  | _, .term t => t.value
  | _, .chain l op r => op.apply l.value r.value

end Tree

end TimedQuiz.Expr
