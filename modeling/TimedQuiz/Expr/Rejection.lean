/-!
# Why an expression is not read

* `Rejection` — the causes, found from left to right;
* `Rejection.message` — their wording.
-/

namespace TimedQuiz.Expr

/-- A cause for which a text is not an arithmetic expression. -/
inductive Rejection where
  /-- The text is empty or holds a character outside the arithmetic alphabet. -/
  | foreignCharacter
  /-- A point stands where no number can continue with it. -/
  | brokenNumber
  /-- A number or an opening parenthesis is missing. -/
  | operandExpected
  /-- Something other than an operator or a closing parenthesis follows inside a group. -/
  | unclosedGroup
  /-- Something other than an operator follows a complete expression. -/
  | trailingTokens
  /-- Too many groups are open at once. -/
  | nestedTooDeeply
  deriving DecidableEq, Repr

/-- The wording of each cause. -/
def Rejection.message : Rejection → String
  | .foreignCharacter => "Invalid characters in expression"
  | .brokenNumber => "Invalid expression format"
  | .operandExpected => "Expected number"
  | .unclosedGroup => "Missing closing parenthesis"
  | .trailingTokens => "Unexpected tokens after expression"
  | .nestedTooDeeply => "Expression is nested too deeply"

end TimedQuiz.Expr
