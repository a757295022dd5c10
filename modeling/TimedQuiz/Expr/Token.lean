import TimedQuiz.Expr.Numeral
import TimedQuiz.Expr.Rejection

/-!
# Tokens of arithmetic expressions

* `Token` — numerals, operators and parentheses;
* `Token.chars` — the written form;
* `lex` — the tokens of a text without blanks, each numeral as long as it can be.
-/

namespace TimedQuiz.Expr

/-- The operators of sums. -/
inductive AddOp where
  | plus
  | minus
  deriving DecidableEq, Repr

/-- The operators of products. -/
inductive MulOp where
  | times
  | divide
  deriving DecidableEq, Repr

/-- A token. -/
inductive Token where
  | number (n : Numeral)
  | add (op : AddOp)
  | mul (op : MulOp)
  | opening
  | closing
  deriving DecidableEq, Repr

namespace Token

/-- The written form. -/
def chars : Token → List Char
  | .number n => n.chars
  | .add .plus => ['+']
  | .add .minus => ['-']
  | .mul .times => ['*']
  | .mul .divide => ['/']
  | .opening => ['(']
  | .closing => [')']

/-- The written form as a string. -/
def text (t : Token) : String := String.ofList t.chars

/-- The token that one character makes up by itself. -/
def ofSymbol? : Char → Option Token
  | '+' => some (.add .plus)
  | '-' => some (.add .minus)
  | '*' => some (.mul .times)
  | '/' => some (.mul .divide)
  | '(' => some .opening
  | ')' => some .closing
  | _ => none

end Token

/-- A character of the arithmetic alphabet. -/
def inAlphabet (c : Char) : Bool :=
  c.isDigit || c == '.' || (Token.ofSymbol? c).isSome

/-- The token of a numeral that ends here, if one is at hand. -/
def flush : Option Numeral → List Token
  | none => []
  | some n => [.number n]

/-- Reads on with the numeral at hand: a digit goes to it, a point only if it has none yet, and a
symbol ends it. -/
def scan : Option Numeral → List Char → Except Rejection (List Token)
  | hand, [] => .ok (flush hand)
  | hand, c :: cs =>
    match Digit.ofChar? c, Token.ofSymbol? c, hand with
    | some d, _, none => scan (some { first := d }) cs
    | some d, _, some n => scan (some (n.snoc d)) cs
    | none, some t, hand => do return flush hand ++ t :: (← scan none cs)
    | none, none, some ⟨first, more, none⟩ =>
      if c = '.' then scan (some ⟨first, more, some []⟩) cs else .error .brokenNumber
    | none, none, _ => .error .brokenNumber

/-- The tokens of a text without blanks. -/
def lex (cs : List Char) : Except Rejection (List Token) :=
  if cs.isEmpty || !cs.all inAlphabet then .error .foreignCharacter else scan none cs

end TimedQuiz.Expr
