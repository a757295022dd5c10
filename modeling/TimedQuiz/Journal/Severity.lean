/-!
# Severities

* `Severity` — how much a notice matters;
* `Severity.level` — its number, higher for graver ones.
-/

namespace TimedQuiz

/-- How much a notice matters. -/
inductive Severity where
  | debug
  | info
  | warning
  | error
  | critical
  deriving DecidableEq, Repr

namespace Severity

/-- All severities, from the least to the gravest. -/
def all : List Severity := [.debug, .info, .warning, .error, .critical]

/-- The number of a severity. -/
def level : Severity → Int
  | .debug => 10
  | .info => 20
  | .warning => 30
  | .error => 40
  | .critical => 50

/-- The name of a severity. -/
def name : Severity → String
  | .debug => "DEBUG"
  | .info => "INFO"
  | .warning => "WARNING"
  | .error => "ERROR"
  | .critical => "CRITICAL"

end Severity

end TimedQuiz
