/-!
# Log levels

Five levels in rising order of weight.
-/

namespace Retouch

/-- How much an event weighs. -/
inductive Level where
  | debug
  | info
  | warning
  | error
  | critical
deriving DecidableEq, Repr, Inhabited

namespace Level

/-- All levels, lightest first. -/
def all : List Level := [.debug, .info, .warning, .error, .critical]

/-- The place in the order. -/
def weight : Level → Nat
  | .debug => 10
  | .info => 20
  | .warning => 30
  | .error => 40
  | .critical => 50

/-- The name in settings. -/
def name : Level → String
  | .debug => "DEBUG"
  | .info => "INFO"
  | .warning => "WARNING"
  | .error => "ERROR"
  | .critical => "CRITICAL"

/-- The name in log lines. -/
def label : Level → String
  | .debug => "debug"
  | .info => "info"
  | .warning => "warning"
  | .error => "error"
  | .critical => "critical"

/-- The level of a name, spelled exactly. -/
def ofName? (s : String) : Option Level :=
  all.find? fun l => l.name == s

/-- The level of a label, spelled exactly. -/
def ofLabel? (s : String) : Option Level :=
  all.find? fun l => l.label == s

/-- Whether an event of this level passes a threshold. -/
def reaches (l threshold : Level) : Bool :=
  threshold.weight ≤ l.weight

theorem ofName?_name (l : Level) : ofName? l.name = some l := by
  cases l <;> decide

end Level

end Retouch
