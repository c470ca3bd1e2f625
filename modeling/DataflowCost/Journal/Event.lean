/-! Events that calls report, apart from what they answer. -/
namespace DataflowCost

inductive Level where
  | error | warn | info | debug | trace
deriving DecidableEq, Repr

namespace Level

/-- Levels from the most severe on. -/
def all : List Level := [error, warn, info, debug, trace]

def name : Level → String
  | error => "error"
  | warn => "warn"
  | info => "info"
  | debug => "debug"
  | trace => "trace"

/-- At least as severe as a threshold. -/
def reaches (level threshold : Level) : Bool := all.idxOf level ≤ all.idxOf threshold

end Level

inductive FieldValue where
  | count (n : Nat)
  | real (x : Float)
  | flag (value : Bool)
  | text (s : String)

structure Event where
  level : Level
  message : String
  fields : List (String × FieldValue)

/-- The events that a threshold lets through, in their order. -/
def Event.shown (threshold : Level) (events : List Event) : List Event :=
  events.filter fun e => e.level.reaches threshold

end DataflowCost
