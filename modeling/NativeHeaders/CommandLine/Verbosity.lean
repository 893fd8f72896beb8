/-!
# How much is logged

Asking for more and asking for less undo each other; what is left moves the level away from
warnings. A message is logged if it is at least as severe as the level.
-/

set_option autoImplicit false

namespace NativeHeaders

/-- How severe a message is; as a level, the least severe messages that are logged. -/
inductive LogLevel where
  | error | warn | info | debug | trace
deriving DecidableEq

namespace LogLevel

/-- The level for how often more, and how often less, was asked for. -/
def ofCounts (verbose quiet : UInt8) : LogLevel :=
  match (verbose.toNat : Int) - quiet.toNat with
  | .negSucc _ => error
  | 0 => warn
  | 1 => info
  | 2 => debug
  | _ => trace

/-- How much is logged at a level. -/
def rank : LogLevel → Nat
  | error => 0
  | warn => 1
  | info => 2
  | debug => 3
  | trace => 4

/-- Whether a message of some severity is logged at a level. -/
def admits (level severity : LogLevel) : Bool := severity.rank ≤ level.rank

/-- The name of a level. -/
def label : LogLevel → String
  | error => "ERROR"
  | warn => "WARN"
  | info => "INFO"
  | debug => "DEBUG"
  | trace => "TRACE"

end LogLevel

end NativeHeaders
