import Netlist.Blif.ReadError
import Netlist.Circuit.Check
import Netlist.Hierarchy

/-!
# Failed loads

A text is refused while it is read, or its circuits turn out inconsistent, or the chosen root leads to
an instantiation cycle. The failure is reported as a fault, after an event that tells how far the
reading came if it was the reading that failed.
-/

namespace Netlist.Blif

inductive LoadError where
  | rejected (reached : Stage) (error : ReadError)
  | inconsistent (error : Inconsistency)
  | cyclic (cycle : Cycle)
  | violated (violation : Violation)
  deriving DecidableEq, Repr

namespace LoadError

def message : LoadError → String
  | rejected _ error => error.message
  | inconsistent error => error.message
  | cyclic cycle => cycle.message
  | violated violation => violation.message

def events : LoadError → List Event
  | e@(rejected reached _) => [.failed reached, .fault e.message]
  | e@(inconsistent _) | e@(cyclic _) => [.fault e.message]
  | violated _ => []

end LoadError

abbrev Load := Traced LoadError

namespace Load

def ofRead (reached : Stage) (x : Except ReadError α) : Load α :=
  .ofExcept (x.mapError (.rejected reached))

def ofViolation (x : Except Violation α) : Load α := .ofExcept (x.mapError .violated)

/-- Appends what the log says of the failure, if there is one. -/
def report (x : Load α) : Load α :=
  match x.outcome with
  | .ok _ => x
  | .error e => { x with events := x.events ++ e.events }

end Load

end Netlist.Blif
