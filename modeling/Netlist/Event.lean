import Netlist.Circuit.Object

/-!
# Events

What a reader or a check tells about its progress, in the order in which it happens. A fault is an
event too: its message is what the handlers of a channel receive. The log shows an event as a level,
a message and named fields.
-/

namespace Netlist

inductive Stage where
  | empty
  | preparsed
  | interfacesScanned
  | parsed
  deriving DecidableEq, Repr

def Stage.name : Stage → String
  | empty => "Empty"
  | preparsed => "Preparsed"
  | interfacesScanned => "InterfacesScanned"
  | parsed => "Parsed"

inductive Level where
  | debug
  | warn
  deriving DecidableEq, Repr

def Level.name : Level → String
  | debug => "DEBUG"
  | warn => "WARN"

inductive Event where
  | advanced (before after : Stage)
  /-- Reading ended in an error after the given stage. -/
  | failed (reached : Stage)
  | skipped (keyword : String) (line : Nat)
  | resetLatch (model : String) (latch : ObjectId)
  | undriven (net network : String)
  | validated (modules : Nat)
  | exdcAttached (network : String)
  | linked (root : String) (singleton : Bool)
  | fault (message : String)
  deriving DecidableEq, Repr

namespace Event

inductive Value where
  | text (s : String)
  | number (n : Nat)
  | flag (b : Bool)
  deriving DecidableEq, Repr

def level : Event → Level
  | skipped .. | undriven .. => .warn
  | _ => .debug

def message : Event → String
  | advanced .. => "import stage"
  | failed _ => "import failed"
  | skipped keyword _ => s!"skipping unsupported directive .{keyword}"
  | resetLatch .. => "created reset latch"
  | undriven net _ => s!"{net} is not driven"
  | validated _ => "validated networks"
  | exdcAttached _ => "attached EXDC network"
  | linked .. => "linked root network"
  | fault message => message

def fields : Event → List (String × Value)
  | advanced before after => [("from", .text before.name), ("to", .text after.name)]
  | failed reached => [("stage", .text reached.name)]
  | skipped _ line => [("line", .number line)]
  | resetLatch model latch => [("model", .text model), ("latch", .text (toString latch))]
  | undriven _ network => [("network", .text network)]
  | validated modules => [("modules", .number modules)]
  | exdcAttached network => [("network", .text network)]
  | linked root singleton => [("root", .text root), ("singleton", .flag singleton)]
  | fault _ => []

instance : ToString Value where
  toString
    | .text s => s
    | .number n => toString n
    | .flag b => toString b

def line (e : Event) : String :=
  " ".intercalate (e.level.name :: e.message :: e.fields.map fun (key, v) => s!"{key}={v}")

def fault? : Event → Option String
  | fault message => some message
  | _ => none

end Event

def faults (events : List Event) : List String := events.filterMap Event.fault?

end Netlist
