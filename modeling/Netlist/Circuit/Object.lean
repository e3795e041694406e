/-!
# Objects of a circuit

A circuit is a graph of objects: its primary inputs and outputs, one net per signal, and the nodes,
latches and boxes that read and drive nets. An object lists its neighbours by position, those it
reads from and those it drives, and carries data according to its kind.
-/

namespace Netlist

structure ObjectId where
  index : Nat
  deriving DecidableEq, Repr

instance : ToString ObjectId := ⟨fun id => s!"#{id.index}"⟩

inductive Kind where
  | input
  | output
  | net
  | node
  | latch
  | box
  deriving DecidableEq, Repr

namespace Kind

def all : List Kind := [input, output, net, node, latch, box]

def index : Kind → Nat
  | input => 0
  | output => 1
  | net => 2
  | node => 3
  | latch => 4
  | box => 5

def name : Kind → String
  | input => "input"
  | output => "output"
  | net => "net"
  | node => "node"
  | latch => "latch"
  | box => "box"

instance : ToString Kind := ⟨name⟩

theorem mem_all (k : Kind) : k ∈ all := by cases k <;> decide

end Kind

inductive LatchInit where
  | zero
  | one
  | dontCare
  | unknown
  deriving DecidableEq, Repr

namespace LatchInit

instance : Inhabited LatchInit := ⟨unknown⟩

def ofDigit? : String → Option LatchInit
  | "0" => some zero
  | "1" => some one
  | "2" => some dontCare
  | "3" => some unknown
  | _ => none

def name : LatchInit → String
  | zero => "Zero"
  | one => "One"
  | dontCare => "DontCare"
  | unknown => "Unknown"

end LatchInit

/-- A use of another circuit. The formal names stand in the order of the box's own neighbours:
`inputs` beside its fan-ins, `outputs` beside its fan-outs. -/
structure Instance where
  model : String
  inputs : List String
  outputs : List String
  deriving DecidableEq, Repr

inductive Payload where
  | none
  /-- The rows of a sum of products, as written. -/
  | cover (rows : List String)
  | latch (init : LatchInit)
  | uses (target : Instance)
  deriving DecidableEq, Repr

structure Object where
  kind : Kind
  name : Option String := none
  payload : Payload := .none
  fanins : List ObjectId := []
  fanouts : List ObjectId := []
  deriving DecidableEq, Repr

namespace Object

def cover? (o : Object) : Option (List String) :=
  match o.payload with
  | .cover rows => some rows
  | _ => none

def latchInit? (o : Object) : Option LatchInit :=
  match o.payload with
  | .latch init => some init
  | _ => none

def instance? (o : Object) : Option Instance :=
  match o.payload with
  | .uses target => some target
  | _ => none

end Object

end Netlist
