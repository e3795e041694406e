import Netlist.Violation
import Netlist.Circuit.Object

/-!
# Graphs of objects

A graph grows by objects and by edges. Beside the objects it keeps three records of them: how many
there are of each kind, how many there are at all, and which net carries which signal name. An edge
is recorded at both of its ends, the driver's first, so an edge to an object that does not exist
leaves a fan-out without its mirror.
-/

namespace Netlist

structure Tally where
  input : Nat := 0
  output : Nat := 0
  net : Nat := 0
  node : Nat := 0
  latch : Nat := 0
  box : Nat := 0
  deriving DecidableEq, Repr

namespace Tally

def of (t : Tally) : Kind → Nat
  | .input => t.input
  | .output => t.output
  | .net => t.net
  | .node => t.node
  | .latch => t.latch
  | .box => t.box

def increment (t : Tally) : Kind → Tally
  | .input => { t with input := t.input + 1 }
  | .output => { t with output := t.output + 1 }
  | .net => { t with net := t.net + 1 }
  | .node => { t with node := t.node + 1 }
  | .latch => { t with latch := t.latch + 1 }
  | .box => { t with box := t.box + 1 }

theorem of_increment (t : Tally) (k l : Kind) :
    (t.increment k).of l = t.of l + if k = l then 1 else 0 := by
  cases k <;> cases l <;> rfl

end Tally

structure Graph where
  objects : Array Object := #[]
  tally : Tally := {}
  live : Nat := 0
  /-- Each registered signal name with its net, in the order of registration. -/
  nets : List (String × ObjectId) := []
  deriving DecidableEq, Repr

namespace Graph

def get? (g : Graph) (id : ObjectId) : Option Object := g.objects[id.index]?

def entries (g : Graph) : List (ObjectId × Object) :=
  g.objects.toList.mapIdx fun i o => (⟨i⟩, o)

def ofKind (g : Graph) (k : Kind) : List (ObjectId × Object) :=
  g.entries.filter fun (_, o) => o.kind = k

def instances (g : Graph) : List Instance := g.objects.toList.filterMap Object.instance?

def next (g : Graph) : ObjectId := ⟨g.objects.size⟩

/-- Adds an object, without neighbours, at position `g.next`. -/
def add (g : Graph) (kind : Kind) (name : Option String) (payload : Payload) : Graph :=
  { g with
    objects := g.objects.push { kind, name, payload }
    tally := g.tally.increment kind
    live := g.live + 1 }

/-- Changes the object at a position, for a caller that promises that there is one. -/
def update (id : ObjectId) (f : Object → Object) : Change Graph Unit := do
  let size := (← get).objects.size
  unless id.index < size do throw (.indexOutOfBounds size id.index)
  modify fun g => { g with objects := g.objects.modify id.index f }

/-- Adds an edge, for a caller that promises that both ends exist. -/
def connect (driver sink : ObjectId) : Change Graph Unit := do
  update driver fun o => { o with fanouts := o.fanouts ++ [sink] }
  update sink fun o => { o with fanins := o.fanins ++ [driver] }

def net? (g : Graph) (name : String) : Option ObjectId := g.nets.lookup name

/-- The net of a signal; an unknown signal gets a new net, registered under its name. -/
def findOrAddNet (g : Graph) (name : String) : ObjectId × Graph :=
  match g.net? name with
  | some id => (id, g)
  | none =>
    let grown := g.add .net (some name) .none
    (g.next, { grown with nets := grown.nets ++ [(name, g.next)] })

theorem net?_findOrAddNet (g : Graph) (name : String) :
    (g.findOrAddNet name).2.net? name = some (g.findOrAddNet name).1 := by
  unfold findOrAddNet
  split
  · next id found => exact found
  · next absent =>
    have fresh : g.nets.lookup name = none := absent
    simp [net?, List.lookup_append, fresh, add]

def driver? (g : Graph) (name : String) : Option ObjectId := do
  let net ← g.get? (← g.net? name)
  net.fanins.head?

/-- Replaces the initial value of a latch. An object that holds none is left alone, and the answer
tells which of the two happened. -/
def setLatchInit (g : Graph) (id : ObjectId) (init : LatchInit) : Bool × Graph :=
  match g.get? id with
  | some { payload := .latch _, .. } =>
    (true, { g with objects := g.objects.modify id.index ({ · with payload := .latch init }) })
  | _ => (false, g)

end Graph

end Netlist
