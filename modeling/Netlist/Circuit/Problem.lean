import Netlist.Circuit.Graph
import Netlist.Text.Words

/-!
# Structural problems

A graph is well formed when its records agree with its objects, its edges are mirrored, and each
object has the neighbours and the data that its kind demands. `Graph.problems` lists every departure
from this, first those of the counters, then object by object, and those of the net names last.
-/

namespace Netlist

inductive Problem where
  | kindCount (kind : Kind) (recorded actual : Nat)
  | liveCount (recorded actual : Nat)
  | danglingFanin (object fanin : ObjectId)
  | unmirroredFanin (object fanin : ObjectId)
  | danglingFanout (object fanout : ObjectId)
  | unmirroredFanout (object fanout : ObjectId)
  | unexpectedFanins (object : ObjectId)
  | unexpectedFanouts (object : ObjectId)
  | severalNetsDriven (object : ObjectId)
  | faninCount (object : ObjectId) (count : Nat)
  | drivenNetCount (object : ObjectId) (count : Nat)
  | notANet (object neighbour : ObjectId)
  | multipleDrivers (net : ObjectId) (drivers : List ObjectId)
  | missingCover (node : ObjectId)
  | coverRow (node : ObjectId) (row : String)
  | missingInit (latch : ObjectId)
  | missingInstance (box : ObjectId)
  | portCount (box : ObjectId) (target : Instance) (fanins fanouts : Nat)
  | misregistered (name : String) (object : ObjectId)
  | unregistered (net : ObjectId)
  deriving DecidableEq, Repr

/-- An object's kind with its name, or with its position if it has none. -/
def Graph.describe (g : Graph) (id : ObjectId) : String :=
  match g.get? id with
  | some { kind, name := some name, .. } => s!"{kind} {Text.inQuotes name}"
  | some { kind, .. } => s!"{kind} {id}"
  | none => s!"object {id}"

def Problem.message (g : Graph) : Problem → String
  | kindCount kind recorded actual =>
    s!"{kind} count is {recorded}, but there are {actual} {kind} objects"
  | liveCount recorded actual =>
    s!"live object count is {recorded}, but there are {actual} objects"
  | danglingFanin object fanin => s!"{g.describe object} has a dangling fan-in {fanin}"
  | unmirroredFanin object fanin =>
    s!"{g.describe object} is not a fan-out of its fan-in {g.describe fanin}"
  | danglingFanout object fanout => s!"{g.describe object} has a dangling fan-out {fanout}"
  | unmirroredFanout object fanout =>
    s!"{g.describe object} is not a fan-in of its fan-out {g.describe fanout}"
  | unexpectedFanins object => s!"{g.describe object} has fan-ins"
  | unexpectedFanouts object => s!"{g.describe object} has fan-outs"
  | severalNetsDriven object => s!"{g.describe object} drives more than one net"
  | faninCount object count => s!"{g.describe object} has {count} fan-ins instead of one"
  | drivenNetCount object count => s!"{g.describe object} drives {count} nets instead of one"
  | notANet object neighbour =>
    s!"{g.describe object} is connected to {g.describe neighbour} instead of a net"
  | multipleDrivers net drivers =>
    s!"{g.describe net} has multiple drivers: " ++ ", ".intercalate (drivers.map g.describe)
  | missingCover node => s!"{g.describe node} has no cover"
  | coverRow node row =>
    s!"{g.describe node} has a cover row {Text.quoted row} that does not match its fan-ins"
  | missingInit latch => s!"{g.describe latch} has no initial value"
  | missingInstance box => s!"{g.describe box} does not name an instantiated model"
  | portCount box target fanins fanouts =>
    s!"{g.describe box} instantiating {Text.inQuotes target.model} " ++
    s!"binds {target.inputs.length} inputs and {target.outputs.length} outputs, " ++
    s!"but has {fanins} fan-ins and {fanouts} fan-outs"
  | misregistered name object =>
    s!"net {Text.inQuotes name} is registered as {g.describe object}"
  | unregistered net => s!"{g.describe net} is not registered under its name"

/-- A row fits `width` fan-ins when it is an output value alone if there are none, and otherwise
as many input bytes as there are fan-ins, followed by an output value. -/
def rowFits (width : Nat) (row : String) : Bool :=
  match Text.words row with
  | [_] => width = 0
  | [inputs, _] => inputs.utf8ByteSize = width
  | _ => false

namespace Graph

def count (g : Graph) (k : Kind) : Nat := g.objects.toList.countP fun o => o.kind = k

def countProblems (g : Graph) : List Problem :=
  (Kind.all.filter fun k => g.tally.of k ≠ g.count k).map
      (fun k => .kindCount k (g.tally.of k) (g.count k)) ++
    if g.live = g.objects.size then [] else [.liveCount g.live g.objects.size]

/-- Each occurrence of a fan-in is checked: the driver must list the object as often as the object
lists the driver. -/
def faninProblems (g : Graph) (id : ObjectId) (o : Object) : List Problem :=
  o.fanins.filterMap fun fanin =>
    match g.get? fanin with
    | none => some (.danglingFanin id fanin)
    | some driver =>
      if o.fanins.count fanin = driver.fanouts.count id then none
      else some (.unmirroredFanin id fanin)

def fanoutProblems (g : Graph) (id : ObjectId) (o : Object) : List Problem :=
  o.fanouts.filterMap fun fanout =>
    match g.get? fanout with
    | none => some (.danglingFanout id fanout)
    | some sink =>
      if o.fanouts.count fanout = sink.fanins.count id then none
      else some (.unmirroredFanout id fanout)

/-- The neighbours that exist and are no nets. -/
def netProblems (g : Graph) (id : ObjectId) (neighbours : List ObjectId) : List Problem :=
  neighbours.filterMap fun neighbour =>
    match g.get? neighbour with
    | some { kind, .. } => if kind = .net then none else some (.notANet id neighbour)
    | none => none

def drivesOneNet (g : Graph) (id : ObjectId) (o : Object) : List Problem :=
  if o.fanouts.length = 1 then g.netProblems id o.fanouts
  else [.drivenNetCount id o.fanouts.length]

def coverProblems (id : ObjectId) (o : Object) : List Problem :=
  match o.payload with
  | .cover rows => (rows.filter (!rowFits o.fanins.length ·)).map (.coverRow id)
  | _ => [.missingCover id]

def instanceProblems (id : ObjectId) (o : Object) : List Problem :=
  match o.payload with
  | .uses target =>
    if target.inputs.length = o.fanins.length ∧ target.outputs.length = o.fanouts.length then []
    else [.portCount id target o.fanins.length o.fanouts.length]
  | _ => [.missingInstance id]

def demand (p : Prop) [Decidable p] (problem : Problem) : List Problem :=
  if p then [] else [problem]

/-- What an object's kind demands of its neighbours and its data. -/
def kindProblems (g : Graph) (id : ObjectId) (o : Object) : List Problem :=
  match o.kind with
  | .input =>
    demand (o.fanins = []) (.unexpectedFanins id) ++
    demand (o.fanouts.length ≤ 1) (.severalNetsDriven id) ++
    g.netProblems id o.fanouts
  | .output =>
    demand (o.fanins.length = 1) (.faninCount id o.fanins.length) ++
    demand (o.fanouts = []) (.unexpectedFanouts id) ++
    g.netProblems id o.fanins
  | .net => demand (o.fanins.length ≤ 1) (.multipleDrivers id o.fanins)
  | .node => g.drivesOneNet id o ++ g.netProblems id o.fanins ++ coverProblems id o
  | .latch =>
    demand (o.fanins.length = 1) (.faninCount id o.fanins.length) ++
    g.netProblems id o.fanins ++
    g.drivesOneNet id o ++
    demand (o.latchInit?.isSome) (.missingInit id)
  | .box =>
    g.netProblems id o.fanins ++ g.netProblems id o.fanouts ++ instanceProblems id o

def objectProblems (g : Graph) (id : ObjectId) (o : Object) : List Problem :=
  g.faninProblems id o ++ g.fanoutProblems id o ++ g.kindProblems id o

def isNetNamed (g : Graph) (name : String) (id : ObjectId) : Bool :=
  match g.get? id with
  | some o => o.kind = .net && o.name = some name
  | none => false

def isRegistered (g : Graph) (id : ObjectId) (o : Object) : Bool :=
  o.name.bind g.net? = some id

def nameProblems (g : Graph) : List Problem :=
  (g.nets.filter fun (name, id) => !g.isNetNamed name id).map
      (fun (name, id) => .misregistered name id) ++
    ((g.ofKind .net).filter fun (id, o) => !g.isRegistered id o).map fun (id, _) => .unregistered id

def problems (g : Graph) : List Problem :=
  g.countProblems ++ g.entries.flatMap (fun (id, o) => g.objectProblems id o) ++ g.nameProblems

/-- The nets without a driver. They are no problem, but worth a warning. -/
def undriven (g : Graph) : List ObjectId :=
  ((g.ofKind .net).filter fun (_, o) => o.fanins.isEmpty).map (·.1)

end Graph

end Netlist
