import Netlist.Blif.Declaration
import Netlist.Network

/-!
# From declarations to circuits

A model becomes one object per port, table, latch and subcircuit, placed in this order, and one net
per signal name, placed when the name is first met. A reset replaces the initial value of the latch
that drives its signal. A model with resets gets one latch more, which starts at one and is fed a
constant zero; the names of its two nets avoid all signals of the model.
-/

namespace Netlist.Blif

/-- An object to be placed, with the signals of the nets around it. -/
structure Cell where
  kind : Kind
  name : Option String := none
  payload : Payload := .none
  reads : List String := []
  drives : List String := []
  deriving DecidableEq, Repr

namespace Cell

def input (signal : String) : Cell := { kind := .input, name := some signal, drives := [signal] }

def output (signal : String) : Cell := { kind := .output, name := some signal, reads := [signal] }

def node (inputs : List String) (output : String) (rows : List String) : Cell :=
  { kind := .node, payload := .cover rows, reads := inputs, drives := [output] }

def latch (l : Latch) : Cell :=
  { kind := .latch, name := some l.output, payload := .latch l.init,
    reads := [l.input], drives := [l.output] }

def box (s : Subcircuit) : Cell :=
  { kind := .box
    payload := .uses ⟨s.model, s.inputs.map (·.formal), s.outputs.map (·.formal)⟩
    reads := s.inputs.map (·.actual)
    drives := s.outputs.map (·.actual) }

/-- Adds the object, then the nets around it and its edges to them, and tells its position. -/
def place (c : Cell) : Change Graph ObjectId := do
  let id := (← get).next
  modify fun g => g.add c.kind c.name c.payload
  c.reads.forM fun signal => do
    let net ← modifyGet (·.findOrAddNet signal)
    Graph.connect net id
  c.drives.forM fun signal => do
    let net ← modifyGet (·.findOrAddNet signal)
    Graph.connect id net
  return id

end Cell

/-- The declarations of a model, sorted by what they declare. -/
structure Body where
  tables : List Table := []
  latches : List Latch := []
  resets : List Reset := []
  subcircuits : List Subcircuit := []
  properties : List String := []
  deriving DecidableEq, Repr

def Body.ofDeclarations (ds : List Declaration) : Body where
  tables := ds.filterMap fun | .table t => some t | _ => none
  latches := ds.filterMap fun | .latch l => some l | _ => none
  resets := ds.filterMap fun | .reset r => some r | _ => none
  subcircuits := ds.filterMap fun | .subcircuit s => some s | _ => none
  properties := ds.filterMap fun | .property text => some text | _ => none

def lastReset? (resets : List Reset) (signal : String) : Option LatchInit :=
  (resets.reverse.find? (·.latch = signal)).map (·.value)

/-- The latches with their resets applied. Of several latches that drive one signal the last is
reset. -/
def resetLatches (resets : List Reset) : List Latch → List Latch
  | [] => []
  | l :: ls =>
    let shadowed := ls.any (·.output = l.output)
    let init := if shadowed then l.init else (lastReset? resets l.output).getD l.init
    { l with init } :: resetLatches resets ls

def Body.checkResets (b : Body) : Except ReadError Unit :=
  match b.resets.find? fun r => b.latches.all (·.output ≠ r.latch) with
  | some r => .error (.inLine r.line (.notALatch r.latch))
  | none => .ok ()

def cells (m : Model) (b : Body) : List Cell :=
  m.inputs.map .input ++ m.outputs.map .output ++
    b.tables.map (fun t => .node t.inputs t.output t.rows) ++
    (resetLatches b.resets b.latches).map .latch ++ b.subcircuits.map .box

/-- `base`, or `base` with the least number from one on that makes it the name of no net. Of more
candidates than there are nets, one is free. A counter of 32 bits with a sign suffices for the number
as long as fewer than `2 ^ 31 - 1` of the candidates are taken. -/
def freshName (g : Graph) (base : String) : String :=
  let numbered (k : Nat) : String := s!"{base}_{k + 1}"
  if (g.net? base).isNone then base
  else match (List.range g.nets.length).find? fun k => (g.net? (numbered k)).isNone with
    | some k => numbered k
    | none => base

/-- Adds the latch that tells the first clock cycle from the later ones. -/
def placeResetLatch : Change Graph ObjectId := do
  let data := freshName (← get) "abc_reset_latch_data"
  let _ ← (Cell.node [] data ["0"]).place
  let output := freshName (← get) "abc_reset_latch"
  (Cell.latch { input := data, output, init := .one }).place

/-- Places the cells of a model. Answers with the position of the latch added for its resets. -/
def placeModel (m : Model) (b : Body) : Change Graph (Option ObjectId) := do
  (cells m b).forM fun c => discard c.place
  if b.resets = [] then return none
  return some (← placeResetLatch)

end Netlist.Blif
