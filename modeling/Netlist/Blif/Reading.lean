import Netlist.Blif.Lowering
import Netlist.Blif.LoadError

/-!
# Reading a text

A text is divided into lines, the lines into models, and the bodies of all models are read before the
first of them is turned into a circuit. The result is a design with one network per model, in text
order, together with the temporal properties stated anywhere in the text.
-/

namespace Netlist.Blif

/-- A model whose body has been read. -/
structure Definition where
  model : Model
  body : Body
  deriving DecidableEq, Repr

def Model.definition (models : List Model) (m : Model) : Traced ReadError Definition :=
  return ⟨m, .ofDeclarations (← m.declarations models)⟩

/-- The circuit of a model, and the position of the latch added for its resets. -/
def Definition.lower (d : Definition) : Except LoadError (Circuit × Option ObjectId) := do
  d.body.checkResets.mapError (.rejected .interfacesScanned)
  let (placed, graph) := (placeModel d.model d.body).run.run {}
  let latch ← placed.mapError .violated
  let function := if d.model.blackbox then .blackBox else .sop
  return ({ name := d.model.name, type := .netlist, function, graph }, latch)

def Definition.circuit (d : Definition) : Load Circuit := do
  let (circuit, latch) ← .ofExcept d.lower
  if let some id := latch then .emit (.resetLatch d.model.name id)
  return circuit

structure Contents where
  circuits : List Circuit
  properties : List String
  deriving DecidableEq, Repr

def Contents.ofText (text : String) : Load Contents := do
  let lines ← .ofRead .empty (Line.ofText text)
  .emit (.advanced .empty .preparsed)
  let models ← .ofRead .preparsed (Model.ofLines lines)
  .emit (.advanced .preparsed .interfacesScanned)
  let definitions ←
    (models.mapM (Model.definition models)).mapError (.rejected .interfacesScanned)
  let circuits ← definitions.mapM Definition.circuit
  .emit (.advanced .interfacesScanned .parsed)
  return { circuits, properties := definitions.flatMap fun d => d.body.properties }

def Contents.design (contents : Contents) (id : DesignId) (name : String) : Design Network :=
  contents.circuits.foldl (fun d c => d.add { toCircuit := c }) { id, name }

end Netlist.Blif
