import Netlist.Blif.Reading
import Netlist.Blif.Root

/-!
# Loading a text

`load` reads a text and answers with its root network. `loadInto` fills an output with it and says no
more than whether that went well.
-/

namespace Netlist.Blif

/-- Reads a text, which came from `file` if that is given, into a design with identity `id`. -/
def load (text : String) (file : Option String) (id : DesignId) : Load Network :=
  Load.report do
    let contents ← Contents.ofText text
    link (contents.design id (file.getD "")) file contents.properties

inductive Status where
  | ok
  | error
  deriving DecidableEq, Repr

def Status.name : Status → String
  | ok => "Ok"
  | error => "Error"

def Status.code : Status → Nat
  | ok => 0
  | error => 1

/-- Loads a text into an output, for a caller that promises a text and an output that is still empty.
The output stays empty on an error. -/
def loadInto (text : Option String) (output : Option Network) (id : DesignId) :
    Traced Violation (Status × Option Network) :=
  match text, output with
  | none, _ => .fail .missingText
  | some _, some _ => .fail .occupiedOutput
  | some text, none =>
    let loaded := load text none id
    match loaded.outcome with
    | .ok n => ⟨loaded.events, .ok (.ok, some n)⟩
    | .error (.violated v) => ⟨loaded.events, .error v⟩
    | .error _ => ⟨loaded.events, .ok (.error, none)⟩

end Netlist.Blif
