import Netlist.Blif.Line
import Netlist.Hierarchy

/-!
# Models and their interfaces

A text is a sequence of models, each from its `.model` line to its `.end` line. An `.exdc` line ends
the model that it stands in and opens the description of that model's don't-cares, which has the ports
declared so far. The scan finds for each model its ports and the lines of its body, so that a body can
refer to a model of any other place of the text.
-/

namespace Netlist.Blif

structure Model where
  name : String
  /-- The number of the line that opens the model. -/
  header : Nat
  /-- Opened by a `.model` line, and so known by its name to other models. -/
  declared : Bool
  inputs : List String := []
  outputs : List String := []
  blackbox : Bool := false
  body : List Line := []
  deriving DecidableEq, Repr

inductive Direction where
  | input
  | output
  deriving DecidableEq, Repr

namespace Model

/-- The direction of a port; a name that is declared as both counts as an input. -/
def direction? (m : Model) (port : String) : Option Direction :=
  if port ∈ m.inputs then some .input
  else if port ∈ m.outputs then some .output
  else none

def addLine (m : Model) (line : Line) : Model :=
  let m := { m with body := m.body ++ [line] }
  match line.directive with
  | some .inputs => { m with inputs := m.inputs ++ line.args }
  | some .outputs => { m with outputs := m.outputs ++ line.args }
  | some .blackbox => { m with blackbox := true }
  | _ => m

def openExdc (m : Model) (number : Nat) : Model :=
  { name := exdcName, header := number, declared := false, inputs := m.inputs, outputs := m.outputs }

end Model

/-- The model that other models mean by a name. -/
def findModel? (models : List Model) (name : String) : Option Model :=
  models.find? fun m => m.declared && m.name = name

/-- The models that have ended, in order, and the one that is open. -/
structure Scan where
  ended : List Model := []
  current : Option Model := none
  deriving DecidableEq, Repr

namespace Scan

def openModel (s : Scan) (line : Line) : Except Defect Scan :=
  match s.current, line.args with
  | some m, _ => .error (.notTerminated m.name)
  | none, [name] =>
    if (findModel? s.ended name).isSome then .error (.modelTwice name)
    else .ok { s with current := some { name, header := line.number, declared := true } }
  | none, _ => .error .modelArguments

def addLine (s : Scan) (line : Line) : Except Defect Scan :=
  match line.directive, s.current with
  | some .model, _ => s.openModel line
  | none, none => .error .rowOutsideModel
  | some _, none => .error .directiveOutsideModel
  | some .exdc, some m => .ok ⟨s.ended ++ [m], some (m.openExdc line.number)⟩
  | some .endModel, some m => .ok ⟨s.ended ++ [m], none⟩
  | _, some m => .ok { s with current := some (m.addLine line) }

def addLines (s : Scan) : List Line → Except ReadError Scan
  | [] => .ok s
  | line :: rest =>
    match s.addLine line with
    | .ok s => s.addLines rest
    | .error defect => .error (.inLine line.number defect)

def finish (s : Scan) : Except ReadError (List Model) :=
  match s.current with
  | some m => .error (.inLine m.header (.notTerminated m.name))
  | none => if s.ended = [] then .error .noModels else .ok s.ended

end Scan

def Model.ofLines (lines : List Line) : Except ReadError (List Model) := do
  (← ({} : Scan).addLines lines).finish

end Netlist.Blif
