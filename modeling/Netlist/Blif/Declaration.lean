import Netlist.Blif.Model
import Netlist.Traced

/-!
# Declarations of a model

The body of a model is a sequence of sections, each a directive with the rows that follow it. A
`.names` section declares a table, a `.reset` section the value that a latch is reset to, and the
other directives stand alone. Directives without a meaning here are skipped with a warning.
-/

namespace Netlist.Blif

/-- A sum of products: the signals read, the signal driven and the rows. -/
structure Table where
  inputs : List String
  output : String
  rows : List String
  deriving DecidableEq, Repr

structure Latch where
  input : String
  output : String
  init : LatchInit
  deriving DecidableEq, Repr

structure Reset where
  /-- The number of the line that declares it. -/
  line : Nat
  /-- The output signal of the latch. -/
  latch : String
  value : LatchInit
  deriving DecidableEq, Repr

structure Binding where
  formal : String
  actual : String
  deriving DecidableEq, Repr

structure Subcircuit where
  model : String
  inputs : List Binding := []
  outputs : List Binding := []
  deriving DecidableEq, Repr

inductive Declaration where
  | table (t : Table)
  | latch (l : Latch)
  | reset (r : Reset)
  | subcircuit (s : Subcircuit)
  | property (text : String)
  deriving DecidableEq, Repr

/-- A directive line and the rows below it. -/
structure Section where
  head : Line
  directive : Directive
  rows : List Line
  deriving DecidableEq, Repr

/-- Divides the lines of a body into the rows before the first directive and the sections. -/
def sections : List Line → List Line × List Section
  | [] => ([], [])
  | line :: lines =>
    let (rows, rest) := sections lines
    match line.directive with
    | none => (line :: rows, rest)
    | some directive => ([], ⟨line, directive, rows⟩ :: rest)

def noRows : List Line → Except ReadError Unit
  | [] => .ok ()
  | row :: _ => .error (.inLine row.number .rowOutsideTable)

def checkOutputValue (value : String) : Except Defect Unit :=
  if value = "0" ∨ value = "1" then .ok () else .error (.outputValue value)

def coverRow (inputs : List String) (output : String) (args : List String) :
    Except Defect String := do
  match inputs.length, args with
  | 0, [value] => checkOutputValue value
  | width + 1, [literals, value] =>
    if literals.utf8ByteSize ≠ width + 1 then throw (.rowWidth literals output (width + 1))
    if let some literal := literals.toList.find? (· ∉ ['0', '1', '-']) then
      throw (.rowLiteral literals literal)
    checkOutputValue value
  | _, _ => throw (.rowShape output)
  return " ".intercalate args

def inLine (line : Line) (x : Except Defect α) : Except ReadError α :=
  x.mapError (.inLine line.number)

def Table.ofSection (head : Line) (rows : List Line) : Except ReadError Table :=
  match head.args.getLast? with
  | none => .error (.inLine head.number .namesArguments)
  | some output => do
    let inputs := head.args.dropLast
    let rows ← rows.mapM fun row => inLine row (coverRow inputs output row.args)
    return { inputs, output, rows }

def resetValue (latch : String) : List String → Except Defect LatchInit
  | ["0"] => .ok .zero
  | ["1"] => .ok .one
  | _ => .error (.resetValue latch)

def Reset.ofSection (head : Line) (rows : List Line) : Except ReadError Reset := do
  let [latch] := head.args | throw (.inLine head.number .resetArguments)
  match rows with
  | [] => throw (.inLine head.number (.resetWithoutRow latch))
  | row :: more =>
    let value ← inLine row (resetValue latch row.args)
    if let second :: _ := more then throw (.inLine second.number (.resetSecondRow latch))
    return { line := head.number, latch, value }

/-- The trigger types of a latch: falling and rising edge, active high and low, asynchronous. -/
def latchTypes : List String := ["fe", "re", "ah", "al", "as"]

def checkLatchType (type : String) : Except Defect Unit :=
  if type ∈ latchTypes then .ok () else .error (.latchType type)

def latchInit (digit : String) : Except Defect LatchInit :=
  match LatchInit.ofDigit? digit with
  | some init => .ok init
  | none => .error (.latchInit digit)

def Latch.ofArgs : List String → Except Defect Latch
  | [input, output] => .ok { input, output, init := default }
  | [input, output, digit] => do
    return { input, output, init := ← latchInit digit }
  | [input, output, type, _] => do
    checkLatchType type
    return { input, output, init := default }
  | [input, output, type, _, digit] => do
    checkLatchType type
    return { input, output, init := ← latchInit digit }
  | _ => .error .latchArguments

/-- The parts of a binding before and after its first equals sign, both of which must be there. -/
def Binding.ofArg (arg : String) : Except Defect Binding :=
  let chars := arg.toList
  let formal := chars.takeWhile (· ≠ '=')
  match chars.dropWhile (· ≠ '=') with
  | _ :: c :: actual =>
    if formal.isEmpty then .error (.bindingShape arg)
    else .ok ⟨String.ofList formal, String.ofList (c :: actual)⟩
  | _ => .error (.bindingShape arg)

def Subcircuit.bind (target : Model) (s : Subcircuit) : List String → Except Defect Subcircuit
  | [] => .ok s
  | arg :: args => do
    let binding ← Binding.ofArg arg
    match target.direction? binding.formal with
    | some .input => bind target { s with inputs := s.inputs ++ [binding] } args
    | some .output => bind target { s with outputs := s.outputs ++ [binding] } args
    | none => throw (.notAPort binding.formal s.model)

def Subcircuit.ofArgs (models : List Model) : List String → Except Defect Subcircuit
  | [] => .error .subcktArguments
  | model :: args =>
    match findModel? models model with
    | none => .error (.modelUndefined model)
    | some target => bind target { model } args

def Section.declaration (models : List Model) (s : Section) :
    Traced ReadError (Option Declaration) := do
  match s.directive with
  | .names => return some (.table (← .ofExcept (Table.ofSection s.head s.rows)))
  | .reset => return some (.reset (← .ofExcept (Reset.ofSection s.head s.rows)))
  | .latch =>
    let latch ← .ofExcept (inLine s.head (Latch.ofArgs s.head.args))
    .ofExcept (noRows s.rows)
    return some (.latch latch)
  | .subckt =>
    let subcircuit ← .ofExcept (inLine s.head (Subcircuit.ofArgs models s.head.args))
    .ofExcept (noRows s.rows)
    return some (.subcircuit subcircuit)
  | .property =>
    .ofExcept (noRows s.rows)
    return some (.property (" ".intercalate s.head.args))
  | .other keyword =>
    .emit (.skipped keyword s.head.number)
    .ofExcept (noRows s.rows)
    return none
  | _ =>
    .ofExcept (noRows s.rows)
    return none

def Model.declarations (models : List Model) (m : Model) : Traced ReadError (List Declaration) := do
  let (stray, rest) := sections m.body
  .ofExcept (noRows stray)
  return (← rest.mapM (·.declaration models)).filterMap id

end Netlist.Blif
