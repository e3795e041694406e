import Netlist.Blif.Load
import Netlist.Proofs.Outcome

/-!
# A reader that works by positions

This reader goes through the same stages as `load`, but keeps its data in shared lists and refers to
them by positions: the lines of a body by a range, a declared model and an open table by an index, a
piece of a line by its offset in bytes. Every position is checked where it is used, and so is every
assumption about the stage reached. A check that fails ends the reading with a slip, which is not an
error of the text.
-/

namespace Netlist.Blif.Positional

/-- A failed check of the reader on itself. -/
inductive Slip where
  | stage (expected reached : Stage)
  | index (length index : Nat)
  | range (length start stop : Nat)
  /-- An offset beyond the end of a text or inside a character. -/
  | offset (bytes : Nat)
  | unreachable
  | violated (violation : Violation)
  deriving DecidableEq, Repr

inductive Halt where
  | failed (error : LoadError)
  | slipped (slip : Slip)
  deriving DecidableEq, Repr

/-- A broken precondition of an operation that the reader calls is a slip of the reader. -/
def Halt.ofLoad : LoadError → Halt
  | .violated v => .slipped (.violated v)
  | error => .failed error

def Halt.events : Halt → List Event
  | failed error => error.events
  | slipped _ => []

abbrev Run := Traced Halt

def slip (s : Slip) : Run α := .fail (.slipped s)

def entry (l : List α) (i : Nat) : Run α :=
  match l[i]? with
  | some a => return a
  | none => slip (.index l.length i)

def slice (l : List α) (start stop : Nat) : Run (List α) :=
  if start ≤ stop ∧ stop ≤ l.length then return (l.drop start).take (stop - start)
  else slip (.range l.length start stop)

def bytes : List Char → Nat
  | [] => 0
  | c :: cs => c.utf8Size + bytes cs

/-- The text up to an offset in bytes. -/
def upTo : Nat → List Char → Run (List Char)
  | 0, _ => return []
  | _ + 1, [] => slip (.offset 0)
  | offset + 1, c :: cs =>
    if c.utf8Size ≤ offset + 1 then return c :: (← upTo (offset + 1 - c.utf8Size) cs)
    else slip (.offset (offset + 1))

/-- The text from an offset in bytes. -/
def since : Nat → List Char → Run (List Char)
  | 0, cs => return cs
  | _ + 1, [] => slip (.offset 0)
  | offset + 1, c :: cs =>
    if c.utf8Size ≤ offset + 1 then since (offset + 1 - c.utf8Size) cs
    else slip (.offset (offset + 1))

section Lines

/-- The offset of the comment of a physical line. -/
def commentAt? (quoted : Bool) (offset : Nat) : List Char → Option Nat
  | [] => none
  | c :: cs =>
    if c = '"' then commentAt? (!quoted) (offset + c.utf8Size) cs
    else if c = '#' ∧ ¬quoted then some offset
    else commentAt? quoted (offset + c.utf8Size) cs

def code (physical : List Char) : Run (List Char) :=
  match commentAt? false 0 physical with
  | some offset => upTo offset physical
  | none => return physical

def Piece.ofCode (code : List Char) : Piece :=
  let code := Text.trimEnd code
  if code.getLast? = some '\\' then ⟨Text.trim code.dropLast, true⟩ else ⟨Text.trim code, false⟩

def logicalLines (text : String) : Run (List LogicalLine) := do
  let codes ← (Text.cut (· = '\n') text.toList).mapM code
  return LogicalLine.join 1 none (codes.map Piece.ofCode)

inductive Rule where
  | line
  | keyword
  | directive
  | string
  | word
  | endOfInput
  deriving DecidableEq, Repr

structure Token where
  rule : Rule
  text : List Char
  deriving DecidableEq, Repr

/-- The strings and words from a place on, with the quotes of the strings. -/
def tokens : Place → List Char → Option (List Token)
  | .between, [] => some []
  | .inWord read, [] => some [⟨.word, read.reverse⟩]
  | .inString _, [] => none
  | .between, c :: cs =>
    if c = '"' then tokens (.inString []) cs
    else if isSeparator c then tokens .between cs
    else tokens (.inWord [c]) cs
  | .inWord read, c :: cs =>
    if c = '"' then (tokens (.inString []) cs).map (⟨.word, read.reverse⟩ :: ·)
    else if isSeparator c then (tokens .between cs).map (⟨.word, read.reverse⟩ :: ·)
    else tokens (.inWord (c :: read)) cs
  | .inString read, c :: cs =>
    if c = '"' then (tokens .between cs).map (⟨.string, '"' :: read.reverse ++ ['"']⟩ :: ·)
    else tokens (.inString (c :: read)) cs

/-- What the grammar matches on a line: the whole line, given by the tokens inside it. -/
def grammar (text : List Char) : Option (List (List Token)) := do
  let (keyword, rest) := splitKeyword (text.dropWhile isSeparator)
  let directive := keyword.toList.map fun keyword => ⟨.directive, '.' :: keyword⟩
  return [directive ++ (← tokens .between rest) ++ [⟨.endOfInput, []⟩]]

def takeToken (line : Line) (found : Token) : Run Line :=
  match found.rule with
  | .directive => do
    let keyword ← since 1 found.text
    return { line with directive := some (.ofKeyword (String.ofList keyword)) }
  | .string => do
    let inner ← since 1 (← upTo (bytes found.text - 1) found.text)
    return { line with args := line.args ++ [String.ofList inner] }
  | .word => return { line with args := line.args ++ [String.ofList found.text] }
  | .endOfInput => return line
  | _ => slip .unreachable

def ofRead (stage : Stage) (x : Except ReadError α) : Run α :=
  .ofExcept (x.mapError fun e => .failed (.rejected stage e))

theorem ofRead_eq (stage : Stage) (x : Except ReadError α) :
    ofRead stage x = (Load.ofRead stage x).mapError .ofLoad := by
  cases x <;> rfl

theorem ofRead_ok (stage : Stage) (a : α) : ofRead stage (.ok a) = pure a := rfl

theorem ofRead_bind (stage : Stage) (x : Except ReadError α) (f : α → Except ReadError β) :
    ofRead stage (x >>= f) = ofRead stage x >>= fun a => ofRead stage (f a) := by
  cases x with
  | ok a => rfl
  | error e => rfl

theorem ofRead_mapM (stage : Stage) (f : α → Except ReadError β) (l : List α) :
    ofRead stage (l.mapM f) = l.mapM fun a => ofRead stage (f a) := by
  induction l with
  | nil => rfl
  | cons a l ih =>
    simp only [List.mapM_cons, ofRead_bind, ih]
    rfl

def tokenize (stage : Stage) (line : LogicalLine) : Run Line :=
  match grammar line.text with
  | none => ofRead stage (.error (.inLine line.number (.malformed (expectedAt line.text))))
  | some found =>
    match found.head? with
    | none => slip .unreachable
    | some inner => inner.foldlM takeToken { number := line.number, directive := none, args := [] }

end Lines

/-- A `.reset` whose row may still be missing. -/
structure OpenReset where
  line : Nat
  latch : String
  value : Option LatchInit
  deriving DecidableEq, Repr

/-- A model while it is read. Its body is a range of the lines of the text. -/
structure Draft where
  name : String
  header : Nat
  start : Nat
  stop : Nat
  inputs : List String := []
  outputs : List String := []
  blackbox : Bool := false
  tables : List Table := []
  latches : List Latch := []
  resets : List OpenReset := []
  subcircuits : List Subcircuit := []
  circuit : Option Circuit := none
  deriving DecidableEq, Repr

structure Reader where
  stage : Stage := .empty
  lines : List Line := []
  models : List Draft := []
  /-- The position of each declared model, by its name. -/
  names : List (String × Nat) := []
  /-- The position of the model that is open. -/
  current : Option Nat := none
  properties : List String := []
  design : Option (Design Network) := none

namespace Reader

def require (expected : Stage) (r : Reader) : Run Unit :=
  if r.stage = expected then return () else slip (.stage expected r.stage)

def advance (stage : Stage) (r : Reader) : Run Reader := do
  .emit (.advanced r.stage stage)
  return { r with stage }

def refuse (r : Reader) (number : Nat) (defect : Defect) : Run α :=
  ofRead r.stage (.error (.inLine number defect))

def put (r : Reader) (i : Nat) (k : Draft) : Reader := { r with models := r.models.set i k }

def preparse (text : String) (r : Reader) : Run Reader := do
  r.require .empty
  let lines ← (← logicalLines text).mapM (tokenize r.stage)
  advance .preparsed { r with lines }

section Interfaces

def openModel (r : Reader) (index : Nat) (line : Line) : Run Reader :=
  match r.current, line.args with
  | some i, _ => do
    let k ← entry r.models i
    r.refuse line.number (.notTerminated k.name)
  | none, [name] =>
    if (r.names.lookup name).isSome then r.refuse line.number (.modelTwice name)
    else return { r with
      names := r.names ++ [(name, r.models.length)]
      current := some r.models.length
      models := r.models ++ [{ name, header := line.number, start := index + 1, stop := index + 1 }] }
  | none, _ => r.refuse line.number .modelArguments

def scanLine (r : Reader) (index : Nat) (line : Line) : Run Reader :=
  match line.directive with
  | none => if r.current.isNone then r.refuse line.number .rowOutsideModel else return r
  | some .model => r.openModel index line
  | some directive =>
    match r.current with
    | none => r.refuse line.number .directiveOutsideModel
    | some i => do
      let k ← entry r.models i
      match directive with
      | .inputs => return r.put i { k with inputs := k.inputs ++ line.args }
      | .outputs => return r.put i { k with outputs := k.outputs ++ line.args }
      | .blackbox => return r.put i { k with blackbox := true }
      | .exdc =>
        let exdc : Draft :=
          { name := exdcName, header := line.number, start := index + 1, stop := index + 1
            inputs := k.inputs, outputs := k.outputs }
        let r := r.put i { k with stop := index }
        return { r with current := some r.models.length, models := r.models ++ [exdc] }
      | .endModel => return { r.put i { k with stop := index } with current := none }
      | _ => return r

def scanLines (index : Nat) : List Line → Reader → Run Reader
  | [], r => return r
  | line :: lines, r => do scanLines (index + 1) lines (← r.scanLine index line)

def endScan (r : Reader) : Run Reader :=
  match r.current with
  | some i => do
    let k ← entry r.models i
    r.refuse k.header (.notTerminated k.name)
  | none =>
    if r.models.isEmpty then ofRead r.stage (.error .noModels)
    else advance .interfacesScanned r

def readInterfaces (r : Reader) : Run Reader := do
  r.require .preparsed
  let r ← scanLines 0 r.lines r
  r.endScan

end Interfaces

section Bodies

/-- The table or reset that rows belong to, by its position in its model. -/
inductive OpenTable where
  | names (index : Nat)
  | reset (index : Nat)
  deriving DecidableEq, Repr

def ports (k : Draft) : Model :=
  { name := k.name, header := k.header, declared := true, inputs := k.inputs, outputs := k.outputs }

def subcircuit (r : Reader) (line : Line) : Run Subcircuit :=
  match line.args with
  | [] => r.refuse line.number .subcktArguments
  | model :: bindings =>
    match r.names.lookup model with
    | none => r.refuse line.number (.modelUndefined model)
    | some target => do
      let k ← entry r.models target
      ofRead r.stage (inLine line (Subcircuit.bind (ports k) { model } bindings))

def openReset (r : Reader) (line : Line) : Run OpenReset :=
  match line.args with
  | [latch] => return { line := line.number, latch, value := none }
  | _ => r.refuse line.number .resetArguments

def resetRow (r : Reader) (line : Line) (reset : OpenReset) : Run LatchInit :=
  if reset.value.isSome then r.refuse line.number (.resetSecondRow reset.latch)
  else ofRead r.stage (inLine line (resetValue reset.latch line.args))

def readRow (r : Reader) (i : Nat) (table : Option OpenTable) (line : Line) : Run Reader :=
  match table with
  | some (.names t) => do
    let k ← entry r.models i
    let names ← entry k.tables t
    let row ← ofRead r.stage (inLine line (coverRow names.inputs names.output line.args))
    return r.put i { k with tables := k.tables.set t { names with rows := names.rows ++ [row] } }
  | some (.reset t) => do
    let k ← entry r.models i
    let reset ← entry k.resets t
    let value ← r.resetRow line reset
    return r.put i { k with resets := k.resets.set t { reset with value := some value } }
  | none => r.refuse line.number .rowOutsideTable

def closeTable (r : Reader) (i : Nat) (table : Option OpenTable) : Run Unit := do
  let k ← entry r.models i
  match table with
  | some (.reset t) =>
    let reset ← entry k.resets t
    if reset.value.isNone then r.refuse reset.line (.resetWithoutRow reset.latch)
  | _ => return ()

def readDirective (r : Reader) (i : Nat) (line : Line) (directive : Directive) :
    Run (Reader × Option OpenTable) := do
  let k ← entry r.models i
  match directive with
  | .names =>
    let table ← ofRead r.stage (Table.ofSection line [])
    return (r.put i { k with tables := k.tables ++ [table] }, some (.names k.tables.length))
  | .reset =>
    let reset ← r.openReset line
    return (r.put i { k with resets := k.resets ++ [reset] }, some (.reset k.resets.length))
  | .latch =>
    let latch ← ofRead r.stage (inLine line (Latch.ofArgs line.args))
    return (r.put i { k with latches := k.latches ++ [latch] }, none)
  | .subckt =>
    let subcircuit ← r.subcircuit line
    return (r.put i { k with subcircuits := k.subcircuits ++ [subcircuit] }, none)
  | .property => return ({ r with properties := r.properties ++ [" ".intercalate line.args] }, none)
  | .other keyword =>
    .emit (.skipped keyword line.number)
    return (r, none)
  | _ => return (r, none)

def readLines (i : Nat) : List Line → Reader → Option OpenTable → Run Reader
  | [], r, table => do
    r.closeTable i table
    return r
  | line :: lines, r, table =>
    match line.directive with
    | none => do readLines i lines (← r.readRow i table line) table
    | some directive => do
      r.closeTable i table
      let (r, table) ← r.readDirective i line directive
      readLines i lines r table

def readBody (r : Reader) (i : Nat) : Run Reader := do
  let k ← entry r.models i
  readLines i (← slice r.lines k.start k.stop) r none

end Bodies

section Lowering

abbrev Placing := ExceptT Slip (StateM Graph)

def ofChange (x : Change Graph α) : Placing α := fun g =>
  let (outcome, g) := x.run.run g
  (outcome.mapError .violated, g)

/-- `base`, or `base` with the least number that makes it the name of no net. -/
def unusedName? (g : Graph) (base : String) : Option String :=
  if (g.net? base).isNone then some base
  else ((List.range g.nets.length).find? fun k => (g.net? s!"{base}_{k + 1}").isNone).map
    fun k => s!"{base}_{k + 1}"

def unusedName (base : String) : Placing String := do
  match unusedName? (← get) base with
  | some name => return name
  | none => throw .unreachable

def placeModel (m : Model) (b : Body) : Placing (Option ObjectId) := do
  ofChange ((cells m b).forM fun c => discard c.place)
  if b.resets = [] then return none
  let data ← unusedName "abc_reset_latch_data"
  let _ ← ofChange (Cell.node [] data ["0"]).place
  let output ← unusedName "abc_reset_latch"
  return some (← ofChange (Cell.latch { input := data, output, init := .one }).place)

/-- What a draft declares, less resets that have no value. -/
def declared (k : Draft) : Body where
  tables := k.tables
  latches := k.latches
  resets := k.resets.filterMap fun r => r.value.map (⟨r.line, r.latch, ·⟩)
  subcircuits := k.subcircuits

def lower (stage : Stage) (k : Draft) : Run Draft := do
  ofRead stage (declared k).checkResets
  let (placed, graph) := (placeModel (ports k) (declared k)).run.run {}
  let latch ← .ofExcept (placed.mapError .slipped)
  if let some id := latch then .emit (.resetLatch k.name id)
  let function := if k.blackbox then .blackBox else .sop
  return { k with circuit := some { name := k.name, type := .netlist, function, graph } }

def addCircuit (d : Design Network) (k : Draft) : Design Network :=
  match k.circuit with
  | some c => d.add { toCircuit := c }
  | none => d

def parse (id : DesignId) (name : String) (r : Reader) : Run Reader := do
  r.require .interfacesScanned
  let r ← (List.range r.models.length).foldlM readBody r
  let models ← r.models.mapM (lower r.stage)
  let design := models.foldl addCircuit { id, name }
  advance .parsed { r with design := some design }

end Lowering

def read (text : String) (id : DesignId) (name : String) : Run (Design Network × List String) := do
  let r ← preparse text {}
  let r ← r.readInterfaces
  let r ← r.parse id name
  match r.design with
  | some d => return (d, r.properties)
  | none => slip .unreachable

end Reader

def report (x : Run α) : Run α :=
  match x.outcome with
  | .ok _ => x
  | .error h => { x with events := x.events ++ h.events }

def load (text : String) (file : Option String) (id : DesignId) : Run Network :=
  report do
    let (d, properties) ← Reader.read text id (file.getD "")
    (link d file properties).mapError .ofLoad

end Netlist.Blif.Positional
