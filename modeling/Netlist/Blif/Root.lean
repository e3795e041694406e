import Netlist.Blif.LoadError
import Netlist.Hierarchy

/-!
# The root of a design

Of a design whose circuits are all consistent, the first top-level module becomes the root. It must
not lead to an instantiation cycle. A root with other modules beside it keeps the rest of the design
as its hierarchy.
-/

namespace Netlist.Blif

def severalRoots (count : Nat) (root : String) : String :=
  s!"warning: the design has {count} root-level modules; " ++
  s!"the first one ({Text.inQuotes root}) will be used and {count - 1} ignored"

def moduleName (d : Design Network) (i : Nat) : Except Violation String :=
  match d.modules[i]? with
  | some m => .ok m.name
  | none => .error (.indexOutOfBounds d.modules.length i)

def checkAll (d : Design Network) : Load Unit := do
  (d.modules.forM fun m => m.check).mapError .inconsistent
  .emit (.validated d.modules.length)

def settleExdc (d : Design Network) : Load (Design Network) := do
  let (owner, d) := Design.extractExdc.run.run d
  if let some i ← .ofViolation owner then
    .emit (.exdcAttached (← .ofViolation (moduleName d i)))
  return d

/-- The position of the root: the first top-level module, or the first module if there is none. -/
def chooseRoot (d : Design Network) : Load Nat := do
  let root := d.topLevel.headD 0
  let count := d.topLevel.length
  if 1 < count then
    .emit (.fault (severalRoots count (← .ofViolation (moduleName d root))))
  match ← .ofViolation (d.checkAcyclic root) with
  | .ok () => return root
  | .error cycle => .fail (.cyclic cycle)

/-- Takes the root out of the design. A design of one module is dissolved. -/
def takeRoot (d : Design Network) (root : Nat) (file : Option String) (properties : List String) :
    Load Network := do
  let singleton := d.modules.length = 1
  match d.detach root with
  | none => .fail (.violated .noModules)
  | some (n, rest) =>
    let n :=
      if singleton then { n with spec := file }
      else
        let n := { n with hierarchy := some rest }
        if n.spec.isNone then { n with spec := file } else n
    let n := { n with properties := n.properties ++ properties }
    .emit (.linked n.name singleton)
    return n

def link (d : Design Network) (file : Option String) (properties : List String) :
    Load Network := do
  checkAll d
  let d := (← settleExdc d).markTopLevel
  takeRoot d (← chooseRoot d) file properties

end Netlist.Blif
