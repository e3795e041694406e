import Netlist.Circuit.Check

/-!
# Networks and designs

A network is a circuit with its place among others: the design it is a member of, a companion circuit
for external don't-cares, and, for a network taken out of a design, the rest of that design. A design
is an ordered collection of networks. Its members record its identity for as long as they are
members, and only `detach` takes one out.
-/

namespace Netlist

structure DesignId where
  number : Nat
  deriving DecidableEq, Repr

/-- A design over any type of modules, so that modules may hold designs themselves. -/
structure Design (ν : Type) where
  id : DesignId
  name : String
  modules : List ν := []
  /-- Positions of the modules that no other module instantiates, as last computed. -/
  topLevel : List Nat := []
  deriving DecidableEq, Repr

structure Network extends Circuit where
  /-- The design whose member this network is. -/
  design : Option DesignId := none
  /-- The position at which it last joined a design. -/
  modelId : Nat := 0
  /-- Where the network was read from. -/
  spec : Option String := none
  /-- Temporal properties, in the order read. -/
  properties : List String := []
  exdc : Option Network := none
  /-- The rest of the design that this network was taken out of. -/
  hierarchy : Option (Design Network) := none

namespace Design

variable (d : Design Network)

def find? (name : String) : Option Nat := d.modules.findIdx? (·.name = name)

/-- Appends a module, which thereby becomes a member. -/
def add (n : Network) : Design Network :=
  { d with modules := d.modules ++ [{ n with design := some d.id, modelId := d.modules.length }] }

/-- The positions that remain after the one at `i` is taken out, renumbered. -/
def closeGap (i : Nat) (positions : List Nat) : List Nat :=
  (positions.filter (· ≠ i)).map fun j => if i < j then j - 1 else j

/-- Takes out the module at position `i`, which thereby ceases to be a member. -/
def detach (i : Nat) : Option (Network × Design Network) := do
  let n ← d.modules[i]?
  return ({ n with design := none },
    { d with modules := d.modules.eraseIdx i, topLevel := closeGap i d.topLevel })

end Design

namespace Network

def submodule? (n : Network) (name : String) : Option Network := do
  let rest ← n.hierarchy
  rest.modules.find? (·.name = name)

/-- Makes `companion` the network's don't-care circuit, for a caller that promises that it has none. -/
def attachExdc (n companion : Network) : Except Violation Network :=
  if n.exdc.isSome then .error (.exdcAttached n.name)
  else .ok { n with exdc := some { companion with design := none } }

end Network

end Netlist
