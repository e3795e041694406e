import Netlist.Circuit.Problem
import Netlist.Traced

/-!
# Circuits and their check

A circuit is a named graph. Its check reports every structural problem at once, and warns of each
net that nothing drives.
-/

namespace Netlist

inductive NetworkType where
  | none
  | netlist
  | logic
  | strashed
  | other
  deriving DecidableEq, Repr

namespace NetworkType

def name : NetworkType → String
  | none => "None"
  | netlist => "Netlist"
  | logic => "Logic"
  | strashed => "Strashed"
  | other => "Other"

end NetworkType

inductive NodeFunction where
  | none
  | sop
  | bdd
  | aig
  | map
  | multiValued
  | blackBox
  | other
  deriving DecidableEq, Repr

namespace NodeFunction

def name : NodeFunction → String
  | none => "None"
  | sop => "Sop"
  | bdd => "Bdd"
  | aig => "Aig"
  | map => "Map"
  | multiValued => "MultiValued"
  | blackBox => "BlackBox"
  | other => "Other"

end NodeFunction

structure Circuit where
  name : String
  type : NetworkType
  function : NodeFunction
  graph : Graph := {}
  deriving DecidableEq, Repr

structure Inconsistency where
  network : String
  problems : List String
  deriving DecidableEq, Repr

def Inconsistency.message (e : Inconsistency) : String :=
  s!"the network check has failed for model {Text.inQuotes e.network}: " ++
    "; ".intercalate e.problems

namespace Circuit

/-- Names of the instantiated models, in object order and with repetitions. -/
def models (c : Circuit) : List String := c.graph.instances.map (·.model)

def warnings (c : Circuit) : List Event :=
  c.graph.undriven.map fun net => .undriven (c.graph.describe net) c.name

def check (c : Circuit) : Traced Inconsistency Unit where
  events := c.warnings
  outcome :=
    match c.graph.problems with
    | [] => .ok ()
    | problems => .error ⟨c.name, problems.map (·.message c.graph)⟩

end Circuit

end Netlist
