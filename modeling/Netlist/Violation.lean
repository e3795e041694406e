import Netlist.Text.Quoted

/-!
# Broken preconditions

An operation whose caller broke its precondition answers with a `Violation` in place of a result.
A violation is not an outcome that a caller plans for, so it stays apart from the errors that the
operations report about their data.
-/

namespace Netlist

inductive Violation where
  /-- A position at or beyond the end of what it points into. -/
  | indexOutOfBounds (length index : Nat)
  | absentEntry
  | exdcAttached (network : String)
  | missingText
  | occupiedOutput
  | noModules
  deriving DecidableEq, Repr

def Violation.message : Violation → String
  | .indexOutOfBounds length index =>
    s!"index out of bounds: the len is {length} but the index is {index}"
  | .absentEntry => "entry to remove is not present in the array"
  | .exdcAttached network => "network " ++ Text.quoted network ++ " already has an EXDC network"
  | .missingText => "read_blif requires input text"
  | .occupiedOutput => "read_blif requires an empty output network"
  | .noModules => "the design has no modules"

/-- A change of a state that may stop at a violation and keeps what it did until then. -/
abbrev Change (σ : Type) := ExceptT Violation (StateM σ)

end Netlist
