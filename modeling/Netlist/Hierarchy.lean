import Netlist.Network

/-!
# Hierarchies

A module named `EXDC` describes the external don't-cares of the module before it. The first such
module moves into its owner; later ones stay where they are.

A module is at the top level of its design when no module of another name instantiates its name. An
instance of a module inside itself, or inside a namesake, does not count.

A module leads to the modules that its boxes name, each name standing for the first module that
bears it. The search for a cycle descends along instances from a root and finds one when it comes to a
module of the chain that it is descending. A module whose search has ended is not searched again. Each
step down takes a module onto the chain that was not there, so the number of modules off the chain
bounds the search.
-/

namespace Netlist

def exdcName : String := "EXDC"

structure Cycle where
  root : String
  module : String
  deriving DecidableEq, Repr

def Cycle.message (c : Cycle) : String :=
  s!"the hierarchy of network {Text.inQuotes c.root} is cyclic: " ++
  s!"model {Text.inQuotes c.module} is part of an instantiation cycle"

namespace Design

variable (d : Design Network)

/-! ## External don't-cares -/

/-- The position of the module before the first `EXDC` module, if the latter is not itself first. -/
def exdcOwner? : Option Nat := d.modules.tail.findIdx? (·.name = exdcName)

/-- Moves the first `EXDC` module into the module before it, and tells the position of the latter. -/
def extractExdc : Change (Design Network) (Option Nat) := do
  let d ← get
  let some owner := d.exdcOwner? | return none
  let some (companion, rest) := d.detach (owner + 1) | return none
  set rest
  let some n := rest.modules[owner]? | return none
  let n ← MonadExcept.ofExcept (n.attachExdc companion)
  set { rest with modules := rest.modules.set owner n }
  return some owner

/-! ## Top-level modules -/

/-- Some module of another name has an instance of `name`. -/
def Instantiated (name : String) : Prop :=
  ∃ m ∈ d.modules, m.name ≠ name ∧ name ∈ m.models

instance (name : String) : Decidable (d.Instantiated name) :=
  inferInstanceAs (Decidable (∃ m ∈ d.modules, _ ∧ _))

def roots : List Nat :=
  d.modules.zipIdx.filterMap fun (m, i) => if d.Instantiated m.name then none else some i

def markTopLevel : Design Network := { d with topLevel := d.roots }

/-! ## Instantiation cycles -/

abbrev Position : Type := Fin d.modules.length

def children (i : d.Position) : List d.Position :=
  d.modules[i].models.filterMap fun name => d.modules.findFinIdx? (·.name = name)

def offChain (chain : List d.Position) : Nat :=
  (List.finRange d.modules.length).countP (· ∉ chain)

theorem offChain_cons_lt {d : Design Network} {chain : List d.Position} {i : d.Position}
    (fresh : i ∉ chain) : d.offChain (i :: chain) < d.offChain chain := by
  have step : ∀ l : List d.Position, i ∈ l →
      l.countP (· ∉ i :: chain) < l.countP (· ∉ chain) := by
    intro l
    induction l with
    | nil => simp
    | cons j l ih =>
      intro member
      have weak : l.countP (· ∉ i :: chain) ≤ l.countP (· ∉ chain) :=
        List.countP_mono_left fun a _ => by simp_all
      by_cases here : j = i
      · subst here
        simp only [List.countP_cons, List.mem_cons, true_or, not_true_eq_false, decide_false, fresh,
          not_false_eq_true, decide_true, if_true, Bool.false_eq_true, if_false]
        simp only [List.mem_cons] at weak
        omega
      · have rest := ih (by rcases List.mem_cons.mp member with h | h
                            · exact absurd h.symm here
                            · exact h)
        simp only [List.countP_cons, List.mem_cons, here, false_or] at rest ⊢
        omega
  exact step _ (List.mem_finRange i)

/-- Searches below module `i`, which the modules of `chain` lead to. Answers with the modules whose
search has ended, or with the name of a module on a cycle. -/
def visit (d : Design Network) (chain : List d.Position) (i : d.Position) (ended : List d.Position) :
    Except String (List d.Position) :=
  if i ∈ ended then .ok ended
  else if fresh : i ∈ chain then .error d.modules[i].name
  else do
    let ended ← (d.children i).foldlM (fun ended j => d.visit (i :: chain) j ended) ended
    return i :: ended
termination_by d.offChain chain
decreasing_by exact offChain_cons_lt fresh

/-- Whether a cycle can be reached from the module at `root`, for a caller that promises that there
is one at that position. -/
def checkAcyclic (root : Nat) : Except Violation (Except Cycle Unit) :=
  if inside : root < d.modules.length then
    match d.visit [] ⟨root, inside⟩ [] with
    | .ok _ => .ok (.ok ())
    | .error name => .ok (.error ⟨d.modules[root].name, name⟩)
  else .error (.indexOutOfBounds d.modules.length root)

end Design

end Netlist
