import Netlist.Proofs.Blockwise
import Netlist.Proofs.Root
import Mathlib.Logic.Relation

/-!
# Where the properties of a text go

The bodies of the models hold all lines that state properties, so reading the bodies in turn finds
these lines in text order. All properties go to the root, whichever model states them, and no network
that the root holds has any.
-/

namespace Netlist

/-- The network holds the other one as its don't-care circuit or in the design that it retains. -/
def Network.Holds (n m : Network) : Prop :=
  n.exdc = some m ∨ ∃ rest, n.hierarchy = some rest ∧ m ∈ rest.modules

namespace Network

open Relation (TransGen)

/-- A network without properties, which holds nothing. -/
structure Bare (n : Network) : Prop where
  exdc : n.exdc = none
  hierarchy : n.hierarchy = none
  properties : n.properties = []

theorem Bare.holds_nothing {n m : Network} (bare : n.Bare) : ¬ n.Holds m := by
  rintro (attached | ⟨rest, retained, -⟩)
  · simp [bare.exdc] at attached
  · simp [bare.hierarchy] at retained

/-- A network as it stands in a design of which it is not the root: it has no properties and holds at
most a bare network. -/
structure Subordinate (n : Network) : Prop where
  companion : ∀ e, n.exdc = some e → e.Bare
  hierarchy : n.hierarchy = none
  properties : n.properties = []

theorem Subordinate.holds {n m : Network} (subordinate : n.Subordinate) (holds : n.Holds m) :
    m.Bare := by
  rcases holds with attached | ⟨rest, retained, -⟩
  · exact subordinate.companion m attached
  · simp [subordinate.hierarchy] at retained

/-- Whatever a network holds, at any depth, has no properties if this is so at the first two depths. -/
theorem properties_of_holds {n m : Network} (companion : ∀ e, n.exdc = some e → e.Bare)
    (retained : ∀ rest, n.hierarchy = some rest → ∀ k ∈ rest.modules, k.Subordinate)
    (holds : TransGen Holds n m) : m.properties = [] := by
  have kind : m.Subordinate ∨ m.Bare := by
    induction holds with
    | single first =>
      rcases first with attached | ⟨rest, kept, member⟩
      · exact .inr (companion _ attached)
      · exact .inl (retained rest kept _ member)
    | tail _ next earlier =>
      rcases earlier with subordinate | bare
      · exact .inr (subordinate.holds next)
      · exact absurd next bare.holds_nothing
  rcases kind with subordinate | bare
  · exact subordinate.properties
  · exact bare.properties

end Network

namespace Design

variable {d : Design Network}

theorem Fresh.subordinate_settled (fresh : d.Fresh) : ∀ m ∈ d.settled.modules, m.Subordinate := by
  intro m member
  have unlinked := fresh.unlinked m member
  refine ⟨?_, unlinked.hierarchy, unlinked.properties⟩
  intro e attached
  obtain ⟨o, old, same | ⟨k, moved, same⟩⟩ := mem_settled member
  · subst same
    simp [(fresh m old).1] at attached
  · subst same
    obtain rfl := Option.some.inj attached
    obtain ⟨none, alone⟩ := fresh k moved
    exact ⟨none, alone.hierarchy, alone.properties⟩

end Design

namespace Blif

open Design

open Relation (TransGen)

variable {text : String} {lines : List Line} {models : List Model} {definitions : List Definition}

theorem properties_of_bodies (named : Scan.Named models) {ms : List Model}
    (bodies : List.Forall₂ (fun m d => (m.definition models).outcome = .ok d) ms definitions) :
    definitions.flatMap (·.body.properties) = ms.flatMap fun m => propertiesOf m.body := by
  induction bodies with
  | nil => rfl
  | cons read _ rest =>
    have first := definition_properties named read
    simp only [List.flatMap_cons, first, rest]

/-- No property is stated outside of the bodies, and the bodies follow one another. -/
theorem propertiesOf_lines (scanned : Model.ofLines lines = .ok models) :
    models.flatMap (fun m => propertiesOf m.body) = propertiesOf lines := by
  obtain ⟨blocks, divided, rfl⟩ := ofLines_eq_ok.mp scanned
  have own : ∀ b ∈ blocks, (b.models.flatMap fun m => propertiesOf m.body) = propertiesOf b.lines :=
    fun b member => (divided.valid b member).properties.symm
  calc (blocks.flatMap Block.models).flatMap (fun m => propertiesOf m.body)
      = blocks.flatMap fun b => b.models.flatMap fun m => propertiesOf m.body := List.flatMap_assoc
    _ = blocks.flatMap fun b => propertiesOf b.lines := List.flatMap_congr own
    _ = propertiesOf (blocks.flatMap Block.lines) := List.filterMap_flatMap.symm
    _ = propertiesOf lines := by simp only [divided.whole]

theorem Reads.properties (reads : Reads text lines models definitions) :
    definitions.flatMap (·.body.properties) = propertiesOf lines :=
  (properties_of_bodies (ofLines_named reads.models_eq) reads.bodies).trans
    (propertiesOf_lines reads.models_eq)

/-- The properties of the root are those that the lines of the text state, in text order. No network
that the root holds, at whatever depth, has properties. -/
theorem load_properties {file : Option String} {id : DesignId} {n : Network}
    (loaded : (load text file id).outcome = .ok n) :
    ∃ lines, Line.ofText text = .ok lines ∧
      n.properties = lines.filterMap (fun line =>
        if line.directive = some .property then some (" ".intercalate line.args) else none) ∧
      ∀ m, TransGen Network.Holds n m → m.properties = [] := by
  obtain ⟨c, d, before, root, after, read, is, divided, -, -, shape⟩ := load_takes loaded
  obtain ⟨lines, models, definitions, reads, built⟩ := ofText_eq_ok.mp read
  have plain := (c.design_fresh id (file.getD "")).subordinate_settled
  simp only [← is, divided, List.mem_append, List.mem_cons] at plain
  have chosen : root.Subordinate := plain root (.inr (.inl rfl))
  have others : ∀ m ∈ before ++ after, m.Subordinate := by
    intro m member
    rcases List.mem_append.mp member with early | late
    · exact plain m (.inl early)
    · exact plain m (.inr (.inr late))
  refine ⟨lines, reads.lines_eq, ?_, fun m holds => ?_⟩
  · have stated : c.properties = propertiesOf lines := by
      rw [built]
      exact reads.properties
    rw [shape]
    exact stated
  · refine Network.properties_of_holds ?_ ?_ holds
    · intro e attached
      apply chosen.companion
      simpa [shape] using attached
    · intro rest retained k member
      apply others
      simp only [shape] at retained
      split at retained
      · simp at retained
      · obtain rfl := Option.some.inj retained
        exact member

/-- Properties stated in a model below the root, in the root, in a don't-care section and in a model
that the root passes over; one has two arguments, and one holds a `#`. -/
def propertiesEverywhere : String :=
  ".model leaf\n.ltlformula \"G a\" b\n.end\n.model top\n.subckt leaf\n.ltlformula \"F (a # y)\"\n" ++
  ".exdc\n.ltlformula X\n.end\n.model other\n.ltlformula \"G a\"\n.end\n"

theorem load_properties_everywhere : ∃ n lines,
    (load propertiesEverywhere none ⟨0⟩).outcome = .ok n ∧ n.name = "top" ∧
    Line.ofText propertiesEverywhere = .ok lines ∧
    n.properties = ["G a b", "F (a # y)", "X", "G a"] ∧
    (∃ e, n.exdc = some e ∧ e.properties = []) ∧
    n.retained.map (fun m => (m.name, m.properties)) = [("leaf", []), ("other", [])] := by
  obtain ⟨n, loaded, checked⟩ := Outcome.exists_ok_of_any
    (x := (load propertiesEverywhere none ⟨0⟩).outcome)
    (p := fun n => n.name = "top" ∧ n.exdc.isSome ∧ n.retained.map (·.name) = ["leaf", "other"])
    (by decide +kernel)
  obtain ⟨name, companion, kept⟩ := of_decide_eq_true checked
  obtain ⟨lines, read, stated, held⟩ := load_properties loaded
  obtain ⟨e, attached⟩ := Option.isSome_iff_exists.mp companion
  have tokens : (Line.ofText propertiesEverywhere).map propertiesOf =
      .ok ["G a b", "F (a # y)", "X", "G a"] := by decide +kernel
  rw [read] at tokens
  refine ⟨n, lines, loaded, name, read, stated.trans (Except.ok.inj tokens),
    ⟨e, attached, held e (.single (.inl attached))⟩, ?_⟩
  have empty : ∀ m ∈ n.retained, (m.name, m.properties) = (m.name, []) := by
    intro m member
    cases retains : n.hierarchy with
    | none => simp [Network.retained, retains] at member
    | some rest =>
      have member : m ∈ rest.modules := by simpa [Network.retained, retains] using member
      simp only [held m (.single (.inr ⟨rest, retains, member⟩))]
  calc n.retained.map (fun m => (m.name, m.properties))
      = n.retained.map fun m => (m.name, []) := List.map_congr_left empty
    _ = (n.retained.map (·.name)).map fun name => (name, []) := by simp
    _ = [("leaf", []), ("other", [])] := by rw [kept]; rfl

end Blif

end Netlist
