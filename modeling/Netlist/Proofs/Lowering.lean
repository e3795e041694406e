import Netlist.Proofs.FreshName
import Netlist.Proofs.Ports
import Netlist.Proofs.Wiring

/-!
# What lowering makes of a definition

A definition is lowered exactly if its resets name latches of it, and then its graph is the one that it
describes: a net for each signal and an object for each declaration, wired as declared. A definition
with resets gets a constant, a latch and the two nets of these in addition.
-/

namespace Netlist

open Blif (Cell)

/-- The entry is the net of the signal. Its neighbours are the objects that have it among theirs, in
order and as often as they do. -/
structure Graph.Carries (g : Graph) (entry : ObjectId × Object) (signal : String) : Prop where
  registered : g.net? signal = some entry.1
  name : entry.2.name = some signal
  payload : entry.2.payload = .none
  fanins : entry.2.fanins =
    g.entries.flatMap fun p => List.replicate (p.2.fanouts.count entry.1) p.1
  fanouts : entry.2.fanouts =
    g.entries.flatMap fun p => List.replicate (p.2.fanins.count entry.1) p.1

namespace Blif

/-- The signals made up for the resets of a model: of the constant and of the latch that it feeds. -/
structure ResetSignals where
  data : String
  output : String

namespace ResetSignals

def all (x : ResetSignals) : List String := [x.data, x.output]

def table (x : ResetSignals) : Table := ⟨[], x.data, ["0"]⟩

def latch (x : ResetSignals) : Latch := ⟨x.data, x.output, .one⟩

def cells (x : ResetSignals) : List Cell :=
  [.node x.table.inputs x.table.output x.table.rows, .latch x.latch]

end ResetSignals

namespace Definition

def signals (d : Definition) : List String :=
  d.model.inputs ++ d.model.outputs ++ d.body.tables.flatMap (fun t => t.inputs ++ [t.output]) ++
    d.body.latches.flatMap (fun l => [l.input, l.output]) ++
    d.body.subcircuits.flatMap fun s => s.inputs.map (·.actual) ++ s.outputs.map (·.actual)

/-- The made-up signals are there if there is a reset, and differ from all others. -/
structure Extends (d : Definition) (x : Option ResetSignals) : Prop where
  resets : x.isSome ↔ d.body.resets ≠ []
  data : ∀ y ∈ x, y.data ∉ d.signals
  output : ∀ y ∈ x, y.output ∉ d.signals
  ne : ∀ y ∈ x, y.data ≠ y.output

/-- The graph has one net per signal and one object per declaration, in order, and nothing else. -/
structure Describes (d : Definition) (x : Option ResetSignals) (g : Graph) : Prop where
  nets : List.Forall₂ g.Carries (g.ofKind .net)
    (d.signals.eraseDups ++ x.toList.flatMap ResetSignals.all)
  inputs : List.Forall₂
    (fun p s => p.2.name = some s ∧ p.2.payload = .none ∧ g.Wires p.2 [] [s])
    (g.ofKind .input) d.model.inputs
  outputs : List.Forall₂
    (fun p s => p.2.name = some s ∧ p.2.payload = .none ∧ g.Wires p.2 [s] [])
    (g.ofKind .output) d.model.outputs
  nodes : List.Forall₂
    (fun p t => p.2.name = none ∧ p.2.payload = .cover t.rows ∧ g.Wires p.2 t.inputs [t.output])
    (g.ofKind .node) (d.body.tables ++ x.toList.map ResetSignals.table)
  latches : List.Forall₂
    (fun p l => p.2.name = some l.output ∧ g.Wires p.2 [l.input] [l.output])
    (g.ofKind .latch) (d.body.latches ++ x.toList.map ResetSignals.latch)
  inits : (g.ofKind .latch).map (·.2.latchInit?) =
    (resetLatches d.body.resets d.body.latches ++ x.toList.map ResetSignals.latch).map (some ·.init)
  boxes : List.Forall₂
    (fun p s => p.2.name = none ∧ p.2.payload = .uses s.toInstance ∧
      g.Wires p.2 (s.inputs.map (·.actual)) (s.outputs.map (·.actual)))
    (g.ofKind .box) d.body.subcircuits

end Definition

variable {d : Definition} {g : Graph} {x : Option ResetSignals}

theorem resetLatches_ports (resets : List Reset) (ls : List Latch) :
    (resetLatches resets ls).map (fun l => (l.input, l.output)) =
      ls.map fun l => (l.input, l.output) := by
  induction ls with
  | nil => rfl
  | cons l ls ih => simp [resetLatches, ih]

theorem flatMap_signals_cells (d : Definition) :
    (cells d.model d.body).flatMap Cell.signals = d.signals := by
  have latches := congrArg (List.flatMap fun p : String × String => [p.1, p.2])
    (resetLatches_ports d.body.resets d.body.latches)
  rw [List.flatMap_map, List.flatMap_map] at latches
  simp [cells, Definition.signals, List.flatMap_map, Cell.signals, Cell.input, Cell.output, Cell.node,
    Cell.latch, Cell.box, ← latches]

structure Definition.Laid (d : Definition) (x : Option ResetSignals) (placed : List (ObjectId × Cell))
    (g : Graph) : Prop where
  additional : d.Extends x
  cells : placed.map Prod.snd = Blif.cells d.model d.body ++ x.toList.flatMap ResetSignals.cells
  wired : g.Wired placed
  names : g.nets.map Prod.fst = d.signals.eraseDups ++ x.toList.flatMap ResetSignals.all

def resetSignals (g : Graph) : ResetSignals :=
  ⟨freshName g "abc_reset_latch_data", freshName (g.withCell (resetNode g)) "abc_reset_latch"⟩

theorem resetSignals_cells (g : Graph) : (resetSignals g).cells = [resetNode g, resetLatch g] := rfl

theorem resetSignals_fresh {mentioned : List String} (names : g.Mentions mentioned) :
    (resetSignals g).data ∉ mentioned ∧ (resetSignals g).output ∉ mentioned ∧
      (resetSignals g).data ≠ (resetSignals g).output := by
  have data : (resetSignals g).data ∉ mentioned :=
    names.net?_eq_none.mp (g.net?_freshName "abc_reset_latch_data")
  have output : (resetSignals g).output ∉ mentioned ++ [(resetSignals g).data] :=
    (names.withCell (resetNode g)).net?_eq_none.mp
      ((g.withCell (resetNode g)).net?_freshName "abc_reset_latch")
  rw [List.mem_append, List.mem_singleton, not_or] at output
  exact ⟨data, output.1, Ne.symm output.2⟩

theorem eraseDups_append_all {mentioned : List String} {x : ResetSignals} (data : x.data ∉ mentioned)
    (output : x.output ∉ mentioned) (ne : x.data ≠ x.output) :
    (mentioned ++ [x.data] ++ [x.data, x.output]).eraseDups = mentioned.eraseDups ++ x.all := by
  rw [List.append_assoc, List.eraseDups_append]
  have others : ([x.data] ++ [x.data, x.output]).removeAll mentioned = [x.data, x.data, x.output] := by
    simp [List.removeAll, data, output]
  rw [others]
  simp [List.eraseDups_cons, ResetSignals.all, Ne.symm ne]

/-- The graph of the declarations, before anything is added for resets. -/
def Definition.ownGraph (d : Definition) : Graph := ({} : Graph).withCells (cells d.model d.body)

theorem Definition.ownGraph_wired (d : Definition) :
    ∃ placed, placed.map Prod.snd = cells d.model d.body ∧ d.ownGraph.Wired placed := by
  obtain ⟨placed, same, wired⟩ := Graph.wired_empty.withCells (cells_solid d.model d.body)
  rw [List.nil_append] at wired
  exact ⟨placed, same, wired⟩

theorem Definition.ownGraph_mentions (d : Definition) : d.ownGraph.Mentions d.signals := by
  have names := Graph.mentions_empty.withCells (cells d.model d.body)
  rw [List.nil_append, flatMap_signals_cells] at names
  exact names

theorem Definition.laid_of_no_resets {d : Definition} (resetFree : d.body.resets = []) :
    ∃ placed, d.Laid none placed d.built.graph := by
  obtain ⟨placed, same, wired⟩ := d.ownGraph_wired
  have whole : d.built.graph = d.ownGraph := by simp [built, modelGraph, resetFree, ownGraph]
  rw [whole]
  refine ⟨placed, ⟨by simp [resetFree], by simp, by simp, by simp⟩, by simpa using same, wired, ?_⟩
  rw [Option.toList_none, List.flatMap_nil, List.append_nil]
  exact d.ownGraph_mentions

theorem Definition.laid_of_resets {d : Definition} (resets : d.body.resets ≠ []) :
    ∃ placed, placed.map Prod.snd = cells d.model d.body ∧
      d.Laid (some (resetSignals d.ownGraph)) (placed ++ [(d.ownGraph.next, resetNode d.ownGraph)] ++
        [(resetLatchId d.ownGraph, resetLatch d.ownGraph)]) d.built.graph := by
  obtain ⟨placed, same, wired⟩ := d.ownGraph_wired
  have names := d.ownGraph_mentions
  have whole : d.built.graph = withResetLatch d.ownGraph := by
    simp [built, modelGraph, resets, ownGraph]
  rw [whole]
  generalize d.ownGraph = g at wired names
  obtain ⟨data, output, ne⟩ := resetSignals_fresh names
  have wired := (wired.withCell (resetNode_solid g)).withCell (resetLatch_solid g)
  have names := (names.withCell (resetNode g)).withCell (resetLatch g)
  refine ⟨placed, same, ⟨by simp [resets], ?_, ?_, ?_⟩, ?_, wired, ?_⟩
  · simpa using data
  · simpa using output
  · simpa using ne
  · simp [same, resetSignals_cells]
  · have all := eraseDups_append_all data output ne
    rw [Option.toList_some, List.flatMap_singleton, ← all]
    exact names

theorem Definition.built_laid (d : Definition) : ∃ x placed, d.Laid x placed d.built.graph := by
  by_cases resets : d.body.resets = []
  · exact ⟨_, laid_of_no_resets resets⟩
  · obtain ⟨placed, -, laid⟩ := laid_of_resets resets
    exact ⟨_, _, laid⟩

/-! ### Reading the graph off -/

def Definition.cellsOf (d : Definition) (x : Option ResetSignals) : Kind → List Cell
  | .input => d.model.inputs.map .input
  | .output => d.model.outputs.map .output
  | .net => []
  | .node =>
    (d.body.tables ++ x.toList.map ResetSignals.table).map fun t => .node t.inputs t.output t.rows
  | .latch =>
    (resetLatches d.body.resets d.body.latches ++ x.toList.map ResetSignals.latch).map .latch
  | .box => d.body.subcircuits.map .box

theorem filter_cells (d : Definition) (x : Option ResetSignals) (k : Kind) :
    (cells d.model d.body ++ x.toList.flatMap ResetSignals.cells).filter (·.kind = k) =
      d.cellsOf x k := by
  cases k <;> cases x <;>
    simp [Definition.cellsOf, cells, ResetSignals.cells, List.filter_map, Function.comp_def, Cell.input,
      Cell.output, Cell.node, Cell.latch, Cell.box]

theorem checkResets_eq_ok {b : Body} {u : Unit} :
    b.checkResets = .ok u ↔ ∀ r ∈ b.resets, ∃ l ∈ b.latches, l.output = r.latch := by
  have refused (r : Reset) : b.latches.all (·.output ≠ r.latch) = true ↔
      ¬ ∃ l ∈ b.latches, l.output = r.latch := by
    simp
  unfold Body.checkResets
  split
  next r found =>
    have unknown := (refused r).mp (by simpa using List.find?_some found)
    constructor
    · intro impossible
      cases impossible
    · intro named
      exact absurd (named r (List.mem_of_find?_eq_some found)) unknown
  next none =>
    constructor
    · intro _ r member
      by_contra unknown
      exact List.find?_eq_none.mp none r member (by simpa using (refused r).mpr unknown)
    · intro _
      rfl

def Shows (g : Graph) (entry : ObjectId × Object) (c : Cell) : Prop :=
  entry.2.name = c.name ∧ entry.2.payload = c.payload ∧ g.Wires entry.2 c.reads c.drives

namespace Definition.Laid

variable {placed : List (ObjectId × Cell)}

theorem carries (laid : d.Laid x placed g) :
    List.Forall₂ g.Carries (g.ofKind .net)
      (d.signals.eraseDups ++ x.toList.flatMap ResetSignals.all) := by
  rw [laid.wired.nets, ← laid.names, List.forall₂_map_left_iff, List.forall₂_map_right_iff,
    List.forall₂_same]
  intro n member
  have found := laid.wired.mem_nets_iff.mp member
  obtain ⟨fanins, fanouts⟩ := laid.wired.mirrored found
  exact ⟨found, rfl, rfl, fanins, fanouts⟩

theorem shows (laid : d.Laid x placed g) {k : Kind} (solid : k ≠ .net) :
    List.Forall₂ (Shows g) (g.ofKind k) (d.cellsOf x k) := by
  rw [laid.wired.ofKind_eq solid, ← filter_cells, ← laid.cells, List.filter_map,
    List.forall₂_map_left_iff, List.forall₂_map_right_iff, Function.comp_def, List.forall₂_same]
  intro p member
  exact ⟨rfl, rfl, Cell.wires (laid.wired.known p (List.mem_filter.mp member).1)⟩

theorem describes (laid : d.Laid x placed g) : d.Describes x g := by
  have latches := List.forall₂_map_right_iff.mp (laid.shows (k := .latch) (by decide))
  refine
    { nets := laid.carries
      inputs := List.forall₂_map_right_iff.mp (laid.shows (k := .input) (by decide))
      outputs := List.forall₂_map_right_iff.mp (laid.shows (k := .output) (by decide))
      nodes := List.forall₂_map_right_iff.mp (laid.shows (k := .node) (by decide))
      latches := ?_
      inits := ?_
      boxes := List.forall₂_map_right_iff.mp (laid.shows (k := .box) (by decide)) }
  · -- Resets change the initial values only, so the latches may be told by their ports.
    let Between (p : ObjectId × Object) (ports : String × String) : Prop :=
      p.2.name = some ports.2 ∧ g.Wires p.2 [ports.1] [ports.2]
    have ports : List.Forall₂ Between (g.ofKind .latch)
        ((d.body.latches ++ x.toList.map ResetSignals.latch).map fun l => (l.input, l.output)) := by
      rw [List.map_append, ← resetLatches_ports d.body.resets, ← List.map_append,
        List.forall₂_map_right_iff]
      exact latches.imp fun _ _ shown => ⟨shown.1, shown.2.2⟩
    exact List.forall₂_map_right_iff.mp ports
  · rw [← List.forall₂_eq_eq_eq, List.forall₂_map_left_iff, List.forall₂_map_right_iff]
    refine latches.imp fun p l shown => ?_
    simp [Object.latchInit?, shown.2.1, Cell.latch]

end Definition.Laid

/-- Lowering succeeds exactly if every reset names the output of a latch. The graph is then what the
definition describes, with two more signals if there is a reset. -/
theorem lower_exact (d : Definition) :
    ((∃ lowered, d.lower = .ok lowered) ↔
        ∀ r ∈ d.body.resets, ∃ l ∈ d.body.latches, l.output = r.latch) ∧
      ∀ c latch, d.lower = .ok (c, latch) → ∃ x, d.Extends x ∧ d.Describes x c.graph := by
  constructor
  · rw [d.lower_eq]
    constructor
    · rintro ⟨lowered, succeeded⟩
      obtain ⟨_, checked, -⟩ := Outcome.bind_eq_ok.mp succeeded
      exact checkResets_eq_ok.mp (Outcome.mapError_eq_ok.mp checked)
    · intro named
      have checked : d.body.checkResets = .ok () := checkResets_eq_ok.mpr named
      exact ⟨_, Outcome.bind_eq_ok.mpr ⟨(), Outcome.mapError_eq_ok.mpr checked, rfl⟩⟩
  · intro c latch lowered
    rw [d.lower_eq] at lowered
    obtain ⟨_, -, whole⟩ := Outcome.bind_eq_ok.mp lowered
    obtain ⟨rfl, -⟩ := Prod.mk.inj (Except.ok.inj whole)
    obtain ⟨x, placed, laid⟩ := d.built_laid
    exact ⟨x, laid.additional, laid.describes⟩

end Blif

end Netlist
