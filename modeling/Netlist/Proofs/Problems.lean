import Netlist.Proofs.Wiring

/-!
# What the check finds in a wired graph

A wired graph of cells that have what their kinds demand is well formed but for one thing: a net can
have several drivers. So the check reports such nets, in order, and nothing else.
-/

namespace Netlist

open Blif (Cell Model Body)

namespace Graph

variable {g : Graph} {id net : ObjectId} {o : Object} {signal : String} {c : Cell}
  {placed : List (ObjectId × Cell)}

/-! ### Counters -/

structure Counted (g : Graph) : Prop where
  tally : ∀ k, g.tally.of k = g.count k
  live : g.live = g.objects.size

theorem count_eq (g : Graph) (k : Kind) : g.count k = g.bare.countP (·.kind = k) := by
  rw [count, bare, List.countP_map]
  rfl

theorem counted_empty : Counted {} := by
  refine ⟨fun k => ?_, rfl⟩
  cases k <;> rfl

theorem Counted.add (counted : g.Counted) (kind name payload) : (g.add kind name payload).Counted where
  tally := by
    intro k
    rw [count_eq, bare_add, List.countP_append, ← count_eq, ← counted.tally]
    simp [Graph.add, Tally.of_increment]
  live := by
    rw [size_add, ← counted.live]
    rfl

theorem Counted.findOrAddNet (counted : g.Counted) (signal : String) :
    (g.findOrAddNet signal).2.Counted := by
  unfold Graph.findOrAddNet
  split
  · exact counted
  · obtain ⟨tally, live⟩ := counted.add .net (some signal) .none
    exact ⟨tally, live⟩

theorem Counted.link (counted : g.Counted) (driver sink : ObjectId) : (g.link driver sink).Counted where
  tally := by
    intro k
    rw [count_eq, bare_link, ← count_eq, ← counted.tally]
    rfl
  live := by
    rw [size_link, ← counted.live]
    rfl

theorem Counted.withCell (counted : g.Counted) (c : Cell) : (g.withCell c).Counted := by
  have readings (id) (signals : List String) {g : Graph} (counted : g.Counted) :
      (signals.foldl (reading id) g).Counted := by
    induction signals generalizing g with
    | nil => exact counted
    | cons signal signals ih => exact ih ((counted.findOrAddNet signal).link _ id)
  have drivings (id) (signals : List String) {g : Graph} (counted : g.Counted) :
      (signals.foldl (driving id) g).Counted := by
    induction signals generalizing g with
    | nil => exact counted
    | cons signal signals ih => exact ih ((counted.findOrAddNet signal).link id _)
  exact drivings g.next c.drives (readings g.next c.reads (counted.add c.kind c.name c.payload))

theorem Counted.withCells (counted : g.Counted) (cs : List Cell) : (g.withCells cs).Counted := by
  induction cs generalizing g with
  | nil => exact counted
  | cons c cs ih => exact ih (counted.withCell c)

theorem counted_modelGraph (m : Model) (b : Body) : (Blif.modelGraph m b).Counted := by
  have placed := counted_empty.withCells (Blif.cells m b)
  unfold Blif.modelGraph
  split
  · exact placed
  · exact (placed.withCell _).withCell _

theorem Counted.countProblems_eq_nil (counted : g.Counted) : g.countProblems = [] := by
  simp [countProblems, counted.tally, counted.live]

/-! ### Edges -/

theorem faninProblems_eq_nil (mirrored : ∀ fanin ∈ o.fanins, ∃ driver, g.get? fanin = some driver ∧
    o.fanins.count fanin = driver.fanouts.count id) : g.faninProblems id o = [] := by
  rw [faninProblems, List.filterMap_eq_nil_iff]
  intro fanin member
  obtain ⟨driver, found, same⟩ := mirrored fanin member
  simp [found, same]

theorem fanoutProblems_eq_nil (mirrored : ∀ fanout ∈ o.fanouts, ∃ sink, g.get? fanout = some sink ∧
    o.fanouts.count fanout = sink.fanins.count id) : g.fanoutProblems id o = [] := by
  rw [fanoutProblems, List.filterMap_eq_nil_iff]
  intro fanout member
  obtain ⟨sink, found, same⟩ := mirrored fanout member
  simp [found, same]

theorem length_bearers (side : Cell → List String) (placed : List (ObjectId × Cell)) (signal : String) :
    (bearers side placed signal).length = ((placed.map Prod.snd).flatMap side).count signal := by
  simp [bearers, List.length_flatMap, List.count_flatMap, Function.comp_def]

namespace Wired

/-- A cell stands among the bearers of a signal as often as the signal stands in the cell. -/
theorem count_bearers (wired : g.Wired placed) (member : (id, c) ∈ placed)
    (side : Cell → List String) (signal : String) :
    (bearers side placed signal).count id = (side c).count signal := by
  have distinct : (placed.map Prod.fst).Nodup := by
    rw [List.nodup_iff_pairwise_ne, List.pairwise_map]
    refine wired.cells_increasing.imp fun before same => ?_
    rw [same] at before
    exact Nat.lt_irrefl _ before
  obtain ⟨before, after, rfl⟩ := List.append_of_mem member
  rw [List.map_append, List.map_cons, List.nodup_middle, List.nodup_cons, ← List.map_append] at distinct
  have elsewhere (others : List (ObjectId × Cell))
      (part : ∀ p ∈ others, p.1 ∈ (before ++ after).map Prod.fst) :
      (bearers side others signal).count id = 0 := by
    rw [List.count_eq_zero]
    intro inside
    obtain ⟨p, present, inside⟩ := List.mem_flatMap.mp inside
    rw [List.eq_of_mem_replicate inside] at distinct
    exact distinct.1 (part p present)
  have whole : bearers side (before ++ (id, c) :: after) signal =
      bearers side before signal ++
        (List.replicate ((side c).count signal) id ++ bearers side after signal) := by
    simp [bearers]
  rw [whole, List.count_append, List.count_append, List.count_replicate_self,
    elsewhere before fun p present => List.mem_map_of_mem (List.mem_append_left _ present),
    elsewhere after fun p present => List.mem_map_of_mem (List.mem_append_right _ present),
    Nat.zero_add, Nat.add_zero]

/-- The fan-ins and the fan-outs of a cell list it in turn. -/
theorem edges_cell (wired : g.Wired placed) (member : (id, c) ∈ placed) :
    g.faninProblems id (c.wired g) = [] ∧ g.fanoutProblems id (c.wired g) = [] := by
  constructor
  · refine faninProblems_eq_nil fun net inside => ?_
    obtain ⟨signal, -, found⟩ := List.mem_filterMap.mp inside
    refine ⟨_, wired.get?_net (wired.mem_nets_iff.mpr found), ?_⟩
    exact (wired.count_nets found c.reads).trans (wired.count_bearers member Cell.reads signal).symm
  · refine fanoutProblems_eq_nil fun net inside => ?_
    obtain ⟨signal, -, found⟩ := List.mem_filterMap.mp inside
    refine ⟨_, wired.get?_net (wired.mem_nets_iff.mpr found), ?_⟩
    exact (wired.count_nets found c.drives).trans (wired.count_bearers member Cell.drives signal).symm

/-- The fan-ins and the fan-outs of a net list it in turn. -/
theorem edges_net (wired : g.Wired placed) (registered : (signal, net) ∈ g.nets) :
    g.faninProblems net (netObject placed signal) = [] ∧
      g.fanoutProblems net (netObject placed signal) = [] := by
  have found := wired.mem_nets_iff.mp registered
  have cell_of_mem {side : Cell → List String} {id} (inside : id ∈ bearers side placed signal) :
      ∃ c, (id, c) ∈ placed := by
    obtain ⟨p, present, inside⟩ := List.mem_flatMap.mp inside
    rw [List.eq_of_mem_replicate inside]
    exact ⟨p.2, present⟩
  constructor
  · refine faninProblems_eq_nil fun id inside => ?_
    obtain ⟨c, present⟩ := cell_of_mem inside
    refine ⟨_, (wired.get?_cell present).1, ?_⟩
    exact (wired.count_bearers present Cell.drives signal).trans (wired.count_nets found c.drives).symm
  · refine fanoutProblems_eq_nil fun id inside => ?_
    obtain ⟨c, present⟩ := cell_of_mem inside
    refine ⟨_, (wired.get?_cell present).1, ?_⟩
    exact (wired.count_bearers present Cell.reads signal).trans (wired.count_nets found c.reads).symm

theorem netProblems_eq_nil (wired : g.Wired placed) (id : ObjectId) (signals : List String) :
    g.netProblems id (signals.filterMap g.net?) = [] := by
  rw [netProblems, List.filterMap_eq_nil_iff]
  intro net inside
  obtain ⟨signal, -, found⟩ := List.mem_filterMap.mp inside
  simp [wired.get?_net (wired.mem_nets_iff.mpr found), netObject]

end Wired

end Graph

/-! ### Kinds -/

/-- The cell has the signals and the data that its kind demands. -/
def Blif.Cell.Sound (c : Cell) : Prop :=
  match c.kind with
  | .input => c.reads = [] ∧ c.drives.length = 1
  | .output => c.reads.length = 1 ∧ c.drives = []
  | .net => False
  | .node => c.drives.length = 1 ∧
    ∃ rows, c.payload = .cover rows ∧ ∀ row ∈ rows, rowFits c.reads.length row
  | .latch => c.reads.length = 1 ∧ c.drives.length = 1 ∧ ∃ init, c.payload = .latch init
  | .box => ∃ target, c.payload = .uses target ∧
    target.inputs.length = c.reads.length ∧ target.outputs.length = c.drives.length

namespace Graph.Wired

variable {g : Graph} {id net : ObjectId} {o : Object} {signal : String} {c : Cell}
  {placed : List (ObjectId × Cell)}

theorem length_nets (wired : g.Wired placed) (member : (id, c) ∈ placed) :
    (c.wired g).fanins.length = c.reads.length ∧ (c.wired g).fanouts.length = c.drives.length := by
  obtain ⟨fanins, fanouts⟩ := Cell.wires (wired.known _ member)
  constructor
  · simpa using congrArg List.length fanins
  · simpa using congrArg List.length fanouts

theorem kind_cell (wired : g.Wired placed) (member : (id, c) ∈ placed) (sound : c.Sound) :
    g.kindProblems id (c.wired g) = [] := by
  obtain ⟨fanins, fanouts⟩ := wired.length_nets member
  have reads : g.netProblems id (c.wired g).fanins = [] := wired.netProblems_eq_nil id c.reads
  have drives : g.netProblems id (c.wired g).fanouts = [] := wired.netProblems_eq_nil id c.drives
  have payload : (c.wired g).payload = c.payload := rfl
  unfold Cell.Sound at sound
  have sameKind : (c.wired g).kind = c.kind := rfl
  rw [kindProblems, sameKind]
  cases kind : c.kind <;> simp only [kind] at sound ⊢
  case input =>
    obtain ⟨noReads, one⟩ := sound
    have none : (c.wired g).fanins = [] := List.length_eq_zero_iff.mp (by rw [fanins, noReads]; rfl)
    simp [demand, none, fanouts, one, drives]
  case output =>
    obtain ⟨one, noDrives⟩ := sound
    have none : (c.wired g).fanouts = [] := List.length_eq_zero_iff.mp (by rw [fanouts, noDrives]; rfl)
    simp [demand, none, fanins, one, reads]
  case node =>
    obtain ⟨one, rows, cover, fit⟩ := sound
    have rowsFit : rows.filter (!rowFits c.reads.length ·) = [] := by
      rw [List.filter_eq_nil_iff]
      intro row member
      simp [fit row member]
    simp [drivesOneNet, coverProblems, payload, cover, fanins, fanouts, one, reads, drives, rowsFit]
  case latch =>
    obtain ⟨oneRead, oneDrive, init, latch⟩ := sound
    simp [demand, drivesOneNet, Object.latchInit?, payload, latch, fanins, fanouts, oneRead, oneDrive,
      reads, drives]
  case box =>
    obtain ⟨target, uses, inputs, outputs⟩ := sound
    simp [instanceProblems, payload, uses, fanins, fanouts, inputs, outputs, reads, drives]

/-! ### Names -/

theorem nameProblems_eq_nil (wired : g.Wired placed) : g.nameProblems = [] := by
  rw [nameProblems, List.append_eq_nil_iff]
  constructor
  · rw [List.map_eq_nil_iff, List.filter_eq_nil_iff]
    intro n member
    simp [isNetNamed, wired.get?_net member, netObject]
  · rw [wired.nets, List.map_eq_nil_iff, List.filter_eq_nil_iff]
    intro p member
    obtain ⟨n, registered, rfl⟩ := List.mem_map.mp member
    simp [isRegistered, netObject, wired.mem_nets_iff.mp registered]

/-! ### The graph as a whole -/

theorem flatMap_ite_singleton {α β : Type} (p : α → Prop) [DecidablePred p] (f : α → β) (l : List α) :
    (l.flatMap fun a => if p a then [f a] else []) = (l.filter p).map f := by
  induction l with
  | nil => rfl
  | cons a l ih => by_cases holds : p a <;> simp [holds, ih]

/-- Of a wired graph of sound cells only nets with several drivers are reported. -/
theorem problems_eq (wired : g.Wired placed) (counted : g.Counted) (sound : ∀ p ∈ placed, p.2.Sound) :
    g.problems = (g.nets.filter fun n => 1 < (bearers Cell.drives placed n.1).length).map
      fun n => .multipleDrivers n.2 (bearers Cell.drives placed n.1) := by
  have parts : g.problems = g.countProblems ++
      g.entries.flatMap (fun p => g.objectProblems p.1 p.2) ++ g.nameProblems := rfl
  have nets : g.entries.flatMap (fun p => g.objectProblems p.1 p.2) =
      (g.ofKind .net).flatMap fun p => g.objectProblems p.1 p.2 := by
    refine (flatMap_filter_of_eq_nil fun p member isCell => ?_).symm
    have solid : p ∈ g.solids := List.mem_filter.mpr ⟨member, by simpa using isCell⟩
    rw [wired.cells] at solid
    obtain ⟨q, present, rfl⟩ := List.mem_map.mp solid
    obtain ⟨fanins, fanouts⟩ := wired.edges_cell present
    simp [objectProblems, fanins, fanouts, wired.kind_cell present (sound q present)]
  have each (n) (registered : n ∈ g.nets) :
      g.objectProblems n.2 (netObject placed n.1) =
        if 1 < (bearers Cell.drives placed n.1).length then
          [.multipleDrivers n.2 (bearers Cell.drives placed n.1)]
        else [] := by
    obtain ⟨fanins, fanouts⟩ := wired.edges_net registered
    rw [objectProblems, fanins, fanouts]
    by_cases several : 1 < (bearers Cell.drives placed n.1).length
    · simp [kindProblems, netObject, demand, several, Nat.not_le.mpr several]
    · simp [kindProblems, netObject, demand, several, Nat.le_of_not_lt several]
  rw [parts, counted.countProblems_eq_nil, wired.nameProblems_eq_nil, nets, wired.nets,
    List.nil_append, List.append_nil, List.flatMap_map, List.flatMap_congr each,
    flatMap_ite_singleton]

theorem undriven_eq (wired : g.Wired placed) :
    g.undriven =
      (g.nets.filter fun n => (bearers Cell.drives placed n.1).length = 0).map (·.2) := by
  rw [undriven, wired.nets, List.filter_map, List.map_map]
  refine congrArg _ (List.filter_congr fun n _ => ?_)
  rw [Function.comp_apply, netObject]
  cases bearers Cell.drives placed n.1 <;> rfl

theorem describe_net (wired : g.Wired placed) (registered : (signal, net) ∈ g.nets) :
    g.describe net = "net " ++ Text.inQuotes signal := by
  simp only [describe, wired.get?_net registered, netObject]
  rfl

end Graph.Wired

theorem message_multipleDrivers (g : Graph) (net : ObjectId) (drivers : List ObjectId) :
    (Problem.multipleDrivers net drivers).message g =
      g.describe net ++ " has multiple drivers: " ++ ", ".intercalate (drivers.map g.describe) := rfl

theorem Circuit.check_eq_error {c : Circuit} {e : Inconsistency} : c.check.outcome = .error e ↔
    c.graph.problems ≠ [] ∧ e = ⟨c.name, c.graph.problems.map (·.message c.graph)⟩ := by
  unfold check
  dsimp only
  split
  next none => simp [none]
  next some =>
    constructor
    · intro failed
      exact ⟨some, (Except.error.inj failed).symm⟩
    · rintro ⟨-, rfl⟩
      rfl

def Graph.drivers (g : Graph) (signal : String) : List ObjectId :=
  ((g.net? signal).bind g.get?).elim [] (·.fanins)

theorem Graph.Wired.drivers_eq {g : Graph} {placed : List (ObjectId × Cell)} {n : String × ObjectId}
    (wired : g.Wired placed) (registered : n ∈ g.nets) :
    g.drivers n.1 = bearers Cell.drives placed n.1 := by
  simp [drivers, wired.mem_nets_iff.mp registered, wired.get?_net registered, netObject]

end Netlist
