import Netlist.Blif.Lowering
import Netlist.Proofs.Change
import Mathlib.Data.List.Basic

/-!
# Placing cells without violations

Placing a cell is a change of a graph, which for a regular graph never meets a violation and so is a
plain function of the graph. Of the objects that are no nets it adds the cell alone, after those that
were there, and it leaves the data of all others as they were.
-/

namespace Netlist

/-- The object without its neighbours. -/
def Object.bare (o : Object) : Object := { o with fanins := [], fanouts := [] }

@[simp] theorem Object.instance?_bare (o : Object) : o.bare.instance? = o.instance? := rfl

namespace Graph

def link (g : Graph) (driver sink : ObjectId) : Graph :=
  { g with
    objects := (g.objects.modify driver.index fun o => { o with fanouts := o.fanouts ++ [sink] }).modify
      sink.index fun o => { o with fanins := o.fanins ++ [driver] } }

def reading (id : ObjectId) (g : Graph) (signal : String) : Graph :=
  (g.findOrAddNet signal).2.link (g.findOrAddNet signal).1 id

def driving (id : ObjectId) (g : Graph) (signal : String) : Graph :=
  (g.findOrAddNet signal).2.link id (g.findOrAddNet signal).1

def bare (g : Graph) : List Object := g.objects.toList.map Object.bare

theorem bare_modify {f : Object → Object} (keeps : ∀ o, (f o).bare = o.bare) (objects : Array Object)
    (i : Nat) : (objects.modify i f).toList.map Object.bare = objects.toList.map Object.bare := by
  apply List.ext_getElem?
  intro j
  simp only [List.getElem?_map, Array.getElem?_toList, Array.getElem?_modify]
  split
  · simp [Function.comp_def, keeps]
  · rfl

@[simp] theorem bare_link (g : Graph) (driver sink : ObjectId) : (g.link driver sink).bare = g.bare := by
  simp only [bare, link]
  rw [bare_modify, bare_modify]
  · intro o; rfl
  · intro o; rfl

@[simp] theorem bare_add (g : Graph) (kind name payload) :
    (g.add kind name payload).bare = g.bare ++ [{ kind := kind, name := name, payload := payload }] := by
  simp [bare, add, Object.bare]

/-- Every registered net exists, and nets carry no data. -/
structure Regular (g : Graph) : Prop where
  registered : ∀ name id, (name, id) ∈ g.nets → id.index < g.objects.size
  plain : ∀ o ∈ g.bare, o.kind = .net → o.payload = .none

theorem regular_empty : Regular {} := ⟨by simp, by simp [bare]⟩

theorem update_yields {g : Graph} {id : ObjectId} (f : Object → Object)
    (inside : id.index < g.objects.size) :
    Yields (update id f) g () { g with objects := g.objects.modify id.index f } := by
  refine (yields_get g).andThen ?_
  simp only [inside, if_true]
  exact yields_modify _ g

theorem connect_yields {g : Graph} {driver sink : ObjectId} (driver_inside : driver.index < g.objects.size)
    (sink_inside : sink.index < g.objects.size) :
    Yields (connect driver sink) g () (g.link driver sink) := by
  refine (update_yields _ driver_inside).andThen (update_yields _ ?_)
  simpa using sink_inside

@[simp] theorem size_add (g : Graph) (kind name payload) :
    (g.add kind name payload).objects.size = g.objects.size + 1 := by simp [add]

@[simp] theorem size_link (g : Graph) (driver sink) :
    (g.link driver sink).objects.size = g.objects.size := by simp [link]

theorem Regular.add {g : Graph} (regular : g.Regular) {kind : Kind} {payload : Payload} (name)
    (fits : kind = .net → payload = .none) : (g.add kind name payload).Regular where
  registered := by
    intro n id member
    have := regular.registered n id member
    simp only [size_add]
    omega
  plain := by
    intro o member isNet
    rw [bare_add, List.mem_append, List.mem_singleton] at member
    rcases member with old | rfl
    · exact regular.plain o old isNet
    · exact fits isNet

theorem Regular.link {g : Graph} (regular : g.Regular) (driver sink : ObjectId) :
    (g.link driver sink).Regular where
  registered := by
    intro name id member
    simpa using regular.registered name id member
  plain := by
    rw [bare_link]
    exact regular.plain

/-- The net that is found or added exists, in a graph that is regular and no smaller. -/
theorem Regular.findOrAddNet {g : Graph} (regular : g.Regular) (signal : String) :
    (g.findOrAddNet signal).2.Regular ∧
      (g.findOrAddNet signal).1.index < (g.findOrAddNet signal).2.objects.size ∧
      g.objects.size ≤ (g.findOrAddNet signal).2.objects.size := by
  unfold Graph.findOrAddNet
  split
  next id found =>
    obtain ⟨before, after, split, -⟩ := List.lookup_eq_some_iff.mp found
    have member : (signal, id) ∈ g.nets := by simp [split]
    exact ⟨regular, regular.registered signal id member, Nat.le_refl _⟩
  next =>
    have grown : (g.add .net (some signal) .none).Regular := regular.add _ fun _ => rfl
    refine ⟨⟨?_, grown.plain⟩, by simp [next], by simp⟩
    intro name id member
    rcases List.mem_append.mp member with old | new
    · exact grown.registered name id old
    · obtain ⟨rfl, rfl⟩ : name = signal ∧ id = g.next := by simpa using new
      simp [next]

/-- What the edges of a cell at `id` rely on. -/
def Holds (id : ObjectId) (g : Graph) : Prop := g.Regular ∧ id.index < g.objects.size

theorem reading_yields {g : Graph} {id : ObjectId} (holds : Holds id g) (signal : String) :
    Yields (do let net ← modifyGet (·.findOrAddNet signal); connect net id) g ()
      (g.reading id signal) ∧ Holds id (g.reading id signal) := by
  obtain ⟨regular, net_inside, grown⟩ := holds.1.findOrAddNet signal
  have inside := Nat.lt_of_lt_of_le holds.2 grown
  refine ⟨(yields_modifyGet _ g).andThen (connect_yields net_inside inside), regular.link _ _, ?_⟩
  simpa [reading] using inside

theorem driving_yields {g : Graph} {id : ObjectId} (holds : Holds id g) (signal : String) :
    Yields (do let net ← modifyGet (·.findOrAddNet signal); connect id net) g ()
      (g.driving id signal) ∧ Holds id (g.driving id signal) := by
  obtain ⟨regular, net_inside, grown⟩ := holds.1.findOrAddNet signal
  have inside := Nat.lt_of_lt_of_le holds.2 grown
  refine ⟨(yields_modifyGet _ g).andThen (connect_yields inside net_inside), regular.link _ _, ?_⟩
  simpa [driving] using inside

def parts (g : Graph) : List Object := g.bare.filter (·.kind ≠ .net)

@[simp] theorem parts_link (g : Graph) (driver sink : ObjectId) : (g.link driver sink).parts = g.parts := by
  simp [parts]

@[simp] theorem parts_findOrAddNet (g : Graph) (signal : String) :
    (g.findOrAddNet signal).2.parts = g.parts := by
  unfold findOrAddNet
  split
  · rfl
  · have grown := bare_add g .net (some signal) .none
    simp only [bare] at grown
    simp [parts, bare, grown]

theorem parts_add (g : Graph) {kind : Kind} (name payload) (solid : kind ≠ .net) :
    (g.add kind name payload).parts = g.parts ++ [{ kind := kind, name := name, payload := payload }] := by
  simp [parts, solid]

theorem exists_of_mem_parts {g : Graph} {part : Object} (member : part ∈ g.parts) :
    ∃ o ∈ g.objects, o.bare = part := by
  have bare := (List.mem_filter.mp member).1
  obtain ⟨o, present, same⟩ := List.mem_map.mp bare
  exact ⟨o, Array.mem_toList_iff.mp present, same⟩

/-- Nets carry no data, so the instances are those of the other objects. -/
theorem Regular.instances_eq {g : Graph} (regular : g.Regular) :
    g.instances = g.parts.filterMap Object.instance? := by
  have whole : g.instances = g.bare.filterMap Object.instance? := by
    simp [instances, bare, List.filterMap_map, Function.comp_def]
  rw [whole, parts, List.filterMap_filter]
  apply List.filterMap_congr
  intro o member
  by_cases isNet : o.kind = .net
  · simp [isNet, Object.instance?, regular.plain o member isNet]
  · simp [isNet]

def withCell (g : Graph) (c : Blif.Cell) : Graph :=
  c.drives.foldl (driving g.next) (c.reads.foldl (reading g.next) (g.add c.kind c.name c.payload))

def withCells (g : Graph) (cs : List Blif.Cell) : Graph := cs.foldl withCell g

end Graph

namespace Blif

open Netlist.Graph

def Cell.object (c : Cell) : Object := { kind := c.kind, name := c.name, payload := c.payload }

/-- Nets are placed for signals only, never as cells. -/
def Cell.Solid (c : Cell) : Prop := c.kind ≠ .net

theorem place_yields {g : Graph} (regular : g.Regular) {c : Cell} (solid : c.Solid) :
    Yields c.place g g.next (g.withCell c) ∧ (g.withCell c).Regular := by
  have start : Holds g.next (g.add c.kind c.name c.payload) :=
    ⟨regular.add c.name fun isNet => absurd isNet solid, by simp [next]⟩
  obtain ⟨read, after⟩ := yields_forM (fun _ signal holds => reading_yields holds signal) c.reads start
  obtain ⟨driven, done⟩ := yields_forM (fun _ signal holds => driving_yields holds signal) c.drives after
  refine ⟨?_, done.1⟩
  refine (yields_get g).andThen ((yields_modify _ g).andThen ?_)
  exact read.andThen (driven.andThen (yields_pure g.next _))

theorem parts_reads (id : ObjectId) (signals : List String) (g : Graph) :
    (signals.foldl (reading id) g).parts = g.parts := by
  induction signals generalizing g with
  | nil => rfl
  | cons signal signals ih => simp [ih, reading]

theorem parts_drives (id : ObjectId) (signals : List String) (g : Graph) :
    (signals.foldl (driving id) g).parts = g.parts := by
  induction signals generalizing g with
  | nil => rfl
  | cons signal signals ih => simp [ih, driving]

theorem parts_withCell (g : Graph) {c : Cell} (solid : c.Solid) :
    (g.withCell c).parts = g.parts ++ [c.object] := by
  rw [withCell, parts_drives, parts_reads, parts_add g c.name c.payload solid]
  rfl

theorem withCells_yields {g : Graph} (regular : g.Regular) {cs : List Cell}
    (solid : ∀ c ∈ cs, c.Solid) :
    Yields (cs.forM fun c => discard c.place) g () (g.withCells cs) ∧ (g.withCells cs).Regular := by
  induction cs generalizing g with
  | nil => exact ⟨rfl, regular⟩
  | cons c cs ih =>
    obtain ⟨first, between⟩ := place_yields regular (solid c List.mem_cons_self)
    obtain ⟨rest, done⟩ := ih between fun c member => solid c (List.mem_cons_of_mem _ member)
    exact ⟨(first.andThen (yields_pure () _)).andThen rest, done⟩

theorem parts_withCells (g : Graph) {cs : List Cell} (solid : ∀ c ∈ cs, c.Solid) :
    (g.withCells cs).parts = g.parts ++ cs.map Cell.object := by
  induction cs generalizing g with
  | nil => simp [withCells]
  | cons c cs ih =>
    have first := parts_withCell g (solid c List.mem_cons_self)
    have rest := ih (g.withCell c) fun c member => solid c (List.mem_cons_of_mem _ member)
    simp only [withCells, List.foldl_cons] at rest ⊢
    simp [rest, first]

theorem cells_solid (m : Model) (b : Body) : ∀ c ∈ cells m b, c.Solid := by
  intro c member
  simp only [cells, List.mem_append, List.mem_map] at member
  rcases member with (((⟨_, _, rfl⟩ | ⟨_, _, rfl⟩) | ⟨_, _, rfl⟩) | ⟨_, _, rfl⟩) | ⟨_, _, rfl⟩
  all_goals exact Kind.noConfusion

def resetNode (g : Graph) : Cell := .node [] (freshName g "abc_reset_latch_data") ["0"]

def resetLatch (g : Graph) : Cell :=
  .latch {
    input := freshName g "abc_reset_latch_data"
    output := freshName (g.withCell (resetNode g)) "abc_reset_latch"
    init := .one }

theorem resetNode_solid (g : Graph) : (resetNode g).Solid := Kind.noConfusion

theorem resetLatch_solid (g : Graph) : (resetLatch g).Solid := Kind.noConfusion

def withResetLatch (g : Graph) : Graph := (g.withCell (resetNode g)).withCell (resetLatch g)

def resetLatchId (g : Graph) : ObjectId := (g.withCell (resetNode g)).next

/-- The graph that a model's declarations describe, and the latch added to it for its resets. -/
def modelGraph (m : Model) (b : Body) : Graph :=
  let placed := ({} : Graph).withCells (cells m b)
  if b.resets = [] then placed else withResetLatch placed

def modelLatch (m : Model) (b : Body) : Option ObjectId :=
  if b.resets = [] then none else some (resetLatchId (({} : Graph).withCells (cells m b)))

theorem placeResetLatch_yields {g : Graph} (regular : g.Regular) :
    Yields placeResetLatch g (resetLatchId g) (withResetLatch g) ∧ (withResetLatch g).Regular := by
  obtain ⟨node, between⟩ := place_yields regular (resetNode_solid g)
  obtain ⟨latch, done⟩ := place_yields between (resetLatch_solid g)
  exact ⟨(yields_get g).andThen (node.andThen ((yields_get _).andThen latch)), done⟩

/-- Placing a model meets no violation. -/
theorem placeModel_yields (m : Model) (b : Body) :
    Yields (placeModel m b) {} (modelLatch m b) (modelGraph m b) ∧ (modelGraph m b).Regular := by
  obtain ⟨placed, regular⟩ := withCells_yields regular_empty (cells_solid m b)
  unfold modelGraph modelLatch
  by_cases none : b.resets = []
  · simp only [none, if_true]
    refine ⟨placed.andThen ?_, regular⟩
    simp only [none, if_true]
    exact yields_pure _ _
  · simp only [none, if_false]
    obtain ⟨added, done⟩ := placeResetLatch_yields regular
    refine ⟨placed.andThen ?_, done⟩
    simp only [none, if_false]
    exact added.andThen (yields_pure _ _)

theorem parts_withResetLatch (g : Graph) :
    (withResetLatch g).parts = g.parts ++ [(resetNode g).object, (resetLatch g).object] := by
  rw [withResetLatch, parts_withCell _ (resetLatch_solid g), parts_withCell _ (resetNode_solid g),
    List.append_assoc]
  rfl

/-- Apart from nets a model's graph holds the cells of its declarations, in order, and after them no
more than the two that its resets call for. -/
theorem parts_modelGraph (m : Model) (b : Body) :
    ∃ added, (modelGraph m b).parts = (cells m b).map Cell.object ++ added ∧
      ∀ o ∈ added, (o.kind = .node ∨ o.kind = .latch) ∧ o.instance? = none := by
  have placed := parts_withCells {} (cells_solid m b)
  have empty : ({} : Graph).parts = [] := rfl
  rw [empty, List.nil_append] at placed
  unfold modelGraph
  split
  · exact ⟨[], by simp [placed], by simp⟩
  · refine ⟨_, by rw [parts_withResetLatch, placed], ?_⟩
    simp [Cell.object, resetNode, resetLatch, Cell.node, Cell.latch, Object.instance?]

end Blif

end Netlist
