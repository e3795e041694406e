import Netlist.Proofs.Placement
import Mathlib.Data.List.Nodup

/-!
# The wiring of placed cells

A graph made by placing cells can be read off from them. The object of a cell lists the nets of the
signals that the cell reads and drives, and a net lists the objects that drive and read its signal, in
the order of placement and as often as they do. Each step of placing a cell keeps this so.
-/

namespace Netlist

structure Graph.Wires (g : Graph) (o : Object) (reads drives : List String) : Prop where
  fanins : o.fanins.map some = reads.map g.net?
  fanouts : o.fanouts.map some = drives.map g.net?

namespace Blif.Cell

def signals (c : Cell) : List String := c.reads ++ c.drives

def andReads (c : Cell) (signals : List String) : Cell := { c with reads := c.reads ++ signals }

def andDrives (c : Cell) (signals : List String) : Cell := { c with drives := c.drives ++ signals }

theorem andReads_nil (c : Cell) : c.andReads [] = c := by simp [andReads]

theorem andDrives_nil (c : Cell) : c.andDrives [] = c := by simp [andDrives]

theorem andReads_cons (c : Cell) (s : String) (signals : List String) :
    (c.andReads [s]).andReads signals = c.andReads (s :: signals) := by simp [andReads]

theorem andDrives_cons (c : Cell) (s : String) (signals : List String) :
    (c.andDrives [s]).andDrives signals = c.andDrives (s :: signals) := by simp [andDrives]

def wired (c : Cell) (g : Graph) : Object :=
  { c.object with fanins := c.reads.filterMap g.net?, fanouts := c.drives.filterMap g.net? }

theorem wired_congr {c : Cell} {g h : Graph}
    (same : ∀ signal ∈ c.signals, h.net? signal = g.net? signal) : c.wired h = c.wired g := by
  have reads := List.filterMap_congr fun s member => same s (List.mem_append_left c.drives member)
  have drives := List.filterMap_congr fun s member => same s (List.mem_append_right c.reads member)
  simp only [wired, reads, drives]

theorem wires {c : Cell} {g : Graph} (known : ∀ s ∈ c.signals, (g.net? s).isSome) :
    g.Wires (c.wired g) c.reads c.drives := by
  have each (signals : List String) (known : ∀ s ∈ signals, (g.net? s).isSome) :
      (signals.filterMap g.net?).map some = signals.map g.net? := by
    induction signals with
    | nil => rfl
    | cons s signals ih =>
      obtain ⟨here, later⟩ := List.forall_mem_cons.mp known
      obtain ⟨id, found⟩ := Option.isSome_iff_exists.mp here
      simp [found, ih later]
  exact ⟨each _ fun s member => known s (List.mem_append_left _ member),
    each _ fun s member => known s (List.mem_append_right _ member)⟩

end Blif.Cell

open Blif (Cell)

namespace Graph

variable {g : Graph} {id net driver sink : ObjectId} {o : Object} {name signal : String} {c c' : Cell}
  {placed : List (ObjectId × Cell)}

/-! ### Entries -/

theorem mem_entries : (id, o) ∈ g.entries ↔ g.get? id = some o := by
  simp only [entries, List.mem_mapIdx, get?]
  constructor
  · rintro ⟨i, inside, same⟩
    obtain ⟨rfl, rfl⟩ := Prod.mk.inj same
    simp
  · intro found
    obtain ⟨inside, rfl⟩ := Array.getElem?_eq_some_iff.mp found
    exact ⟨id.index, by simpa using inside, by simp⟩

theorem entries_increasing (g : Graph) : g.entries.Pairwise (·.1.index < ·.1.index) := by
  rw [List.pairwise_iff_getElem]
  intro i j _ _ before
  simpa [entries] using before

theorem entries_add (g : Graph) (kind name payload) : (g.add kind name payload).entries =
    g.entries ++ [(g.next, { kind := kind, name := name, payload := payload })] := by
  simp [entries, add, next]

def touch (driver sink : ObjectId) (entry : ObjectId × Object) : ObjectId × Object :=
  (entry.1,
    { entry.2 with
      fanins := entry.2.fanins ++ if entry.1 = sink then [driver] else []
      fanouts := entry.2.fanouts ++ if entry.1 = driver then [sink] else [] })

theorem touch_of_ne {entry : ObjectId × Object} (notDriver : entry.1 ≠ driver)
    (notSink : entry.1 ≠ sink) : touch driver sink entry = entry := by
  simp [touch, notDriver, notSink]

theorem entries_link (g : Graph) (driver sink : ObjectId) :
    (g.link driver sink).entries = g.entries.map (touch driver sink) := by
  have index (i : Nat) (id : ObjectId) : (⟨i⟩ : ObjectId) = id ↔ id.index = i := by
    cases id
    simp [eq_comm]
  apply List.ext_getElem?
  intro i
  simp only [entries, link, List.getElem?_mapIdx, List.getElem?_map, Array.getElem?_toList,
    Array.getElem?_modify, Option.map_map]
  cases g.objects[i]? with
  | none => simp
  | some o =>
    by_cases driven : driver.index = i <;> by_cases read : sink.index = i <;>
      simp [driven, read, touch, index]

def solids (g : Graph) : List (ObjectId × Object) := g.entries.filter fun (_, o) => o.kind ≠ .net

theorem solids_link (g : Graph) (driver sink : ObjectId) :
    (g.link driver sink).solids = g.solids.map (touch driver sink) := by
  rw [solids, entries_link, List.filter_map]
  rfl

theorem ofKind_link (g : Graph) (driver sink : ObjectId) (k : Kind) :
    (g.link driver sink).ofKind k = (g.ofKind k).map (touch driver sink) := by
  rw [ofKind, entries_link, List.filter_map]
  rfl

/-! ### Wired graphs -/

/-- The objects whose cells have the signal on the given side, as often as it stands there. -/
def bearers (side : Cell → List String) (placed : List (ObjectId × Cell)) (signal : String) :
    List ObjectId :=
  placed.flatMap fun p => List.replicate ((side p.2).count signal) p.1

def netObject (placed : List (ObjectId × Cell)) (signal : String) : Object where
  kind := .net
  name := some signal
  fanins := bearers Cell.drives placed signal
  fanouts := bearers Cell.reads placed signal

/-- The graph consists of the placed cells, at their positions, and of one net for each registered
signal, in the order of registration. -/
structure Wired (g : Graph) (placed : List (ObjectId × Cell)) : Prop where
  cells : g.solids = placed.map fun p => (p.1, p.2.wired g)
  nets : g.ofKind .net = g.nets.map fun n => (n.2, netObject placed n.1)
  distinct : (g.nets.map Prod.fst).Nodup
  known : ∀ p ∈ placed, ∀ signal ∈ p.2.signals, (g.net? signal).isSome

theorem wired_empty : Wired {} [] where
  cells := rfl
  nets := rfl
  distinct := List.nodup_nil
  known := by simp

theorem bearers_append (side : Cell → List String) (placed others : List (ObjectId × Cell))
    (signal : String) :
    bearers side (placed ++ others) signal = bearers side placed signal ++ bearers side others signal :=
  List.flatMap_append

theorem bearers_eq_nil {side : Cell → List String} (absent : ∀ p ∈ placed, signal ∉ side p.2) :
    bearers side placed signal = [] := by
  rw [bearers, List.flatMap_eq_nil_iff]
  intro p member
  rw [List.replicate_eq_nil_iff, List.count_eq_zero]
  exact absent p member

theorem bearers_congr {side : Cell → List String} (same : side c' = side c) (signal : String) :
    bearers side (placed ++ [(id, c')]) signal = bearers side (placed ++ [(id, c)]) signal := by
  simp [bearers, same]

/-- One more signal of the last cell is borne once more. -/
theorem bearers_snoc {side : Cell → List String} (more : side c' = side c ++ [signal]) (s : String) :
    bearers side (placed ++ [(id, c')]) s =
      bearers side (placed ++ [(id, c)]) s ++ if s = signal then [id] else [] := by
  rw [bearers_append, bearers_append, List.append_assoc]
  congr 1
  by_cases same : s = signal
  · simp [bearers, more, same, List.replicate_succ']
  · have other : signal ≠ s := Ne.symm same
    simp [bearers, more, same, other]

theorem flatMap_filter_of_eq_nil {α β : Type} {l : List α} {p : α → Bool} {f : α → List β}
    (rest : ∀ a ∈ l, p a = false → f a = []) : (l.filter p).flatMap f = l.flatMap f := by
  induction l with
  | nil => rfl
  | cons a l ih =>
    obtain ⟨here, later⟩ := List.forall_mem_cons.mp rest
    cases kept : p a with
    | true => simp [kept, ih later]
    | false => simp [kept, ih later, here kept]

theorem net?_eq_none_iff : g.net? name = none ↔ name ∉ g.nets.map Prod.fst := by
  rw [net?, List.lookup_eq_none_iff]
  constructor
  · intro other member
    obtain ⟨n, registered, rfl⟩ := List.mem_map.mp member
    simpa using other n registered
  · intro absent n registered
    rw [bne_iff_ne]
    rintro rfl
    exact absent (List.mem_map_of_mem registered)

theorem net?_eq_some (distinct : (g.nets.map Prod.fst).Nodup) :
    g.net? name = some id ↔ (name, id) ∈ g.nets := by
  constructor
  · intro found
    obtain ⟨before, after, split, -⟩ := List.lookup_eq_some_iff.mp found
    simp [split]
  · intro member
    obtain ⟨before, after, split⟩ := List.append_of_mem member
    rw [split, List.map_append, List.map_cons, List.nodup_middle, List.nodup_cons] at distinct
    refine List.lookup_eq_some_iff.mpr ⟨before, after, split, ?_⟩
    intro p earlier
    rw [bne_iff_ne]
    intro same
    exact distinct.1 (List.mem_append_left _ (List.mem_map.mpr ⟨p, earlier, same.symm⟩))

namespace Wired

theorem get?_cell (wired : g.Wired placed) (member : (id, c) ∈ placed) :
    g.get? id = some (c.wired g) ∧ c.Solid := by
  have solid : (id, c.wired g) ∈ g.solids := by
    rw [wired.cells]
    exact List.mem_map_of_mem member
  obtain ⟨entry, kind⟩ := List.mem_filter.mp solid
  exact ⟨mem_entries.mp entry, fun isNet => by simp [Cell.wired, Cell.object, isNet] at kind⟩

theorem get?_net (wired : g.Wired placed) (member : (signal, net) ∈ g.nets) :
    g.get? net = some (netObject placed signal) := by
  have ofKind : (net, netObject placed signal) ∈ g.ofKind .net := by
    rw [wired.nets]
    exact List.mem_map_of_mem member
  exact mem_entries.mp (List.mem_filter.mp ofKind).1

/-- No cell stands where a net does. -/
theorem ne (wired : g.Wired placed) (cell : (id, c) ∈ placed) (registered : (signal, net) ∈ g.nets) :
    id ≠ net := by
  rintro rfl
  obtain ⟨found, solid⟩ := wired.get?_cell cell
  have same := (found.symm.trans (wired.get?_net registered))
  exact solid (congrArg Object.kind (Option.some.inj same))

theorem cells_increasing (wired : g.Wired placed) : placed.Pairwise (·.1.index < ·.1.index) := by
  have ordered := (g.entries_increasing).sublist (List.filter_sublist (p := fun (_, o) => o.kind ≠ .net))
  have solids : g.solids.Pairwise (·.1.index < ·.1.index) := ordered
  rwa [wired.cells, List.pairwise_map] at solids

theorem nets_increasing (wired : g.Wired placed) : g.nets.Pairwise (·.2.index < ·.2.index) := by
  have ordered : (g.ofKind .net).Pairwise (·.1.index < ·.1.index) :=
    (g.entries_increasing).sublist List.filter_sublist
  rwa [wired.nets, List.pairwise_map] at ordered

/-- Different signals have different nets. -/
theorem signal_eq (wired : g.Wired placed) {s t : String} (first : (s, net) ∈ g.nets)
    (second : (t, net) ∈ g.nets) : s = t := by
  have same := (wired.get?_net first).symm.trans (wired.get?_net second)
  exact Option.some.inj (congrArg Object.name (Option.some.inj same))

theorem mem_nets_iff (wired : g.Wired placed) : (signal, net) ∈ g.nets ↔ g.net? signal = some net :=
  (net?_eq_some wired.distinct).symm

/-! ### Steps of placing -/

/-- A new object has no neighbours, like a cell without signals. -/
theorem add (wired : g.Wired placed) (solid : c.Solid) :
    (g.add c.kind c.name c.payload).Wired
      (placed ++ [(g.next, { c with reads := [], drives := [] })]) where
  cells := by
    have kind : c.kind ≠ .net := solid
    have grown : (g.add c.kind c.name c.payload).solids = g.solids ++ [(g.next, c.object)] := by
      simp [solids, entries_add, kind, Cell.object]
    rw [grown, wired.cells, List.map_append]
    rfl
  nets := by
    have kind : c.kind ≠ .net := solid
    have same : (g.add c.kind c.name c.payload).ofKind .net = g.ofKind .net := by
      simp [ofKind, entries_add, kind]
    rw [same, wired.nets]
    simp [netObject, bearers, Graph.add]
  distinct := wired.distinct
  known := by
    intro p member
    rcases List.mem_append.mp member with old | new
    · exact wired.known p old
    · obtain rfl := List.mem_singleton.mp new
      simp [Cell.signals]

theorem findOrAddNet (wired : g.Wired placed) (signal : String) :
    (g.findOrAddNet signal).2.Wired placed := by
  unfold Graph.findOrAddNet
  split
  · exact wired
  next absent =>
    have fresh := net?_eq_none_iff.mp absent
    have unused (p) (member : p ∈ placed) : signal ∉ p.2.signals := by
      intro present
      have known := wired.known p member signal present
      rw [absent] at known
      cases known
    let grown : Graph :=
      { g.add .net (some signal) .none with nets := g.nets ++ [(signal, g.next)] }
    have entries : grown.entries = g.entries ++ [(g.next, netObject [] signal)] :=
      entries_add g .net (some signal) .none
    have lookup (p) (member : p ∈ placed) (s) (present : s ∈ p.2.signals) : grown.net? s = g.net? s := by
      have known : (List.lookup s g.nets).isSome := wired.known p member s present
      exact List.lookup_append.trans (Option.or_of_isSome known)
    have alone : netObject placed signal = netObject [] signal := by
      have driven := bearers_eq_nil fun p member present =>
        unused p member (List.mem_append_right p.2.reads present)
      have read := bearers_eq_nil fun p member present =>
        unused p member (List.mem_append_left p.2.drives present)
      simp only [netObject, driven, read]
      rfl
    have distinct : (grown.nets.map Prod.fst).Nodup := by
      have names : grown.nets.map Prod.fst = (g.nets.map Prod.fst).concat signal := by simp [grown]
      rw [names]
      exact wired.distinct.concat fresh
    change grown.Wired placed
    refine ⟨?_, ?_, distinct, ?_⟩
    · have solids : grown.solids = g.solids := by simp [solids, entries, netObject]
      rw [solids, wired.cells]
      refine List.map_congr_left fun p member => ?_
      rw [Cell.wired_congr (lookup p member)]
    · have nets : grown.ofKind .net = g.ofKind .net ++ [(g.next, netObject [] signal)] := by
        simp [ofKind, entries, netObject]
      rw [nets, wired.nets, List.map_append, List.map_singleton, alone]
    · intro p member s present
      rw [lookup p member s present]
      exact wired.known p member s present

/-- An edge between the cell placed last and a net, if it does to these two what one more signal of
the cell calls for. -/
theorem link (wired : g.Wired (placed ++ [(id, c)])) (apart : ∀ p ∈ placed, p.1 ≠ driver ∧ p.1 ≠ sink)
    (cell : touch driver sink (id, c.wired g) = (id, c'.wired g))
    (net : ∀ n ∈ g.nets, touch driver sink (n.2, netObject (placed ++ [(id, c)]) n.1) =
      (n.2, netObject (placed ++ [(id, c')]) n.1))
    (known : ∀ signal ∈ c'.signals, (g.net? signal).isSome) :
    (g.link driver sink).Wired (placed ++ [(id, c')]) where
  cells := by
    have others : (placed.map fun p => (p.1, p.2.wired g)).map (touch driver sink) =
        placed.map fun p => (p.1, p.2.wired g) := by
      rw [List.map_map]
      refine List.map_congr_left fun p member => ?_
      exact touch_of_ne (apart p member).1 (apart p member).2
    rw [solids_link, wired.cells, List.map_append, List.map_append, others, List.map_append]
    exact congrArg _ (congrArg (fun entry => [entry]) cell)
  nets := by
    rw [ofKind_link, wired.nets, List.map_map]
    exact List.map_congr_left net
  distinct := wired.distinct
  known := by
    intro p member
    rcases List.mem_append.mp member with old | new
    · exact wired.known p (List.mem_append_left _ old)
    · obtain rfl := List.mem_singleton.mp new
      exact known

theorem apart (wired : g.Wired (placed ++ [(id, c)])) (registered : (signal, net) ∈ g.nets) :
    ∀ p ∈ placed, p.1 ≠ id ∧ p.1 ≠ net := by
  intro p member
  have ordered := (List.pairwise_append.mp wired.cells_increasing).2.2 p member _ List.mem_cons_self
  refine ⟨fun same => ?_, wired.ne (List.mem_append_left _ member) registered⟩
  simp [same] at ordered

theorem net_eq_iff (wired : g.Wired placed) (found : g.net? signal = some net)
    {n : String × ObjectId} (member : n ∈ g.nets) : n.2 = net ↔ n.1 = signal := by
  constructor
  · rintro rfl
    exact wired.signal_eq member (wired.mem_nets_iff.mpr found)
  · rintro rfl
    exact Option.some.inj ((wired.mem_nets_iff.mp member).symm.trans found)

theorem known_snoc (wired : g.Wired (placed ++ [(id, c)])) (found : g.net? signal = some net)
    {s : String} (present : s ∈ c.signals ∨ s = signal) : (g.net? s).isSome := by
  rcases present with old | rfl
  · exact wired.known (id, c) (by simp) s old
  · rw [found]
    rfl

theorem read (wired : g.Wired (placed ++ [(id, c)])) (found : g.net? signal = some net) :
    (g.link net id).Wired (placed ++ [(id, c.andReads [signal])]) := by
  have registered := wired.mem_nets_iff.mpr found
  have last : (id, c) ∈ placed ++ [(id, c)] := List.mem_append_right _ List.mem_cons_self
  have more : (c.andReads [signal]).reads = c.reads ++ [signal] := rfl
  have same : (c.andReads [signal]).drives = c.drives := rfl
  refine wired.link (fun p member => (wired.apart registered p member).symm) ?_ ?_ ?_
  · simp [touch, wired.ne last registered, Cell.wired, Cell.object, Cell.andReads, found]
  · intro n member
    have other := (wired.ne last member).symm
    simp only [touch, netObject, other, wired.net_eq_iff found member, if_false, List.append_nil,
      bearers_snoc more, bearers_congr same]
  · intro s present
    apply wired.known_snoc found
    simp only [Cell.signals, more, same, List.mem_append, List.mem_singleton] at present ⊢
    tauto

theorem drive (wired : g.Wired (placed ++ [(id, c)])) (found : g.net? signal = some net) :
    (g.link id net).Wired (placed ++ [(id, c.andDrives [signal])]) := by
  have registered := wired.mem_nets_iff.mpr found
  have last : (id, c) ∈ placed ++ [(id, c)] := List.mem_append_right _ List.mem_cons_self
  have more : (c.andDrives [signal]).drives = c.drives ++ [signal] := rfl
  have same : (c.andDrives [signal]).reads = c.reads := rfl
  refine wired.link (wired.apart registered) ?_ ?_ ?_
  · simp [touch, wired.ne last registered, Cell.wired, Cell.object, Cell.andDrives, found]
  · intro n member
    have other := (wired.ne last member).symm
    simp only [touch, netObject, other, wired.net_eq_iff found member, if_false, List.append_nil,
      bearers_snoc more, bearers_congr same]
  · intro s present
    apply wired.known_snoc found
    simp only [Cell.signals, more, same, List.mem_append, List.mem_singleton] at present ⊢
    tauto

theorem readings (wired : g.Wired (placed ++ [(id, c)])) (signals : List String) :
    (signals.foldl (reading id) g).Wired (placed ++ [(id, c.andReads signals)]) := by
  induction signals generalizing g c with
  | nil => rwa [c.andReads_nil]
  | cons signal signals ih =>
    have step : (reading id g signal).Wired _ :=
      (wired.findOrAddNet signal).read (net?_findOrAddNet g signal)
    rw [List.foldl_cons, ← c.andReads_cons]
    exact ih step

theorem drivings (wired : g.Wired (placed ++ [(id, c)])) (signals : List String) :
    (signals.foldl (driving id) g).Wired (placed ++ [(id, c.andDrives signals)]) := by
  induction signals generalizing g c with
  | nil => rwa [c.andDrives_nil]
  | cons signal signals ih =>
    have step : (driving id g signal).Wired _ :=
      (wired.findOrAddNet signal).drive (net?_findOrAddNet g signal)
    rw [List.foldl_cons, ← c.andDrives_cons]
    exact ih step

theorem withCell (wired : g.Wired placed) (solid : c.Solid) :
    (g.withCell c).Wired (placed ++ [(g.next, c)]) := by
  exact ((wired.add solid).readings c.reads).drivings c.drives

theorem withCells (wired : g.Wired placed) {cs : List Cell} (solid : ∀ c ∈ cs, c.Solid) :
    ∃ others, others.map Prod.snd = cs ∧ (g.withCells cs).Wired (placed ++ others) := by
  induction cs generalizing g placed with
  | nil => exact ⟨[], rfl, by simpa [Graph.withCells] using wired⟩
  | cons c cs ih =>
    obtain ⟨here, later⟩ := List.forall_mem_cons.mp solid
    obtain ⟨others, same, done⟩ := ih (wired.withCell here) later
    exact ⟨(g.next, c) :: others, by simp [same], by simpa [Graph.withCells] using done⟩

/-! ### What a wired graph shows -/

theorem ofKind_eq (wired : g.Wired placed) {k : Kind} (solid : k ≠ .net) :
    g.ofKind k = (placed.filter (·.2.kind = k)).map fun p => (p.1, p.2.wired g) := by
  have only : g.ofKind k = g.solids.filter fun (_, o) => o.kind = k := by
    rw [ofKind, solids, List.filter_filter]
    refine List.filter_congr fun p _ => ?_
    by_cases same : p.2.kind = k <;> simp [same, solid]
  rw [only, wired.cells, List.filter_map]
  rfl

theorem count_nets (wired : g.Wired placed) (found : g.net? signal = some net) (signals : List String) :
    (signals.filterMap g.net?).count net = signals.count signal := by
  rw [List.count_filterMap, List.count]
  refine List.countP_congr fun s _ => ?_
  rw [beq_iff_eq, beq_iff_eq]
  constructor
  · intro same
    exact wired.signal_eq (wired.mem_nets_iff.mpr same) (wired.mem_nets_iff.mpr found)
  · rintro rfl
    exact found

theorem not_mem_bearers (wired : g.Wired placed) (registered : (signal, net) ∈ g.nets)
    (side : Cell → List String) (s : String) : net ∉ bearers side placed s := by
  intro member
  obtain ⟨p, cell, inside⟩ := List.mem_flatMap.mp member
  exact wired.ne cell registered (List.eq_of_mem_replicate inside).symm

/-- The fan-ins of a net are the objects that have it among their fan-outs, and the other way round. -/
theorem mirrored (wired : g.Wired placed) (found : g.net? signal = some net) :
    bearers Cell.drives placed signal =
        g.entries.flatMap (fun p => List.replicate (p.2.fanouts.count net) p.1) ∧
      bearers Cell.reads placed signal =
        g.entries.flatMap (fun p => List.replicate (p.2.fanins.count net) p.1) := by
  have registered := wired.mem_nets_iff.mpr found
  -- Nets have no nets as neighbours, so all that counts are the cells.
  have onlyCells (neighbours : Object → List ObjectId)
      (ofNets : ∀ s, net ∉ neighbours (netObject placed s)) :
      g.entries.flatMap (fun p => List.replicate ((neighbours p.2).count net) p.1) =
        placed.flatMap fun p => List.replicate ((neighbours (p.2.wired g)).count net) p.1 := by
    have solids : g.solids.flatMap (fun p => List.replicate ((neighbours p.2).count net) p.1) =
        g.entries.flatMap fun p => List.replicate ((neighbours p.2).count net) p.1 := by
      refine flatMap_filter_of_eq_nil fun p member isNet => ?_
      have ofKind : p ∈ g.ofKind .net := List.mem_filter.mpr ⟨member, by simpa using isNet⟩
      rw [wired.nets] at ofKind
      obtain ⟨n, -, rfl⟩ := List.mem_map.mp ofKind
      rw [List.count_eq_zero.mpr (ofNets n.1), List.replicate_zero]
    rw [← solids, wired.cells, List.flatMap_map]
  constructor
  · rw [onlyCells Object.fanouts (wired.not_mem_bearers registered Cell.reads)]
    simp only [Cell.wired, wired.count_nets found]
    rfl
  · rw [onlyCells Object.fanins (wired.not_mem_bearers registered Cell.drives)]
    simp only [Cell.wired, wired.count_nets found]
    rfl

end Wired

/-! ### Names of nets -/

/-- The registered names are those of the list, each once, in the order of their first mention. -/
def Mentions (g : Graph) (signals : List String) : Prop := g.nets.map Prod.fst = signals.eraseDups

theorem mentions_empty : Mentions {} [] := rfl

variable {mentioned : List String}

theorem Mentions.net?_eq_none (names : g.Mentions mentioned) :
    g.net? name = none ↔ name ∉ mentioned := by
  rw [net?_eq_none_iff, names, List.mem_eraseDups]

theorem Mentions.findOrAddNet (names : g.Mentions mentioned) (signal : String) :
    (g.findOrAddNet signal).2.Mentions (mentioned ++ [signal]) := by
  have same : g.nets.map Prod.fst = mentioned.eraseDups := names
  unfold Mentions Graph.findOrAddNet
  rw [List.eraseDups_append]
  split
  next id found =>
    have old : signal ∈ mentioned := by
      by_contra new
      rw [names.net?_eq_none.mpr new] at found
      cases found
    simp [List.removeAll, old, same]
  next absent =>
    have new := names.net?_eq_none.mp absent
    simp [List.removeAll, new, add, same, List.eraseDups_cons]

theorem Mentions.readings (names : g.Mentions mentioned) (id : ObjectId) (signals : List String) :
    (signals.foldl (reading id) g).Mentions (mentioned ++ signals) := by
  induction signals generalizing g mentioned with
  | nil => simpa using names
  | cons signal signals ih =>
    have step : (reading id g signal).Mentions _ := names.findOrAddNet signal
    simpa using ih step

theorem Mentions.drivings (names : g.Mentions mentioned) (id : ObjectId) (signals : List String) :
    (signals.foldl (driving id) g).Mentions (mentioned ++ signals) := by
  induction signals generalizing g mentioned with
  | nil => simpa using names
  | cons signal signals ih =>
    have step : (driving id g signal).Mentions _ := names.findOrAddNet signal
    simpa using ih step

theorem Mentions.withCell (names : g.Mentions mentioned) (c : Cell) :
    (g.withCell c).Mentions (mentioned ++ c.signals) := by
  have start : (g.add c.kind c.name c.payload).Mentions mentioned := names
  rw [Cell.signals, ← List.append_assoc]
  exact (start.readings g.next c.reads).drivings g.next c.drives

theorem Mentions.withCells (names : g.Mentions mentioned) (cs : List Cell) :
    (g.withCells cs).Mentions (mentioned ++ cs.flatMap Cell.signals) := by
  induction cs generalizing g mentioned with
  | nil => simpa [Graph.withCells] using names
  | cons c cs ih => simpa [Graph.withCells] using ih (names.withCell c)

end Graph

end Netlist
