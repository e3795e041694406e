import Netlist.Proofs.Lowering

/-!
# Resets of latches

A latch starts at the value of the last reset that names its output, or else at the value that it is
declared with. A model with resets gets one latch more, which starts at one and reads a constant zero. The
names of the two nets around it are the first free ones in a fixed order, so no signal of the model can
take them.
-/

namespace Netlist

open Blif (ResetSignals)

/-- The latch added for resets, the constant that it reads, and the nets before and behind it. -/
structure Graph.HoldsResetLatch (g : Graph) (x : ResetSignals) (zero data latch output : ObjectId) :
    Prop where
  constant : g.get? zero = some { kind := .node, payload := .cover ["0"], fanouts := [data] }
  dataNet : g.get? data = some
    { kind := .net, name := some x.data, fanins := [zero], fanouts := [latch] }
  latchObject : g.get? latch = some
    { kind := .latch, name := some x.output, payload := .latch .one, fanins := [data],
      fanouts := [output] }
  outputNet : g.get? output = some { kind := .net, name := some x.output, fanins := [latch] }

namespace Blif

inductive StartsAt (resets : List Reset) (l : Latch) : LatchInit → Prop where
  | declared (unnamed : ∀ r ∈ resets, r.latch ≠ l.output) : StartsAt resets l l.init
  | reset {before after : List Reset} {r : Reset} (divided : resets = before ++ r :: after)
      (named : r.latch = l.output) (last : ∀ r ∈ after, r.latch ≠ l.output) : StartsAt resets l r.value

/-- The first name that is no signal, of the base and the base with a number from one on. -/
inductive Unused (signals : List String) (base : String) : String → Prop where
  | base (free : base ∉ signals) : Unused signals base base
  | numbered {k : Nat} (taken : base ∈ signals) (positive : 1 ≤ k)
      (below : ∀ j, 1 ≤ j → j < k → s!"{base}_{j}" ∈ signals) (free : s!"{base}_{k}" ∉ signals) :
      Unused signals base s!"{base}_{k}"

variable {d : Definition} {g : Graph} {resets : List Reset} {ls : List Latch} {signals : List String}
  {base name data : String}

/-! ### Initial values -/

theorem lastReset?_startsAt (resets : List Reset) (l : Latch) :
    StartsAt resets l ((lastReset? resets l.output).getD l.init) := by
  unfold lastReset?
  cases found : resets.reverse.find? (·.latch = l.output) with
  | none =>
    apply StartsAt.declared
    intro r member
    simpa using List.find?_eq_none.mp found r (List.mem_reverse.mpr member)
  | some r =>
    obtain ⟨named, after, before, divided, last⟩ := List.find?_eq_some_iff_append.mp found
    have whole : resets = before.reverse ++ r :: after.reverse := by
      simpa using congrArg List.reverse divided
    apply StartsAt.reset whole (by simpa using named)
    intro r member
    simpa using last r (List.mem_reverse.mp member)

/-- With outputs of their own, all latches are reset. -/
theorem resetLatches_startsAt (distinct : (ls.map (·.output)).Nodup) :
    List.Forall₂ (fun l l' => l'.input = l.input ∧ l'.output = l.output ∧ StartsAt resets l l'.init) ls
      (resetLatches resets ls) := by
  induction ls with
  | nil => exact .nil
  | cons l ls ih =>
    rw [List.map_cons, List.nodup_cons] at distinct
    have alone : ls.any (·.output = l.output) = false := by
      rw [List.any_eq_false]
      intro l' member
      rw [decide_eq_true_eq]
      intro same
      exact distinct.1 (List.mem_map.mpr ⟨l', member, same⟩)
    rw [resetLatches]
    refine .cons ⟨rfl, rfl, ?_⟩ (ih distinct.2)
    simpa [alone] using lastReset?_startsAt resets l

/-! ### Names -/

/-- The search of a graph finds the first name that is no signal of it. -/
theorem freshName_unused (names : g.Mentions signals) (base : String) :
    Unused signals base (freshName g base) := by
  have taken_of {name : String} (known : (g.net? name).isSome) : name ∈ signals := by
    by_contra absent
    rw [names.net?_eq_none.mpr absent] at known
    cases known
  rcases g.freshName_cases base with ⟨free, same⟩ | ⟨taken, k, same, free, below⟩
  · rw [same]
    exact .base (names.net?_eq_none.mp free)
  · rw [same]
    refine .numbered (k := k + 1) (taken_of taken) (Nat.succ_pos k) ?_ (names.net?_eq_none.mp free)
    intro j positive less
    obtain ⟨j, rfl⟩ := Nat.exists_eq_succ_of_ne_zero (Nat.ne_of_gt positive)
    exact taken_of (below j (Nat.lt_of_succ_lt_succ less))

/-- A signal that no candidate is like does not matter for the search. -/
theorem Unused.of_append {other : String} (unused : Unused (signals ++ [other]) base name) (ne : other ≠ base)
    (apart : ∀ k : Nat, other ≠ s!"{base}_{k}") : Unused signals base name := by
  have mem_iff {candidate : String} (different : other ≠ candidate) :
      candidate ∈ signals ++ [other] ↔ candidate ∈ signals := by
    simp [Ne.symm different]
  cases unused with
  | base free => exact .base fun member => free ((mem_iff ne).mpr member)
  | numbered taken positive below free =>
    exact .numbered ((mem_iff ne).mp taken) positive
      (fun j one less => (mem_iff (apart j)).mp (below j one less))
      fun member => free ((mem_iff (apart _)).mpr member)

/-- The names for the constant are no candidates for the latch. -/
theorem Unused.data_apart (unused : Unused signals "abc_reset_latch_data" data) :
    data ≠ "abc_reset_latch" ∧ ∀ k : Nat, data ≠ s!"abc_reset_latch_{k}" := by
  obtain ⟨rest, rfl⟩ : ∃ rest, data = "abc_reset_latch" ++ ("_" ++ ("data" ++ rest)) := by
    cases unused with
    | base => exact ⟨"", by decide⟩
    | @numbered k =>
      refine ⟨"_" ++ Nat.repr k, ?_⟩
      change "abc_reset_latch_data" ++ "_" ++ Nat.repr k = _
      rw [← String.toList_inj]
      simp
  constructor
  · intro same
    have lengths := congrArg String.length same
    simp only [String.length_append] at lengths
    have mark : ("_" : String).length = 1 := by decide
    omega
  · intro k same
    change _ = "abc_reset_latch" ++ "_" ++ Nat.repr k at same
    rw [String.append_assoc, String.append_right_inj, String.append_right_inj] at same
    have digit : ∀ c ∈ (Nat.repr k).toList, c.isDigit := by
      intro c member
      have inside : c ∈ Nat.toDigits 10 k := by simpa using member
      exact Nat.isDigit_of_mem_toDigits (by decide) (by decide) inside
    have first : 'd' ∈ (Nat.repr k).toList := by
      rw [← same]
      simp
    exact absurd (digit _ first) (by decide)

/-! ### The added latch -/

/-- No declaration has a signal that is not among those of the definition. -/
theorem bearers_own {placed : List (ObjectId × Cell)} (own : placed.map Prod.snd = cells d.model d.body)
    {side : Cell → List String} (within : ∀ c : Cell, side c ⊆ c.signals) (absent : name ∉ d.signals) :
    Graph.bearers side placed name = [] := by
  apply Graph.bearers_eq_nil
  intro p member inside
  apply absent
  rw [← flatMap_signals_cells, ← own, List.flatMap_map]
  exact List.mem_flatMap.mpr ⟨p, member, within p.2 inside⟩

theorem Definition.Laid.holdsResetLatch {x : ResetSignals} {placed : List (ObjectId × Cell)}
    {zero latch : ObjectId} (own : placed.map Prod.snd = Blif.cells d.model d.body)
    (laid : d.Laid (some x) (placed ++ [(zero, .node [] x.data ["0"])] ++ [(latch, .latch x.latch)]) g) :
    ∃ data output, g.HoldsResetLatch x zero data latch output := by
  have wired := laid.wired
  have known := wired.known (latch, .latch x.latch) (by simp)
  obtain ⟨data, foundData⟩ := Option.isSome_iff_exists.mp
    (known x.data (by simp [Cell.signals, Cell.latch, ResetSignals.latch]))
  obtain ⟨output, foundOutput⟩ := Option.isSome_iff_exists.mp
    (known x.output (by simp [Cell.signals, Cell.latch, ResetSignals.latch]))
  have ne := laid.additional.ne x rfl
  have dataAbsent := laid.additional.data x rfl
  have outputAbsent := laid.additional.output x rfl
  have reads : ∀ c : Cell, c.reads ⊆ c.signals := fun c => List.subset_append_left _ _
  have drives : ∀ c : Cell, c.drives ⊆ c.signals := fun c => List.subset_append_right _ _
  refine ⟨data, output, ?_, ?_, ?_, ?_⟩
  · rw [(wired.get?_cell (c := .node [] x.data ["0"]) (by simp)).1]
    simp [Cell.wired, Cell.object, Cell.node, foundData]
  · rw [wired.get?_net (wired.mem_nets_iff.mpr foundData), Graph.netObject]
    simp only [Graph.bearers_append, bearers_own own reads dataAbsent, bearers_own own drives dataAbsent]
    simp [Graph.bearers, Cell.node, Cell.latch, ResetSignals.latch, Ne.symm ne]
  · rw [(wired.get?_cell (c := .latch x.latch) (by simp)).1]
    simp [Cell.wired, Cell.object, Cell.latch, ResetSignals.latch, foundData, foundOutput]
  · rw [wired.get?_net (wired.mem_nets_iff.mpr foundOutput), Graph.netObject]
    simp only [Graph.bearers_append, bearers_own own reads outputAbsent, bearers_own own drives outputAbsent]
    simp [Graph.bearers, Cell.node, Cell.latch, ResetSignals.latch, ne]

/-- The declared latches come first, each with its value. -/
theorem Definition.Laid.exists_declared {x : Option ResetSignals} {placed : List (ObjectId × Cell)}
    (laid : d.Laid x placed g) (distinct : (d.body.latches.map (·.output)).Nodup) :
    ∃ declared added, g.ofKind .latch = declared ++ added ∧ added.length = x.toList.length ∧
      List.Forall₂
        (fun p l => p.2.name = some l.output ∧ g.Wires p.2 [l.input] [l.output] ∧
          ∃ init, StartsAt d.body.resets l init ∧ p.2.payload = .latch init)
        declared d.body.latches := by
  have shown : List.Forall₂ (Shows g) (g.ofKind .latch)
      ((resetLatches d.body.resets d.body.latches).map .latch ++
        (x.toList.map ResetSignals.latch).map .latch) := by
    rw [← List.map_append]
    exact laid.shows (by decide)
  obtain ⟨declared, added, divided, own, made⟩ := shown.divided
  refine ⟨declared, added, divided, by simpa using made.length_eq, ?_⟩
  have paired := (List.forall₂_map_right_iff.mp own).across (resetLatches_startsAt distinct)
  apply paired.imp
  rintro p l ⟨l', ⟨name, payload, wires⟩, input, output, starts⟩
  rw [← input, ← output]
  exact ⟨name, wires, _, starts, payload⟩

/-- Each declared latch of a lowered definition starts at the value of the last reset of its output, or at
its own if there is none. With a reset there is one latch more, the last, fed by a constant zero, and the
names of the two nets around it are the first ones in their orders that are no signals. Without resets
nothing is added. -/
theorem lower_resets {c : Circuit} {latch : Option ObjectId}
    (distinct : (d.body.latches.map (·.output)).Nodup) (lowered : d.lower = .ok (c, latch)) :
    ∃ declared added, c.graph.ofKind .latch = declared ++ added ∧
      List.Forall₂
        (fun p l => p.2.name = some l.output ∧ c.graph.Wires p.2 [l.input] [l.output] ∧
          ∃ init, StartsAt d.body.resets l init ∧ p.2.payload = .latch init)
        declared d.body.latches ∧
      (d.body.resets = [] → added = [] ∧ latch = none ∧ d.Describes none c.graph) ∧
      (d.body.resets ≠ [] → ∃ x zero data id output,
        Unused d.signals "abc_reset_latch_data" x.data ∧ Unused d.signals "abc_reset_latch" x.output ∧
        d.Extends (some x) ∧ d.Describes (some x) c.graph ∧
        c.graph.HoldsResetLatch x zero data id output ∧ added.map Prod.fst = [id] ∧ latch = some id) := by
  rw [d.lower_eq] at lowered
  obtain ⟨_, -, whole⟩ := Outcome.bind_eq_ok.mp lowered
  obtain ⟨rfl, rfl⟩ := Prod.mk.inj (Except.ok.inj whole)
  by_cases resets : d.body.resets = []
  · obtain ⟨placed, laid⟩ := Definition.laid_of_no_resets resets
    obtain ⟨declared, added, divided, length, each⟩ := laid.exists_declared distinct
    have none : modelLatch d.model d.body = none := if_pos resets
    refine ⟨declared, added, divided, each, fun _ => ⟨?_, none, laid.describes⟩, absurd resets⟩
    exact List.eq_nil_of_length_eq_zero length
  · obtain ⟨placed, own, laid⟩ := Definition.laid_of_resets resets
    obtain ⟨declared, added, divided, length, each⟩ := laid.exists_declared distinct
    obtain ⟨data, output, holds⟩ := Definition.Laid.holdsResetLatch own laid
    have unusedData : Unused d.signals "abc_reset_latch_data" (resetSignals d.ownGraph).data :=
      freshName_unused d.ownGraph_mentions _
    have unusedOutput : Unused d.signals "abc_reset_latch" (resetSignals d.ownGraph).output := by
      have mentions := d.ownGraph_mentions.withCell (resetNode d.ownGraph)
      exact (freshName_unused mentions _).of_append unusedData.data_apart.1 unusedData.data_apart.2
    have last : ∃ front, d.built.graph.ofKind .latch =
        front ++ [(resetLatchId d.ownGraph, (resetLatch d.ownGraph).wired d.built.graph)] := by
      rw [laid.wired.ofKind_eq (by decide), List.filter_append, List.map_append]
      exact ⟨_, rfl⟩
    obtain ⟨front, last⟩ := last
    obtain ⟨-, rfl⟩ := List.append_inj' (divided.symm.trans last) length
    have some : modelLatch d.model d.body = some (resetLatchId d.ownGraph) := if_neg resets
    exact ⟨declared, _, divided, each, fun none => absurd none resets, fun _ =>
      ⟨_, _, data, _, output, unusedData, unusedOutput, laid.additional, laid.describes, holds, rfl, some⟩⟩

/-- Inputs and a binding bear the names that the latch for resets would have. -/
def takenNames : Definition where
  model :=
    { name := "top", header := 1, declared := true, inputs := ["abc_reset_latch", "abc_reset_latch_1"] }
  body :=
    { latches := [⟨"d", "q", .unknown⟩, ⟨"d", "p", .dontCare⟩]
      resets := [⟨6, "q", .one⟩, ⟨8, "q", .zero⟩]
      subcircuits := [{ model := "leaf", inputs := [⟨"a", "abc_reset_latch_data"⟩] }] }

theorem lower_resets_takenNames : ∃ c latch, takenNames.lower = .ok (c, latch) ∧
    (c.graph.ofKind .latch).map (fun p => (p.2.name, p.2.payload)) =
      [(some "q", .latch .zero), (some "p", .latch .dontCare), (some "abc_reset_latch_2", .latch .one)] ∧
    ∃ x zero data id output,
      Unused takenNames.signals "abc_reset_latch_data" x.data ∧
      Unused takenNames.signals "abc_reset_latch" x.output ∧
      c.graph.HoldsResetLatch x zero data id output ∧ latch = some id := by
  obtain ⟨⟨c, latch⟩, lowered, latches⟩ := Outcome.exists_ok_of_any (x := takenNames.lower)
    (p := fun r => (r.1.graph.ofKind .latch).map (fun p => (p.2.name, p.2.payload)) =
      [(some "q", .latch .zero), (some "p", .latch .dontCare), (some "abc_reset_latch_2", .latch .one)])
    (by decide +kernel)
  obtain ⟨_, _, -, -, -, added⟩ := lower_resets (by decide) lowered
  obtain ⟨x, zero, data, id, output, unusedData, unusedOutput, -, -, holds, -, same⟩ := added (by decide)
  exact ⟨c, latch, lowered, of_decide_eq_true latches, x, zero, data, id, output, unusedData, unusedOutput,
    holds, same⟩

end Blif

end Netlist
