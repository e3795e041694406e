import Netlist.Proofs.BodyGrammar
import Netlist.Proofs.Lowering
import Netlist.Proofs.Problems

/-!
# Which lowered circuits pass their check

What a definition describes has cells that are sound, so its check can fail for signals with several
drivers only. They are reported once each, in the order in which their nets were made, and each signal
without a driver is warned of.
-/

namespace Netlist.Blif

/-! ### Sound cells -/

theorem rowFits_of_coverRow {width : Nat} {args : List String} (row : CoverRow width args) :
    rowFits width (" ".intercalate args) := by
  have bit_plain {value : String} (bit : IsBit value) :
      (∀ c ∈ value.toList, Text.isBlank c = false) ∧ value ≠ "" := by
    rcases bit with rfl | rfl
    · exact ⟨List.forall_mem_singleton.mpr (by decide), by decide⟩
    · exact ⟨List.forall_mem_singleton.mpr (by decide), by decide⟩
  cases row with
  | constant bit => rcases bit with rfl | rfl <;> decide +kernel
  | @product _ literals value some size known bit =>
    have plain : ∀ c ∈ literals.toList, Text.isBlank c = false := by
      intro c member
      have literal := known c member
      simp only [List.mem_cons, List.not_mem_nil, or_false] at literal
      rcases literal with rfl | rfl | rfl <;> decide
    have notEmpty : literals ≠ "" := by
      rintro rfl
      simp at size
      omega
    have words := Text.words_pair plain (bit_plain bit).1 notEmpty (bit_plain bit).2
    have text : " ".intercalate [literals, value] = literals ++ " " ++ value := rfl
    simp only [text, rowFits, words, utf8ByteSize_literals known, size, decide_true]

variable {models : List Model} {m : Model} {d : Definition} {c : Circuit} {latch : Option ObjectId}
  {x : Option ResetSignals} {placed : List (ObjectId × Cell)} {g : Graph}

/-- The rows of a table that was read have as many literals as the table has inputs. -/
theorem definition_rowsFit (read : (m.definition models).outcome = .ok d) :
    ∀ t ∈ d.body.tables, ∀ row ∈ t.rows, rowFits t.inputs.length row := by
  obtain ⟨ds, declared, rfl⟩ := definition_eq_ok.mp read
  intro t member row inside
  obtain ⟨declaration, present, kept⟩ := List.mem_filterMap.mp member
  obtain rfl : declaration = .table t := by
    cases declaration <;> simp_all
  obtain ⟨s, -, outcome⟩ := mem_declarations declared present
  obtain ⟨inputs, output, -, fits, rfl⟩ := Table.ofSection_eq_ok.mp (Section.readAs_of_declaration outcome)
  obtain ⟨line, among, rfl⟩ := List.mem_map.mp inside
  exact rowFits_of_coverRow (fits line among)

theorem cells_sound (rows : ∀ t ∈ d.body.tables, ∀ row ∈ t.rows, rowFits t.inputs.length row)
    (x : Option ResetSignals) :
    ∀ c ∈ cells d.model d.body ++ x.toList.flatMap ResetSignals.cells, c.Sound := by
  intro c member
  simp only [cells, List.mem_append, List.mem_map] at member
  rcases member with
    ((((⟨s, _, rfl⟩ | ⟨s, _, rfl⟩) | ⟨t, table, rfl⟩) | ⟨l, _, rfl⟩) | ⟨s, _, rfl⟩) | made
  · exact ⟨rfl, rfl⟩
  · exact ⟨rfl, rfl⟩
  · exact ⟨rfl, t.rows, rfl, rows t table⟩
  · exact ⟨rfl, rfl, l.init, rfl⟩
  · exact ⟨s.toInstance, rfl, by simp [Subcircuit.toInstance, Cell.box], by
      simp [Subcircuit.toInstance, Cell.box]⟩
  · obtain ⟨y, -, inside⟩ := List.mem_flatMap.mp made
    rcases List.mem_cons.mp inside with rfl | inside
    · have fits : rowFits 0 "0" := by decide +kernel
      exact ⟨rfl, ["0"], rfl, List.forall_mem_singleton.mpr fits⟩
    · obtain rfl := List.mem_singleton.mp inside
      exact ⟨rfl, rfl, .one, rfl⟩

/-! ### Drivers -/

/-- The signals that a definition drives, as often as it does. -/
def Definition.driven (d : Definition) : List String :=
  d.model.inputs ++ d.body.tables.map (·.output) ++ d.body.latches.map (·.output) ++
    d.body.subcircuits.flatMap fun s => s.outputs.map (·.actual)

theorem flatMap_drives_cells (d : Definition) :
    (cells d.model d.body).flatMap Cell.drives = d.driven := by
  have latches := congrArg (List.map Prod.snd) (resetLatches_ports d.body.resets d.body.latches)
  simp only [List.map_map, Function.comp_def] at latches
  have nothing : d.model.outputs.flatMap (fun _ => ([] : List String)) = [] := by simp
  simp [cells, Definition.driven, List.flatMap_map, Cell.input, Cell.output, Cell.node,
    Cell.latch, Cell.box, ← latches, nothing, ← List.map_eq_flatMap]

theorem Definition.driven_subset (d : Definition) : d.driven ⊆ d.signals := by
  rw [← flatMap_drives_cells, ← flatMap_signals_cells]
  intro s member
  obtain ⟨c, cell, inside⟩ := List.mem_flatMap.mp member
  exact List.mem_flatMap.mpr ⟨c, cell, List.mem_append_right c.reads inside⟩

theorem Definition.Laid.length_drivers {x : Option ResetSignals} {placed : List (ObjectId × Cell)}
    {g : Graph} (laid : d.Laid x placed g) (s : String) :
    (Graph.bearers Cell.drives placed s).length =
      d.driven.count s + (x.toList.flatMap ResetSignals.all).count s := by
  have made : (x.toList.flatMap ResetSignals.cells).flatMap Cell.drives =
      x.toList.flatMap ResetSignals.all := by
    cases x <;> rfl
  rw [Graph.length_bearers, laid.cells, List.flatMap_append, flatMap_drives_cells, made,
    List.count_append]

/-- Made-up signals have one driver, and the declarations say how many the others have. -/
theorem Definition.Extends.count_drivers {x : Option ResetSignals} (additional : d.Extends x)
    (s : String) :
    (s ∈ d.signals → (x.toList.flatMap ResetSignals.all).count s = 0) ∧
      (s ∈ x.toList.flatMap ResetSignals.all →
        d.driven.count s + (x.toList.flatMap ResetSignals.all).count s = 1) := by
  cases x with
  | none => simp
  | some y =>
    have data := additional.data y rfl
    have output := additional.output y rfl
    have ne := additional.ne y rfl
    have undriven {s : String} (new : s ∉ d.signals) : d.driven.count s = 0 :=
      List.count_eq_zero.mpr fun member => new (d.driven_subset member)
    simp only [Option.toList_some, List.flatMap_singleton, ResetSignals.all, List.mem_cons,
      List.not_mem_nil, or_false]
    constructor
    · intro member
      have notData : s ≠ y.data := fun same => data (same ▸ member)
      have notOutput : s ≠ y.output := fun same => output (same ▸ member)
      rw [List.count_eq_zero]
      simp [notData, notOutput]
    · rintro (rfl | rfl)
      · simp [undriven data, Ne.symm ne]
      · simp [undriven output, ne]

namespace Definition.Laid

/-- A choice of nets by the number of their drivers, of which one is not chosen, is a choice of
declared signals. -/
theorem filter_nets (laid : d.Laid x placed g) {p : Nat → Bool} (one : p 1 = false) :
    (g.nets.filter fun n => p (Graph.bearers Cell.drives placed n.1).length).map Prod.fst =
      d.signals.eraseDups.filter fun s => p (d.driven.count s) := by
  have declared (s) (member : s ∈ d.signals.eraseDups) :
      p (Graph.bearers Cell.drives placed s).length = p (d.driven.count s) := by
    rw [laid.length_drivers, (laid.additional.count_drivers s).1 (List.mem_eraseDups.mp member),
      Nat.add_zero]
  have made (s) (member : s ∈ x.toList.flatMap ResetSignals.all) :
      ¬ p (Graph.bearers Cell.drives placed s).length = true := by
    rw [laid.length_drivers, (laid.additional.count_drivers s).2 member, one]
    exact Bool.false_ne_true
  have names : (g.nets.filter fun n => p (Graph.bearers Cell.drives placed n.1).length).map Prod.fst =
      (g.nets.map Prod.fst).filter fun s => p (Graph.bearers Cell.drives placed s).length := by
    rw [List.filter_map]
    rfl
  rw [names, laid.names, List.filter_append, List.filter_congr declared, List.filter_eq_nil_iff.mpr made,
    List.append_nil]

/-- The problems in words, one for each declared signal with several drivers. -/
theorem messages_eq (laid : d.Laid x placed g) (counted : g.Counted) (sound : ∀ p ∈ placed, p.2.Sound) :
    g.problems.map (·.message g) = (d.signals.eraseDups.filter (1 < d.driven.count ·)).map fun s =>
      "net " ++ Text.inQuotes s ++ " has multiple drivers: " ++
        ", ".intercalate ((g.drivers s).map g.describe) := by
  have filtered := laid.filter_nets (p := fun n => decide (1 < n)) (by decide)
  rw [laid.wired.problems_eq counted sound, ← filtered, List.map_map, List.map_map]
  refine List.map_congr_left fun n member => ?_
  have registered := (List.mem_filter.mp member).1
  rw [Function.comp_apply, Function.comp_apply, message_multipleDrivers,
    laid.wired.describe_net registered, laid.wired.drivers_eq registered]

theorem undriven_eq (laid : d.Laid x placed g) :
    g.undriven.map g.describe =
      (d.signals.eraseDups.filter (d.driven.count · = 0)).map ("net " ++ Text.inQuotes ·) := by
  have filtered := laid.filter_nets (p := fun n => n = 0) (by decide)
  rw [laid.wired.undriven_eq, ← filtered, List.map_map, List.map_map]
  refine List.map_congr_left fun n member => ?_
  exact laid.wired.describe_net (List.mem_filter.mp member).1

/-- The nets stand in the order in which their signals are first mentioned. -/
theorem ordered (laid : d.Laid x placed g) : d.signals.eraseDups.Pairwise fun s t =>
    ∃ i j, g.net? s = some i ∧ g.net? t = some j ∧ i.index < j.index := by
  have names : (g.nets.map Prod.fst).Pairwise fun s t =>
      ∃ i j, g.net? s = some i ∧ g.net? t = some j ∧ i.index < j.index := by
    rw [List.pairwise_map]
    refine laid.wired.nets_increasing.imp_of_mem fun first second before => ?_
    exact ⟨_, _, laid.wired.mem_nets_iff.mp first, laid.wired.mem_nets_iff.mp second, before⟩
  rw [laid.names] at names
  exact (List.pairwise_append.mp names).1

theorem length_drivers_of_mem (laid : d.Laid x placed g) {s : String} (member : s ∈ d.signals) :
    (g.drivers s).length = d.driven.count s := by
  have name : s ∈ g.nets.map Prod.fst := by
    rw [laid.names]
    exact List.mem_append_left _ (List.mem_eraseDups.mpr member)
  obtain ⟨n, registered, rfl⟩ := List.mem_map.mp name
  rw [laid.wired.drivers_eq registered, laid.length_drivers, (laid.additional.count_drivers n.1).1 member,
    Nat.add_zero]

end Definition.Laid

/-- The check of a lowered definition fails exactly if a signal has several drivers. It then reports
each such signal once, in the order of the nets, and in any case it warns of the signals without a
driver. -/
theorem check_lowered (read : (m.definition models).outcome = .ok d)
    (lowered : d.lower = .ok (c, latch)) :
    ((∃ e, c.check.outcome = .error e) ↔ ∃ s, 1 < d.driven.count s) ∧
      (∀ e, c.check.outcome = .error e → e.problems =
        (d.signals.eraseDups.filter (1 < d.driven.count ·)).map fun s =>
          "net " ++ Text.inQuotes s ++ " has multiple drivers: " ++
            ", ".intercalate ((c.graph.drivers s).map c.graph.describe)) ∧
      c.check.events = (d.signals.eraseDups.filter (d.driven.count · = 0)).map
        (fun s => .undriven ("net " ++ Text.inQuotes s) c.name) ∧
      (∀ s ∈ d.signals, (c.graph.drivers s).length = d.driven.count s) ∧
      d.signals.eraseDups.Pairwise fun s t =>
        ∃ i j, c.graph.net? s = some i ∧ c.graph.net? t = some j ∧ i.index < j.index := by
  rw [d.lower_eq] at lowered
  obtain ⟨_, -, whole⟩ := Outcome.bind_eq_ok.mp lowered
  obtain ⟨rfl, -⟩ := Prod.mk.inj (Except.ok.inj whole)
  obtain ⟨x, placed, laid⟩ := d.built_laid
  have sound (p) (member : p ∈ placed) : p.2.Sound := by
    apply cells_sound (definition_rowsFit read) x
    rw [← laid.cells]
    exact List.mem_map_of_mem member
  have messages := laid.messages_eq (Graph.counted_modelGraph d.model d.body) sound
  have passes : d.built.graph.problems = [] ↔ ¬ ∃ s, 1 < d.driven.count s := by
    have none : d.built.graph.problems.map (·.message d.built.graph) = [] ↔
        d.built.graph.problems = [] := List.map_eq_nil_iff
    rw [← none, messages, List.map_eq_nil_iff, List.filter_eq_nil_iff]
    constructor
    · rintro single ⟨s, several⟩
      have driven : s ∈ d.driven := List.count_pos_iff.mp (Nat.lt_of_succ_lt several)
      exact single s (List.mem_eraseDups.mpr (d.driven_subset driven)) (decide_eq_true several)
    · rintro single s - several
      exact single ⟨s, of_decide_eq_true several⟩
  refine ⟨?_, ?_, ?_, fun s => laid.length_drivers_of_mem, laid.ordered⟩
  · simp only [Circuit.check_eq_error, exists_and_left, exists_eq, and_true, ne_eq, passes, not_not]
  · intro e failed
    rw [(Circuit.check_eq_error.mp failed).2, ← messages]
  · have warned := congrArg (List.map fun text => Event.undriven text d.built.name) laid.undriven_eq
    rw [List.map_map, List.map_map] at warned
    exact warned

/-- A model whose output is driven by a table and by a latch that is reset. -/
def contested : Model where
  name := "contested"
  header := 1
  declared := true
  inputs := ["a"]
  outputs := ["y"]
  body := [⟨2, some .inputs, ["a"]⟩, ⟨3, some .outputs, ["y"]⟩, ⟨4, some .names, ["a", "y"]⟩,
    ⟨5, none, ["1", "1"]⟩, ⟨6, some .latch, ["z", "y"]⟩, ⟨7, some .reset, ["y"]⟩, ⟨8, none, ["0"]⟩]

theorem check_lowered_contested : ∃ d c latch, (contested.definition []).outcome = .ok d ∧
    d.lower = .ok (c, latch) ∧ d.driven = ["a", "y", "y"] ∧ ∃ e, c.check.outcome = .error e := by
  obtain ⟨d, read, facts⟩ := Outcome.exists_ok_of_any (x := (contested.definition []).outcome)
    (p := fun d => d.driven = ["a", "y", "y"] ∧ d.lower.toOption.any fun _ => true) (by decide +kernel)
  obtain ⟨driven, succeeds⟩ := of_decide_eq_true facts
  obtain ⟨⟨c, latch⟩, lowered, -⟩ := Outcome.exists_ok_of_any succeeds
  refine ⟨d, c, latch, read, lowered, driven, (check_lowered read lowered).1.mpr ⟨"y", ?_⟩⟩
  rw [driven]
  decide

end Netlist.Blif
