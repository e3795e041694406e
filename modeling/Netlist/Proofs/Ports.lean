import Netlist.Proofs.Stages

/-!
# Boxes and the ports that they bind

Reading a body binds only ports of the model that it instantiates, each on its own side. The boxes
of a circuit are those of the subcircuits read, and its primary inputs and outputs bear the names of
the ports declared.
-/

namespace Netlist

/-- The circuit has a primary input for each formal that the box binds on its input side, and a
primary output for each on its output side. -/
structure Circuit.Offers (c : Circuit) (box : Instance) : Prop where
  inputs : ∀ formal ∈ box.inputs, ∃ o ∈ c.graph.objects, o.kind = .input ∧ o.name = some formal
  outputs : ∀ formal ∈ box.outputs, ∃ o ∈ c.graph.objects, o.kind = .output ∧ o.name = some formal

instance (c : Circuit) (box : Instance) : Decidable (c.Offers box) :=
  decidable_of_iff
    ((∀ formal ∈ box.inputs, ∃ o ∈ c.graph.objects, o.kind = .input ∧ o.name = some formal) ∧
      ∀ formal ∈ box.outputs, ∃ o ∈ c.graph.objects, o.kind = .output ∧ o.name = some formal)
    ⟨fun ⟨inputs, outputs⟩ => ⟨inputs, outputs⟩, fun offers => ⟨offers.inputs, offers.outputs⟩⟩

namespace Blif

variable {models : List Model} {m target : Model}

structure Subcircuit.Fits (s : Subcircuit) (target : Model) : Prop where
  inputs : ∀ b ∈ s.inputs, b.formal ∈ target.inputs
  outputs : ∀ b ∈ s.outputs, b.formal ∈ target.outputs

theorem Model.direction?_eq_input {port : String} (directed : target.direction? port = some .input) :
    port ∈ target.inputs := by
  unfold direction? at directed
  by_cases member : port ∈ target.inputs
  · exact member
  · simp [member] at directed

theorem Model.direction?_eq_output {port : String} (directed : target.direction? port = some .output) :
    port ∈ target.outputs := by
  unfold direction? at directed
  by_cases member : port ∈ target.inputs
  · simp [member] at directed
  · simpa [member] using directed

theorem Subcircuit.bind_fits {s t : Subcircuit} {args : List String} (fits : s.Fits target)
    (bound : s.bind target args = .ok t) : t.Fits target ∧ t.model = s.model := by
  induction args generalizing s with
  | nil =>
    obtain rfl := Except.ok.inj bound
    exact ⟨fits, rfl⟩
  | cons arg args ih =>
    unfold bind at bound
    obtain ⟨binding, -, rest⟩ := Outcome.bind_eq_ok.mp bound
    split at rest
    · next directed =>
      have port := Model.direction?_eq_input directed
      apply ih ?_ rest
      refine ⟨?_, fits.outputs⟩
      intro b member
      rcases List.mem_append.mp member with old | new
      · exact fits.inputs b old
      · obtain rfl := List.mem_singleton.mp new
        exact port
    · next directed =>
      have port := Model.direction?_eq_output directed
      apply ih ?_ rest
      refine ⟨fits.inputs, ?_⟩
      intro b member
      rcases List.mem_append.mp member with old | new
      · exact fits.outputs b old
      · obtain rfl := List.mem_singleton.mp new
        exact port
    · cases rest

theorem Subcircuit.ofArgs_fits {s : Subcircuit} {args : List String}
    (read : ofArgs models args = .ok s) :
    ∃ target, findModel? models s.model = some target ∧ s.Fits target := by
  unfold ofArgs at read
  split at read
  · cases read
  · next model args =>
    split at read
    · cases read
    · next target found =>
      have empty : Fits { model := model } target := ⟨by simp, by simp⟩
      obtain ⟨fits, named⟩ := bind_fits empty read
      refine ⟨target, ?_, fits⟩
      rw [named]
      exact found

def Section.ReadAs (models : List Model) (s : Section) : Declaration → Prop
  | .table t => Table.ofSection s.head s.rows = .ok t
  | .latch l => Latch.ofArgs s.head.args = .ok l
  | .reset r => Reset.ofSection s.head s.rows = .ok r
  | .subcircuit sub => Subcircuit.ofArgs models s.head.args = .ok sub
  | .property text => text = " ".intercalate s.head.args

theorem Section.readAs_of_declaration {s : Section} {declared : Declaration}
    (read : (s.declaration models).outcome = .ok (some declared)) : s.ReadAs models declared := by
  unfold declaration at read
  split at read <;>
    simp only [Traced.outcome_bind, Traced.outcome_ofExcept, Traced.outcome_emit,
      Outcome.bind_eq_ok, Traced.outcome_pure, Except.ok.injEq, Option.some.injEq, reduceCtorEq,
      and_false, exists_false] at read
  · obtain ⟨t, built, rfl⟩ := read
    exact built
  · obtain ⟨r, built, rfl⟩ := read
    exact built
  · obtain ⟨l, built, -, -, rfl⟩ := read
    exact Outcome.mapError_eq_ok.mp built
  · obtain ⟨sub, built, -, -, rfl⟩ := read
    exact Outcome.mapError_eq_ok.mp built
  · obtain ⟨-, -, rfl⟩ := read
    rfl

theorem definition_eq_ok {d : Definition} : (m.definition models).outcome = .ok d ↔
    ∃ ds, (m.declarations models).outcome = .ok ds ∧ d = ⟨m, .ofDeclarations ds⟩ := by
  rw [Model.definition, Traced.outcome_bind, Outcome.bind_eq_ok]
  refine exists_congr fun ds => and_congr_right fun _ => ?_
  rw [Traced.outcome_pure, Except.ok.injEq, eq_comm]

theorem definition_model {d : Definition} (read : (m.definition models).outcome = .ok d) :
    d.model = m := by
  obtain ⟨ds, -, rfl⟩ := definition_eq_ok.mp read
  rfl

theorem mem_declarations {ds : List Declaration} (read : (m.declarations models).outcome = .ok ds)
    {declared : Declaration} (member : declared ∈ ds) :
    ∃ s ∈ (sections m.body).2, (s.declaration models).outcome = .ok (some declared) := by
  rw [Model.declarations, Traced.outcome_bind] at read
  obtain ⟨-, -, rest⟩ := Outcome.bind_eq_ok.mp read
  rw [Traced.outcome_bind, Traced.outcome_mapM] at rest
  obtain ⟨all, each, whole⟩ := Outcome.bind_eq_ok.mp rest
  obtain rfl := Except.ok.inj whole
  have some : some declared ∈ all := by simpa using member
  obtain ⟨s, present, outcome⟩ := (Outcome.mapM_eq_ok.mp each).exists_mem_right some
  exact ⟨s, present, outcome⟩

/-- Every subcircuit that was read names a declared model and binds ports of it. -/
theorem definition_subcircuits {d : Definition} (read : (m.definition models).outcome = .ok d) :
    ∀ s ∈ d.body.subcircuits, ∃ target, findModel? models s.model = some target ∧ s.Fits target := by
  obtain ⟨ds, declared, rfl⟩ := definition_eq_ok.mp read
  intro s member
  obtain ⟨declaration, inside, kept⟩ := List.mem_filterMap.mp member
  obtain rfl : declaration = .subcircuit s := by
    cases declaration <;> simp_all
  obtain ⟨section_, -, outcome⟩ := mem_declarations declared inside
  exact Subcircuit.ofArgs_fits (Section.readAs_of_declaration outcome)

def Subcircuit.toInstance (s : Subcircuit) : Instance :=
  ⟨s.model, s.inputs.map (·.formal), s.outputs.map (·.formal)⟩

/-- The boxes of a circuit are its subcircuits, in order. -/
theorem built_instances (d : Definition) :
    d.built.graph.instances = d.body.subcircuits.map Subcircuit.toInstance := by
  obtain ⟨-, regular⟩ := placeModel_yields d.model d.body
  obtain ⟨added, parts, plain⟩ := parts_modelGraph d.model d.body
  have none : added.filterMap Object.instance? = [] := by
    rw [List.filterMap_eq_nil_iff]
    exact fun o member => (plain o member).2
  have whole : d.built.graph.instances = (cells d.model d.body).filterMap (·.object.instance?) := by
    rw [Definition.built, regular.instances_eq, parts, List.filterMap_append, none, List.append_nil,
      List.filterMap_map]
    rfl
  rw [whole]
  simp [cells, List.filterMap_map, Function.comp_def, Cell.object, Cell.input, Cell.output, Cell.node,
    Cell.latch, Cell.box, Object.instance?, Subcircuit.toInstance]

/-- Every cell of a model is an object of its circuit. -/
theorem exists_of_mem_cells {d : Definition} {c : Cell} (member : c ∈ cells d.model d.body) :
    ∃ o ∈ d.built.graph.objects, o.kind = c.kind ∧ o.name = c.name := by
  obtain ⟨added, parts, -⟩ := parts_modelGraph d.model d.body
  have part : c.object ∈ d.built.graph.parts := by
    rw [Definition.built, parts]
    exact List.mem_append_left _ (List.mem_map_of_mem member)
  obtain ⟨o, present, same⟩ := Graph.exists_of_mem_parts part
  refine ⟨o, present, ?_, ?_⟩
  · exact congrArg Object.kind same
  · exact congrArg Object.name same

theorem input_mem_cells {b : Body} {port : String} (declared : port ∈ m.inputs) :
    Cell.input port ∈ cells m b := by
  simp only [cells, List.mem_append]
  exact .inl (.inl (.inl (.inl (List.mem_map_of_mem declared))))

theorem output_mem_cells {b : Body} {port : String} (declared : port ∈ m.outputs) :
    Cell.output port ∈ cells m b := by
  simp only [cells, List.mem_append]
  exact .inl (.inl (.inl (.inr (List.mem_map_of_mem declared))))

/-- The circuit of a model offers the ports that a fitting subcircuit binds. -/
theorem built_offers {d : Definition} {s : Subcircuit} (fits : s.Fits d.model) :
    d.built.Offers s.toInstance where
  inputs := by
    intro formal member
    obtain ⟨b, bound, rfl⟩ := List.mem_map.mp member
    exact exists_of_mem_cells (input_mem_cells (fits.inputs b bound))
  outputs := by
    intro formal member
    obtain ⟨b, bound, rfl⟩ := List.mem_map.mp member
    exact exists_of_mem_cells (output_mem_cells (fits.outputs b bound))

end Blif

end Netlist
