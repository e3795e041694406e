import Netlist.Blif.Load
import Netlist.Proofs.Extraction
import Netlist.Proofs.Outcome
import Netlist.Proofs.Placement
import Netlist.Proofs.Scan

/-!
# The stages of a load

A load succeeds when every stage does: the lines, the models, the bodies, the circuits, the check of
every circuit, the search for cycles below the root. The circuits are those that the definitions
describe, and the root's network is the chosen module of the design, taken out of it.
-/

namespace Netlist.Blif

def Definition.built (d : Definition) : Circuit where
  name := d.model.name
  type := .netlist
  function := if d.model.blackbox then .blackBox else .sop
  graph := modelGraph d.model d.body

/-- Lowering fails for its resets only. -/
theorem Definition.lower_eq (d : Definition) : d.lower =
    d.body.checkResets.mapError (.rejected .interfacesScanned) >>= fun _ =>
      .ok (d.built, modelLatch d.model d.body) := by
  obtain ⟨placed, -⟩ := placeModel_yields d.model d.body
  have run : (placeModel d.model d.body).run.run {} =
      (.ok (modelLatch d.model d.body), modelGraph d.model d.body) := placed
  apply bind_congr
  intro _
  rw [run]
  rfl

theorem Definition.outcome_circuit (d : Definition) : d.circuit.outcome =
    d.body.checkResets.mapError (.rejected .interfacesScanned) >>= fun _ => .ok d.built := by
  rw [circuit, Traced.outcome_bind, Traced.outcome_ofExcept, d.lower_eq, bind_assoc]
  apply bind_congr
  intro _
  cases latch : modelLatch d.model d.body with
  | none => rfl
  | some id => rfl

/-- A computation that fails only when it refuses the text. -/
def Refuses {α : Type} (x : Load α) : Prop :=
  ∀ e, x.outcome = .error e → ∃ stage error, e = .rejected stage error

namespace Refuses

variable {α β : Type}

theorem pure (a : α) : Refuses (Pure.pure a) := by
  intro e failed
  cases failed

theorem emit (event : Event) : Refuses (Traced.emit event) := by
  intro e failed
  cases failed

theorem mapError (stage : Stage) (x : Traced ReadError α) : Refuses (x.mapError (.rejected stage)) := by
  intro e failed
  obtain ⟨error, -, rfl⟩ := Outcome.mapError_eq_error.mp failed
  exact ⟨stage, error, rfl⟩

theorem bind {x : Load α} {f : α → Load β} (first : Refuses x) (next : ∀ a, Refuses (f a)) :
    Refuses (x >>= f) := by
  intro e failed
  rw [Traced.outcome_bind] at failed
  rcases Outcome.bind_eq_error.mp failed with here | ⟨a, -, later⟩
  · exact first e here
  · exact next a e later

theorem mapM {f : α → Load β} (each : ∀ a, Refuses (f a)) (l : List α) : Refuses (l.mapM f) := by
  intro e failed
  rw [Traced.outcome_mapM] at failed
  obtain ⟨a, -, failed⟩ := Outcome.mapM_eq_error failed
  exact each a e failed

/-- Lowering refuses a reset that names no latch, and breaks no rule of the graph. -/
theorem circuit (d : Definition) : Refuses d.circuit := by
  intro e failed
  rw [d.outcome_circuit] at failed
  rcases Outcome.bind_eq_error.mp failed with unknown | ⟨_, -, impossible⟩
  · obtain ⟨error, -, rfl⟩ := Outcome.mapError_eq_error.mp unknown
    exact ⟨_, error, rfl⟩
  · cases impossible

theorem ofText (text : String) : Refuses (Contents.ofText text) := by
  apply bind (mapError _ (.ofExcept (Line.ofText text)))
  intro lines
  apply bind (emit _)
  intro _
  apply bind (mapError _ (.ofExcept (Model.ofLines lines)))
  intro models
  apply bind (emit _)
  intro _
  apply bind (mapError _ _)
  intro definitions
  apply bind (mapM circuit definitions)
  intro circuits
  apply bind (emit _)
  intro _
  exact pure _

end Refuses

theorem circuits_eq_ok {ds : List Definition} {cs : List Circuit} :
    (ds.mapM Definition.circuit).outcome = .ok cs ↔
      (∀ d ∈ ds, d.body.checkResets = .ok ()) ∧ cs = ds.map Definition.built := by
  have each (d : Definition) (c : Circuit) : d.circuit.outcome = .ok c ↔
      d.body.checkResets = .ok () ∧ c = d.built := by
    rw [d.outcome_circuit]
    cases d.body.checkResets with
    | ok _ => simp [Except.mapError, Bind.bind, Except.bind, eq_comm]
    | error e => simp [Except.mapError, Bind.bind, Except.bind]
  rw [Traced.outcome_mapM, Outcome.mapM_eq_ok]
  simp only [each]
  induction ds generalizing cs with
  | nil => simp
  | cons d ds ih =>
    rw [List.forall₂_cons_left_iff, List.forall_mem_cons, List.map_cons]
    constructor
    · rintro ⟨c, rest, ⟨checked, rfl⟩, tail, rfl⟩
      obtain ⟨others, rfl⟩ := ih.mp tail
      exact ⟨⟨checked, others⟩, rfl⟩
    · rintro ⟨⟨checked, others⟩, rfl⟩
      exact ⟨_, _, ⟨checked, rfl⟩, ih.mpr ⟨others, rfl⟩, rfl⟩

structure Reads (text : String) (lines : List Line) (models : List Model)
    (definitions : List Definition) : Prop where
  lines_eq : Line.ofText text = .ok lines
  models_eq : Model.ofLines lines = .ok models
  bodies : List.Forall₂ (fun m d => (m.definition models).outcome = .ok d) models definitions
  resets : ∀ d ∈ definitions, d.body.checkResets = .ok ()

theorem ofText_eq_ok {text : String} {c : Contents} : (Contents.ofText text).outcome = .ok c ↔
    ∃ lines models definitions, Reads text lines models definitions ∧
      c = ⟨definitions.map Definition.built, definitions.flatMap (·.body.properties)⟩ := by
  simp only [Contents.ofText, Traced.outcome_bind, Traced.outcome_emit, Load.ofRead,
    Traced.outcome_ofExcept, Traced.outcome_mapError, Outcome.bind_eq_ok, Outcome.mapError_eq_ok,
    Traced.outcome_mapM, Traced.outcome_pure]
  constructor
  · rintro ⟨lines, read, _, -, models, scanned, _, -, ds, bodies, cs, lowered, _, -, whole⟩
    obtain ⟨resets, rfl⟩ := circuits_eq_ok.mp ((Traced.outcome_mapM _ _).trans lowered)
    exact ⟨lines, models, ds, ⟨read, scanned, Outcome.mapM_eq_ok.mp bodies, resets⟩,
      (Except.ok.inj whole).symm⟩
  · rintro ⟨lines, models, ds, reads, rfl⟩
    have lowered := circuits_eq_ok.mpr ⟨reads.resets, rfl⟩
    rw [Traced.outcome_mapM] at lowered
    exact ⟨lines, reads.lines_eq, (), trivial, models, reads.models_eq, (), trivial, ds,
      Outcome.mapM_eq_ok.mpr reads.bodies, _, lowered, (), trivial, rfl⟩

theorem Reads.length_eq {text : String} {lines : List Line} {models : List Model}
    {definitions : List Definition} (reads : Reads text lines models definitions) :
    definitions.length = models.length := reads.bodies.length_eq.symm

/-- The modules of the design are the circuits with their positions. -/
theorem Contents.design_modules (contents : Contents) (id : DesignId) (name : String) :
    (contents.design id name).modules =
      contents.circuits.mapIdx fun i c => { toCircuit := c, design := some id, modelId := i } := by
  have grown : ∀ (cs : List Circuit) (d : Design Network), d.id = id →
      (cs.foldl (fun d c => d.add { toCircuit := c }) d).modules = d.modules ++
        cs.mapIdx fun i c =>
          { toCircuit := c, design := some id, modelId := d.modules.length + i } := by
    intro cs
    induction cs with
    | nil => simp
    | cons c cs ih =>
      rintro d rfl
      rw [List.foldl_cons, ih (d.add { toCircuit := c }) rfl]
      simp [Design.add, List.mapIdx_cons, Nat.add_assoc, Nat.add_comm 1]
  simpa [design] using grown contents.circuits { id, name } rfl

theorem Contents.design_circuits (contents : Contents) (id : DesignId) (name : String) :
    (contents.design id name).modules.map Network.toCircuit = contents.circuits := by
  rw [contents.design_modules]
  apply List.ext_getElem
  · simp
  · simp

theorem Contents.design_fresh (contents : Contents) (id : DesignId) (name : String) :
    (contents.design id name).Fresh := by
  intro m member
  rw [contents.design_modules] at member
  obtain ⟨i, inside, rfl⟩ := List.mem_mapIdx.mp member
  exact ⟨rfl, rfl, rfl, rfl⟩

end Netlist.Blif
