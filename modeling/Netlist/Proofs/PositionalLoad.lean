import Netlist.Proofs.FreshName
import Netlist.Proofs.PositionalBodies
import Netlist.Proofs.Ports
import Netlist.Proofs.Root

/-!
# The positional reader never slips

The drafts that come out of the bodies are lowered to the circuits of the definitions, and the search
for an unused name ends. So the positional reader does what `load` does, event by event, and since
`load` meets no violation, no check of the reader on itself ever fails.
-/

namespace Netlist.Blif.Positional

variable {ms : List Model} {drafts : List Draft}

namespace Reader

open Netlist.Graph

/-- The search for an unused name finds the fresh one. -/
theorem unusedName?_eq (g : Graph) (base : String) : unusedName? g base = some (freshName g base) := by
  unfold unusedName? freshName
  by_cases free : (g.net? base).isNone
  · simp [free]
  · have taken : (g.net? base).isSome := Option.isSome_iff_ne_none.mpr (by simpa using free)
    obtain ⟨k, bound, unused⟩ := exists_numbered_free taken
    have found : ((List.range g.nets.length).find? fun k =>
        (g.net? (numbered base k)).isNone).isSome := by
      rw [List.find?_isSome]
      exact ⟨k, List.mem_range.mpr bound, unused⟩
    obtain ⟨first, at_first⟩ := Option.isSome_iff_exists.mp found
    have at_first : ((List.range g.nets.length).find? fun k =>
        (g.net? s!"{base}_{k + 1}").isNone) = some first := at_first
    simp only [free, Bool.false_eq_true, if_false]
    rw [at_first]
    rfl

theorem unusedName_yields (g : Graph) (base : String) :
    Yields (unusedName base) g (freshName g base) g := by
  refine (yields_get g).andThen ?_
  rw [unusedName?_eq]
  exact yields_pure _ g

theorem ofChange_yields {α : Type} {x : Change Graph α} {g h : Graph} {a : α} (yields : Yields x g a h) :
    Yields (ofChange x) g a h := by
  have run : x.run.run g = (.ok a, h) := yields
  have unfolded : (ofChange x).run.run g = ((x.run.run g).1.mapError .violated, (x.run.run g).2) := rfl
  rw [Yields, unfolded, run]
  rfl

/-- Placing a model slips nowhere and leads to the same graph. -/
theorem placeModel_yields (m : Model) (b : Body) :
    Yields (placeModel m b) {} (modelLatch m b) (modelGraph m b) := by
  obtain ⟨placed, regular⟩ := withCells_yields regular_empty (cells_solid m b)
  unfold modelGraph modelLatch
  by_cases none : b.resets = []
  · simp only [none, if_true]
    refine (ofChange_yields placed).andThen ?_
    simp only [none, if_true]
    exact yields_pure _ _
  · simp only [none, if_false]
    obtain ⟨node, between⟩ := place_yields regular (resetNode_solid _)
    obtain ⟨latch, -⟩ := place_yields between (resetLatch_solid _)
    refine (ofChange_yields placed).andThen ?_
    simp only [none, if_false]
    refine (unusedName_yields _ _).andThen ((ofChange_yields node).andThen ?_)
    refine (unusedName_yields _ _).andThen ((ofChange_yields latch).andThen ?_)
    exact yields_pure _ _

structure Defines (k : Draft) (d : Definition) : Prop where
  name : k.name = d.model.name
  inputs : k.inputs = d.model.inputs
  outputs : k.outputs = d.model.outputs
  blackbox : k.blackbox = d.model.blackbox
  body : declared k = { d.body with properties := [] }

variable {k : Draft} {d : Definition} {m : Model}

theorem Defines.graph_eq (defines : Defines k d) :
    modelGraph (ports k) (declared k) = modelGraph d.model d.body ∧
      modelLatch (ports k) (declared k) = modelLatch d.model d.body := by
  have same : cells (ports k) (declared k) = cells d.model d.body := by
    rw [defines.body]
    simp [cells, ports, defines.inputs, defines.outputs]
  have resets : (declared k).resets = d.body.resets := by rw [defines.body]
  unfold modelGraph modelLatch
  rw [same, resets]
  exact ⟨rfl, rfl⟩

/-- Lowering a draft is lowering what it defines. -/
theorem Defines.lower_eq (defines : Defines k d) : lower .interfacesScanned k =
    d.circuit.mapError .ofLoad >>= fun c => pure { k with circuit := some c } := by
  have placed := placeModel_yields (ports k) (declared k)
  obtain ⟨graph, latch⟩ := defines.graph_eq
  rw [graph, latch] at placed
  have run : (placeModel (ports k) (declared k)).run.run {} =
      (.ok (modelLatch d.model d.body), modelGraph d.model d.body) := placed
  have resets : (declared k).checkResets = d.body.checkResets := by
    rw [defines.body]
    rfl
  have check : (Traced.ofExcept (d.body.checkResets.mapError (.rejected .interfacesScanned))).mapError
      .ofLoad = ofRead .interfacesScanned d.body.checkResets := (ofRead_eq _ _).symm
  simp only [lower, run, resets, Definition.circuit, d.lower_eq, Traced.ofExcept_bind,
    Traced.mapError_bind, bind_assoc, check]
  apply bind_congr
  intro _
  have built : d.built = { name := k.name, type := .netlist, function :=
      if k.blackbox then .blackBox else .sop, graph := modelGraph d.model d.body } := by
    rw [Definition.built, defines.name, defines.blackbox]
  rw [built]
  cases modelLatch d.model d.body with
  | none => rfl
  | some id =>
    rw [← defines.name]
    rfl

/-- A draft whose body has been read defines what the body says. -/
theorem defines_of_ended {lines : List Line} (ended : k.Ended lines m) (model : d.model = m) :
    Defines (k.filled d.body) d where
  name := ended.name.trans (by rw [model])
  inputs := ended.inputs.trans (by rw [model])
  outputs := ended.outputs.trans (by rw [model])
  blackbox := ended.blackbox.trans (by rw [model])
  body := by
    have resets : (d.body.resets.map OpenReset.closed).filterMap
        (fun r => r.value.map (⟨r.line, r.latch, ·⟩)) = d.body.resets := by
      rw [List.filterMap_map]
      exact List.filterMap_some
    simp only [declared, Draft.filled, ended.unread.tables, ended.unread.latches, ended.unread.resets,
      ended.unread.subcircuits, List.nil_append, resets]

/-- The circuits of drafts go to a design as those of their definitions do. -/
theorem lowerAll_eq {ks : List Draft} {ds : List Definition} (defines : List.Forall₂ Defines ks ds)
    (e : Design Network) {β : Type} (next : Design Network → Run β) :
    (ks.mapM (lower .interfacesScanned) >>= fun lowered => next (lowered.foldl addCircuit e)) =
      (ds.mapM Definition.circuit).mapError .ofLoad >>= fun cs =>
        next (cs.foldl (fun d c => d.add { toCircuit := c }) e) := by
  induction defines generalizing e with
  | nil => rfl
  | @cons k d ks ds defines _ ih =>
    rw [List.mapM_cons, defines.lower_eq, List.mapM_cons]
    simp only [Traced.mapError_bind, bind_assoc, pure_bind, Traced.mapError_pure, List.foldl_cons]
    apply bind_congr
    intro c
    exact ih (e.add { toCircuit := c })

/-- Bodies are read in text order, each into its draft. -/
theorem readBodies_eq {lines : List Line} {done todo : List Draft} {rest : List Model} {r : Reader}
    (shown : List.Forall₂ (Draft.Ended lines) todo rest) (whole : r.lines = lines)
    (models : r.models = done ++ todo) (stage : r.stage = .interfacesScanned)
    (indexed : Indexed r.names ms)
    (ports : r.models.map (fun k => (k.inputs, k.outputs)) = ms.map fun m => (m.inputs, m.outputs)) :
    (List.range' done.length todo.length).foldlM readBody r =
      (rest.mapM (Model.definition ms)).mapError rejected >>= fun ds =>
        pure { r with
          models := done ++ List.zipWith (fun k d => k.filled d.body) todo ds
          properties := r.properties ++ ds.flatMap (·.body.properties) } := by
  induction shown generalizing done r with
  | nil =>
    rw [List.length_nil, List.range'_zero, List.foldlM_nil, List.mapM_nil, Traced.mapError_pure,
      pure_bind, List.zipWith_nil_left, ← models, List.flatMap_nil, List.append_nil]
  | @cons k m todo rest ended _ ih =>
    have here : r.models[done.length]? = some k := by simp [models]
    have ready : r.Ready ms done.length k := ⟨stage, ports, indexed, here⟩
    rw [List.length_cons, List.range'_succ, List.foldlM_cons, ready.readBody_eq (by rw [whole]; exact ended),
      List.mapM_cons]
    simp only [Traced.mapError_bind, bind_assoc, pure_bind, Traced.mapError_pure]
    apply bind_congr
    intro d
    have extended := ready.extended d.body
    have size : done.length + 1 = (done ++ [k.filled d.body]).length := by simp
    have next : (r.extended done.length d.body).models = (done ++ [k.filled d.body]) ++ todo := by
      rw [ready.extended_models]
      simp [Reader.put, models]
    have whole : (r.extended done.length d.body).lines = lines := whole
    rw [size, ih whole next extended.stage extended.indexed extended.ports]
    apply bind_congr
    intro ds
    simp [Reader.extended]

def parsed (lines : List Line) (drafts : List Draft) (names : List (String × Nat))
    (definitions : List Definition) (design : Design Network) : Reader :=
  { scanned lines drafts names with
    stage := .parsed
    models := List.zipWith (fun k d => k.filled d.body) drafts definitions
    properties := definitions.flatMap (·.body.properties)
    design := some design }

theorem defines_of_mapM {lines : List Line} {ds : List Definition}
    (shown : List.Forall₂ (Draft.Ended lines) drafts ms) {all : List Model}
    (read : (ms.mapM (Model.definition all)).outcome = .ok ds) :
    List.Forall₂ Defines (List.zipWith (fun k d => k.filled d.body) drafts ds) ds := by
  rw [Traced.outcome_mapM, Outcome.mapM_eq_ok] at read
  induction shown generalizing ds with
  | nil =>
    cases read
    exact .nil
  | cons ended _ ih =>
    cases read with
    | cons first rest => exact .cons (defines_of_ended ended (definition_model first)) (ih rest)

theorem parse_eq {lines : List Line} {names : List (String × Nat)}
    (shown : List.Forall₂ (Draft.Ended lines) drafts ms) (indexed : Indexed names ms) (id : DesignId)
    (name : String) :
    (scanned lines drafts names).parse id name =
      (ms.mapM (Model.definition ms)).mapError rejected >>= fun ds =>
        (ds.mapM Definition.circuit).mapError .ofLoad >>= fun cs =>
          Traced.emit (.advanced .interfacesScanned .parsed) >>= fun _ =>
            pure (parsed lines drafts names ds
              (cs.foldl (fun d c => d.add { toCircuit := c }) { id := id, name := name })) := by
  have ports : drafts.map (fun k => (k.inputs, k.outputs)) = ms.map fun m => (m.inputs, m.outputs) := by
    clear indexed
    induction shown with
    | nil => rfl
    | cons ended _ ih => rw [List.map_cons, List.map_cons, ih, ended.inputs, ended.outputs]
  have start : (scanned lines drafts names).models = [] ++ drafts := rfl
  have bodies := readBodies_eq shown rfl start rfl indexed ports
  rw [List.length_nil, ← List.range_eq_range'] at bodies
  have unfolded : (scanned lines drafts names).parse id name =
      (List.range drafts.length).foldlM readBody (scanned lines drafts names) >>= fun r =>
        r.models.mapM (lower r.stage) >>= fun lowered =>
          advance .parsed { r with design := some (lowered.foldl addCircuit { id, name }) } := rfl
  rw [unfolded, bodies, bind_assoc]
  apply Traced.bind_congr_of_ok
  intro ds read
  have outcome : (ms.mapM (Model.definition ms)).outcome = .ok ds := Outcome.mapError_eq_ok.mp read
  have lowered := lowerAll_eq (defines_of_mapM shown outcome) { id, name } fun d =>
    advance .parsed { scanned lines drafts names with
      models := List.zipWith (fun k d => k.filled d.body) drafts ds
      properties := ds.flatMap (·.body.properties)
      design := some d }
  rw [pure_bind]
  exact lowered

/-- The lines of a text, and the event that tells of them. -/
theorem preparse_eq (text : String) :
    preparse text {} = ofRead .empty (Line.ofText text) >>= fun lines =>
      Traced.emit (.advanced .empty .preparsed) >>= fun _ => pure (preparsed lines) := by
  rw [← lines_eq, bind_assoc]
  rfl

/-- Reading by positions gives the design of the text and its properties. -/
theorem read_eq (text : String) (id : DesignId) (name : String) :
    read text id name = (Contents.ofText text).mapError .ofLoad >>= fun c =>
      pure (c.design id name, c.properties) := by
  have composed : Halt.ofLoad ∘ LoadError.rejected .interfacesScanned = rejected := rfl
  simp only [read, Contents.ofText, preparse_eq, Traced.mapError_bind, bind_assoc, pure_bind,
    ← ofRead_eq, Traced.mapError_emit, Traced.mapError_pure, Traced.mapError_mapError, composed]
  refine bind_congr fun lines => bind_congr fun _ => ?_
  rcases readInterfaces_eq lines with
    ⟨e, refused, reader⟩ | ⟨ms, drafts, names, scan, reader, shown, indexed⟩
  · rw [refused, reader]
    rfl
  · rw [scan, reader, ofRead_ok, pure_bind]
    simp only [bind_assoc, pure_bind, parse_eq shown indexed]
    rfl

end Reader

theorem report_mapError {α : Type} (x : Load α) :
    report (x.mapError .ofLoad) = (Load.report x).mapError .ofLoad := by
  obtain ⟨events, outcome⟩ := x
  cases outcome with
  | ok a => rfl
  | error e => cases e <;> rfl

/-- Reading by positions does what `load` does, up to the kind of its failures. -/
theorem load_eq (text : String) (file : Option String) (id : DesignId) :
    load text file id = (Blif.load text file id).mapError .ofLoad := by
  rw [Blif.load, ← report_mapError, load]
  simp only [Reader.read_eq, Traced.mapError_bind, bind_assoc, pure_bind]

/-- No check of the positional reader on itself fails, and no precondition of an operation that it
calls is broken: what it does is what `load` does, which ends in a network or in an error of the text. -/
theorem load_never_slips (text : String) (file : Option String) (id : DesignId) :
    load text file id = (Blif.load text file id).mapError .failed ∧
      ((∃ n, (load text file id).outcome = .ok n) ∨
        ∃ e, (load text file id).outcome = .error (.failed e) ∧ ∀ v, e ≠ .violated v) := by
  have same : load text file id = (Blif.load text file id).mapError .failed := by
    rw [load_eq]
    cases ended : (Blif.load text file id).outcome with
    | ok n => simp [Traced.mapError, ended, Except.mapError]
    | error e =>
      have kept : Halt.ofLoad e = .failed e := by
        cases e with
        | violated v => exact absurd rfl (load_error_ne ended v)
        | _ => rfl
      simp [Traced.mapError, ended, Except.mapError, kept]
  refine ⟨same, ?_⟩
  rw [same, Traced.outcome_mapError]
  cases ended : (Blif.load text file id).outcome with
  | ok n => exact .inl ⟨n, rfl⟩
  | error e => exact .inr ⟨e, rfl, load_error_ne ended⟩

end Netlist.Blif.Positional
