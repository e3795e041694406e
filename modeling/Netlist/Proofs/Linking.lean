import Netlist.Proofs.Acyclic
import Netlist.Proofs.Stages
import Netlist.Proofs.TopLevel

/-!
# Linking, step by step

For a design as reading leaves it, the outcome of linking is that of the check of its circuits, then
that of the search for cycles below the chosen root, and then the network of the root. No step of it
meets a violation.
-/

namespace Netlist

def Network.retained (n : Network) : List Network := (n.hierarchy.map (·.modules)).getD []

namespace Design

def prepared (d : Design Network) : Design Network := d.settled.markTopLevel

end Design

namespace Blif

open Design

open Relation (ReflTransGen TransGen)

variable {d : Design Network}

theorem ofViolation_ok {α : Type} (a : α) : Load.ofViolation (.ok a) = pure a := rfl

theorem moduleName_of_getElem? {i : Nat} {m : Network} (here : d.modules[i]? = some m) :
    moduleName d i = .ok m.name := by
  simp [moduleName, here]

theorem settleExdc_outcome (fresh : d.Fresh) : (settleExdc d).outcome = .ok d.settled := by
  rcases fresh.extraction with ⟨-, yields⟩ | ⟨before, owner, companion, after, divided, -, -, yields⟩
  · have run : extractExdc.run.run d = (.ok none, d) := yields
    simp only [settleExdc, settled, run, ofViolation_ok, pure_bind]
    rfl
  · have run : extractExdc.run.run d = (.ok (some before.length), _) := yields
    have named := moduleName_of_getElem? (d := d.settled) (i := before.length) (by
      rw [Yields.settled_eq yields]
      exact List.getElem?_append_right (Nat.le_refl _) |>.trans (by simp; rfl))
    rw [settled, run] at named
    simp only [settleExdc, settled, run, ofViolation_ok, pure_bind, named]
    rfl

/-- The network that the root becomes when it is taken out. -/
def taken (d : Design Network) (root : Nat) (m : Network) (file : Option String)
    (properties : List String) : Network :=
  let n :=
    if d.modules.length = 1 then { m with design := none, spec := file }
    else { m with
      design := none
      spec := if m.spec.isNone then file else m.spec
      hierarchy := some { d with
        modules := d.modules.eraseIdx root, topLevel := closeGap root d.topLevel } }
  { n with properties := m.properties ++ properties }

theorem takeRoot_outcome {root : Nat} {m : Network} (here : d.modules[root]? = some m)
    (file : Option String) (properties : List String) :
    (takeRoot d root file properties).outcome = .ok (taken d root m file properties) := by
  have detached : d.detach root = some ({ m with design := none },
      { d with modules := d.modules.eraseIdx root, topLevel := closeGap root d.topLevel }) := by
    simp [detach, here]
  simp only [takeRoot, detached, taken, Traced.outcome_bind, Traced.outcome_emit]
  split
  · rfl
  · cases m.spec <;> rfl

theorem chooseRoot_outcome {root : Nat} {m : Network} (chosen : d.topLevel.headD 0 = root)
    (here : d.modules[root]? = some m) {answer : Except Cycle Unit}
    (searched : d.checkAcyclic root = .ok answer) :
    (chooseRoot d).outcome = answer.mapError .cyclic >>= fun _ => .ok root := by
  have named := moduleName_of_getElem? here
  subst chosen
  rw [chooseRoot, searched, named]
  simp only [ofViolation_ok, pure_bind]
  by_cases several : 1 < d.topLevel.length
  · rw [if_pos several, Traced.outcome_bind]
    cases answer <;> rfl
  · rw [if_neg several]
    cases answer <;> rfl

theorem checkAll_outcome (d : Design Network) : (checkAll d).outcome =
    (d.modules.forM fun m => m.check.outcome).mapError .inconsistent := by
  rw [checkAll, Traced.outcome_bind, Traced.outcome_mapError, Traced.outcome_forM]
  cases (d.modules.forM fun m => m.check.outcome) <;> rfl

/-- The outcome of linking a design that is fresh and holds at least one module. -/
theorem link_outcome (fresh : d.Fresh) (some : d.modules ≠ []) (file : Option String)
    (properties : List String) :
    ∃ m answer, d.prepared.modules[d.prepared.rootPosition]? = Option.some m ∧
      d.prepared.checkAcyclic d.prepared.rootPosition = .ok answer ∧
      (link d file properties).outcome =
        ((d.modules.forM fun m => m.check.outcome).mapError .inconsistent >>= fun _ =>
          answer.mapError .cyclic >>= fun _ =>
            .ok (taken d.prepared d.prepared.rootPosition m file properties)) := by
  have inside : d.prepared.rootPosition < d.prepared.modules.length :=
    rootPosition_lt (fresh.settled_ne_nil some)
  have here := List.getElem?_eq_getElem inside
  obtain ⟨answer, searched⟩ := d.prepared.checkAcyclic_total inside
  refine ⟨_, answer, here, searched, ?_⟩
  rw [link, Traced.outcome_bind, checkAll_outcome]
  apply bind_congr
  intro _
  rw [Traced.outcome_bind, settleExdc_outcome fresh]
  have chosen : (chooseRoot d.prepared).outcome = _ := chooseRoot_outcome rfl here searched
  have rest : (chooseRoot d.prepared >>= fun root => takeRoot d.prepared root file properties).outcome =
      answer.mapError .cyclic >>= fun _ =>
        .ok (taken d.prepared d.prepared.rootPosition d.prepared.modules[d.prepared.rootPosition] file
          properties) := by
    rw [Traced.outcome_bind, chosen, bind_assoc]
    apply bind_congr
    intro _
    exact takeRoot_outcome here file properties
  exact rest

theorem check_eq_ok {c : Circuit} : c.check.outcome = .ok () ↔ c.graph.problems = [] := by
  unfold Circuit.check
  cases c.graph.problems <;> simp

/-- A design is linked when its circuits are consistent and no cycle lies below the chosen root. -/
theorem link_eq_ok (fresh : d.Fresh) (some : d.modules ≠ []) {file : Option String}
    {properties : List String} {n : Network} :
    (link d file properties).outcome = .ok n ↔
      (∀ m ∈ d.modules, m.graph.problems = []) ∧
      (∀ i, ReflTransGen d.prepared.Leads d.prepared.rootPosition i →
        ¬ TransGen d.prepared.Leads i i) ∧
      ∃ m, d.prepared.modules[d.prepared.rootPosition]? = Option.some m ∧
        n = taken d.prepared d.prepared.rootPosition m file properties := by
  obtain ⟨m, answer, here, searched, linked⟩ := link_outcome fresh some file properties
  have inside := (List.getElem?_eq_some_iff.mp here).1
  have accepted := d.prepared.checkAcyclic_accepts_iff inside
  have checked : (d.modules.forM fun m => m.check.outcome) = .ok () ↔
      ∀ m ∈ d.modules, m.graph.problems = [] := by
    simp only [Outcome.forM_eq_ok, check_eq_ok]
  rw [linked, Outcome.bind_eq_ok, ← accepted, ← checked, searched, here]
  constructor
  · rintro ⟨_, consistent, rest⟩
    obtain ⟨_, acyclic, whole⟩ := Outcome.bind_eq_ok.mp rest
    rw [Outcome.mapError_eq_ok] at consistent acyclic
    exact ⟨consistent, congrArg Except.ok acyclic, m, rfl, (Except.ok.inj whole).symm⟩
  · rintro ⟨consistent, acyclic, m', same, rfl⟩
    obtain rfl := Option.some.inj same
    obtain rfl := Except.ok.inj acyclic
    rw [consistent]
    exact ⟨(), rfl, rfl⟩

def ending {α : Type} : Except LoadError α → List Event
  | .ok _ => []
  | .error e => e.events

theorem Load.report_eq {α : Type} (x : Load α) :
    x.report = ⟨x.events ++ ending x.outcome, x.outcome⟩ := by
  obtain ⟨events, e | a⟩ := x
  · rfl
  · simp [report, ending]

theorem load_outcome (text : String) (file : Option String) (id : DesignId) :
    (load text file id).outcome = (Contents.ofText text).outcome >>= fun c =>
      (link (c.design id (file.getD "")) file c.properties).outcome := by
  rw [load, Load.report_eq, ← Traced.outcome_bind]

def linkLog (read : Except LoadError Contents) (file : Option String) (id : DesignId) : List Event :=
  match read with
  | .ok c => (link (c.design id (file.getD "")) file c.properties).events
  | .error _ => []

theorem linkLog_mapError (read : Except LoadError Contents) (g : LoadError → LoadError)
    (file : Option String) (id : DesignId) :
    linkLog (read.mapError g) file id = linkLog read file id := by
  cases read <;> rfl

theorem load_events (text : String) (file : Option String) (id : DesignId) :
    (load text file id).events = (Contents.ofText text).events ++
      linkLog (Contents.ofText text).outcome file id ++ ending (load text file id).outcome := by
  rw [load, Load.report_eq]
  cases read : (Contents.ofText text).outcome with
  | ok c =>
    rw [Traced.bind_of_ok read]
    rfl
  | error e => rw [Traced.bind_of_error read, linkLog, List.append_nil]

theorem ofText_design_ne_nil {text : String} {c : Contents}
    (read : (Contents.ofText text).outcome = .ok c) (id : DesignId) (name : String) :
    (c.design id name).modules ≠ [] := by
  obtain ⟨lines, models, definitions, reads, rfl⟩ := ofText_eq_ok.mp read
  rw [Contents.design_modules]
  intro empty
  have none : definitions = [] := by simpa using empty
  have same := reads.length_eq
  rw [none, List.length_nil, eq_comm, List.length_eq_zero_iff] at same
  exact ofLines_ne_nil reads.models_eq same

end Blif

end Netlist
