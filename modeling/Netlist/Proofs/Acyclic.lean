import Netlist.Hierarchy
import Netlist.Proofs.Outcome
import Mathlib.Logic.Relation

/-!
# The search for cycles is exact

`checkAcyclic` accepts a root exactly when no module that it leads to, itself included, lies on an
instantiation cycle. A search that ends without finding a cycle leaves a set of modules that no edge
leaves and that holds no cycle. A search that finds one stands on a chain of modules each of which
leads to the module at hand, so that coming back to the chain closes a cycle.
-/

namespace Netlist.Design

open Relation (ReflTransGen TransGen)

variable {d : Design Network}

/-- Some box of module `i` instantiates a name whose first bearer is module `j`. -/
def Leads (d : Design Network) (i j : Nat) : Prop :=
  ∃ m, d.modules[i]? = some m ∧ ∃ name ∈ m.models, d.find? name = some j

abbrev Edge (d : Design Network) (i j : d.Position) : Prop := j ∈ d.children i

theorem edge_iff {i j : d.Position} : d.Edge i j ↔ d.Leads i j := by
  simp only [Edge, children, List.mem_filterMap, Leads, find?, List.findIdx?_eq_map_findFinIdx?_val,
    Option.map_eq_some_iff, Fin.val_inj, exists_eq_right]
  constructor
  · rintro ⟨name, member, found⟩
    exact ⟨d.modules[i], by simp, name, member, found⟩
  · rintro ⟨m, here, name, member, found⟩
    obtain rfl : d.modules[i] = m := by simpa using here
    exact ⟨name, member, found⟩

theorem Leads.target_lt {i j : Nat} (edge : d.Leads i j) : j < d.modules.length := by
  obtain ⟨m, -, name, -, found⟩ := edge
  exact (List.findIdx?_eq_some_iff_findIdx_eq.mp found).1

/-- Every walk from a module runs through modules, so it is a walk along edges. -/
theorem reaches_iff {i : d.Position} {k : Nat} :
    ReflTransGen d.Leads i k ↔ ∃ j : d.Position, j.val = k ∧ ReflTransGen d.Edge i j := by
  constructor
  · intro walk
    induction walk with
    | refl => exact ⟨i, rfl, .refl⟩
    | tail _ step ih =>
      obtain ⟨j, rfl, walk⟩ := ih
      exact ⟨⟨_, step.target_lt⟩, rfl, walk.tail (edge_iff.mpr step)⟩
  · rintro ⟨j, rfl, walk⟩
    exact walk.lift Fin.val fun _ _ => edge_iff.mp

theorem onCycle_iff {i : d.Position} : TransGen d.Leads i i ↔ TransGen d.Edge i i := by
  constructor
  · intro cycle
    obtain ⟨k, walk, last⟩ := TransGen.tail'_iff.mp cycle
    obtain ⟨j, rfl, edges⟩ := reaches_iff.mp walk
    exact TransGen.tail' edges (edge_iff.mpr last)
  · exact fun cycle => cycle.lift Fin.val fun _ _ => edge_iff.mp

/-- Modules that no edge leaves and none of which lies on a cycle. -/
structure Settled (d : Design Network) (ended : List d.Position) : Prop where
  closed : ∀ i ∈ ended, ∀ j, d.Edge i j → j ∈ ended
  acyclic : ∀ i ∈ ended, ¬ TransGen d.Edge i i

theorem settled_nil : Settled d [] := ⟨by simp, by simp⟩

theorem Settled.mem_of_reaches {ended : List d.Position} (settled : Settled d ended)
    {i j : d.Position} (member : i ∈ ended) (walk : ReflTransGen d.Edge i j) : j ∈ ended := by
  induction walk with
  | refl => exact member
  | tail _ step ih => exact settled.closed _ ih _ step

/-- A module all of whose children have ended may end too: a cycle through it would pass through one
of its children and so would have been among the ended ones. -/
theorem Settled.cons {ended : List d.Position} (settled : Settled d ended) {i : d.Position}
    (children : ∀ j, d.Edge i j → j ∈ ended) : Settled d (i :: ended) where
  closed := by
    intro k member j step
    rcases List.mem_cons.mp member with rfl | member
    · exact List.mem_cons_of_mem _ (children j step)
    · exact List.mem_cons_of_mem _ (settled.closed k member j step)
  acyclic := by
    intro k member cycle
    rcases List.mem_cons.mp member with rfl | member
    · obtain ⟨j, step, back⟩ := TransGen.head'_iff.mp cycle
      have ended := settled.mem_of_reaches (children j step) back
      exact settled.acyclic k ended cycle
    · exact settled.acyclic k member cycle

/-- What a search promises of the modules that have ended after it, and so does a sequence. -/
theorem foldlM_settles {step : List d.Position → d.Position → Except String (List d.Position)}
    (each : ∀ ended j out, Settled d ended → step ended j = .ok out →
      Settled d out ∧ ended ⊆ out ∧ j ∈ out) :
    ∀ (js ended out : List d.Position), Settled d ended → js.foldlM step ended = .ok out →
      Settled d out ∧ ended ⊆ out ∧ ∀ j ∈ js, j ∈ out := by
  intro js
  induction js with
  | nil =>
    intro ended out settled done
    obtain rfl : ended = out := Except.ok.inj done
    exact ⟨settled, List.Subset.refl _, by simp⟩
  | cons j js ih =>
    intro ended out settled done
    obtain ⟨mid, first, rest⟩ := Outcome.bind_eq_ok.mp (List.foldlM_cons.symm.trans done)
    obtain ⟨settled, below, here⟩ := each ended j mid settled first
    obtain ⟨settled, above, others⟩ := ih mid out settled rest
    refine ⟨settled, List.Subset.trans below above, ?_⟩
    intro k member
    rcases List.mem_cons.mp member with rfl | member
    · exact above here
    · exact others k member

theorem foldlM_error {step : List d.Position → d.Position → Except String (List d.Position)}
    {name : String} : ∀ (js ended : List d.Position), js.foldlM step ended = .error name →
      ∃ j ∈ js, ∃ mid, step mid j = .error name := by
  intro js
  induction js with
  | nil => intro ended failed; cases failed
  | cons j js ih =>
    intro ended failed
    rcases Outcome.bind_eq_error.mp (List.foldlM_cons.symm.trans failed) with here | ⟨mid, -, rest⟩
    · exact ⟨j, List.mem_cons_self, ended, here⟩
    · obtain ⟨k, member, later⟩ := ih mid rest
      exact ⟨k, List.mem_cons_of_mem j member, later⟩

theorem visit_settles {chain ended out : List d.Position} {i : d.Position}
    (settled : Settled d ended) (done : d.visit chain i ended = .ok out) :
    Settled d out ∧ ended ⊆ out ∧ i ∈ out := by
  rw [visit] at done
  split at done
  next member =>
    obtain rfl := Except.ok.inj done
    exact ⟨settled, List.Subset.refl _, member⟩
  next =>
    split at done
    next => cases done
    next fresh =>
      obtain ⟨below, searched, added⟩ := Outcome.bind_eq_ok.mp done
      obtain rfl : i :: below = out := Except.ok.inj added
      obtain ⟨settled, grown, children⟩ := foldlM_settles
        (fun _ _ _ settled done => visit_settles settled done) _ _ _ settled searched
      have kept : ended ⊆ i :: below := List.Subset.trans grown (List.subset_cons_self ..)
      exact ⟨settled.cons children, kept, List.mem_cons_self⟩
termination_by d.offChain chain
decreasing_by exact offChain_cons_lt ‹_›

/-- The chain leads to the module at hand, and stays so one step further down. -/
theorem visit_error {chain ended : List d.Position} {i : d.Position} {name : String}
    (linked : ∀ c ∈ chain, TransGen d.Edge c i) (failed : d.visit chain i ended = .error name) :
    ∃ k, (d.modules.get k).name = name ∧ ReflTransGen d.Edge i k ∧ TransGen d.Edge k k := by
  rw [visit] at failed
  split at failed
  next => cases failed
  next =>
    split at failed
    next member =>
      exact ⟨i, Except.error.inj failed, .refl, linked i member⟩
    next fresh =>
      rcases Outcome.bind_eq_error.mp failed with failed | ⟨_, -, impossible⟩
      · obtain ⟨j, step, mid, failed⟩ := foldlM_error _ _ failed
        have extended : ∀ c ∈ i :: chain, TransGen d.Edge c j := by
          intro c member
          rcases List.mem_cons.mp member with rfl | member
          · exact .single step
          · exact (linked c member).tail step
        obtain ⟨k, named, walk, cycle⟩ := visit_error extended failed
        exact ⟨k, named, walk.head step, cycle⟩
      · cases impossible
termination_by d.offChain chain
decreasing_by exact offChain_cons_lt ‹_›

/-- The two answers of a search and what each of them means. -/
theorem checkAcyclic_cases (d : Design Network) {root : Nat} (inside : root < d.modules.length) :
    (d.checkAcyclic root = .ok (.ok ()) ∧
        ∀ i, ReflTransGen d.Leads root i → ¬ TransGen d.Leads i i) ∨
      ∃ k : d.Position,
        d.checkAcyclic root = .ok (.error ⟨d.modules[root].name, d.modules[k].name⟩) ∧
        ReflTransGen d.Leads root k ∧ TransGen d.Leads k k := by
  cases searched : d.visit [] ⟨root, inside⟩ [] with
  | ok out =>
    obtain ⟨settled, -, member⟩ := visit_settles settled_nil searched
    refine .inl ⟨by simp [checkAcyclic, inside, searched], ?_⟩
    intro i walk cycle
    obtain ⟨j, rfl, edges⟩ := (reaches_iff (i := ⟨root, inside⟩)).mp walk
    have ended := settled.mem_of_reaches member edges
    exact settled.acyclic j ended (onCycle_iff.mp cycle)
  | error name =>
    obtain ⟨k, rfl, walk, cycle⟩ := visit_error (by simp) searched
    refine .inr ⟨k, by simp [checkAcyclic, inside, searched], ?_, onCycle_iff.mpr cycle⟩
    exact (reaches_iff (i := ⟨root, inside⟩)).mpr ⟨k, rfl, walk⟩

theorem checkAcyclic_total (d : Design Network) {root : Nat} (inside : root < d.modules.length) :
    ∃ answer, d.checkAcyclic root = .ok answer := by
  rcases d.checkAcyclic_cases inside with ⟨accepted, -⟩ | ⟨k, refused, -⟩
  · exact ⟨_, accepted⟩
  · exact ⟨_, refused⟩

theorem checkAcyclic_accepts_iff (d : Design Network) {root : Nat}
    (inside : root < d.modules.length) :
    d.checkAcyclic root = .ok (.ok ()) ↔
      ∀ i, ReflTransGen d.Leads root i → ¬ TransGen d.Leads i i := by
  rcases d.checkAcyclic_cases inside with ⟨accepted, acyclic⟩ | ⟨k, refused, walk, cycle⟩
  · exact iff_of_true accepted acyclic
  · constructor
    · intro accepted
      cases refused.symm.trans accepted
    · intro acyclic
      exact absurd cycle (acyclic k walk)

/-- Every search ends with an answer, and the answer is right in both directions. -/
theorem checkAcyclic_exact (d : Design Network) {root : Nat} (inside : root < d.modules.length) :
    (∃ answer, d.checkAcyclic root = .ok answer) ∧
    (d.checkAcyclic root = .ok (.ok ()) ↔
      ∀ i, ReflTransGen d.Leads root i → ¬ TransGen d.Leads i i) ∧
    ∀ c, d.checkAcyclic root = .ok (.error c) →
      c.root = d.modules[root].name ∧
      ∃ i m, d.modules[i]? = some m ∧ m.name = c.module ∧
        ReflTransGen d.Leads root i ∧ TransGen d.Leads i i := by
  refine ⟨d.checkAcyclic_total inside, d.checkAcyclic_accepts_iff inside, ?_⟩
  intro c reported
  rcases d.checkAcyclic_cases inside with ⟨accepted, -⟩ | ⟨k, refused, walk, cycle⟩
  · cases accepted.symm.trans reported
  · obtain rfl := Except.error.inj (Except.ok.inj (refused.symm.trans reported))
    exact ⟨rfl, k, d.modules[k], by simp, rfl, walk, cycle⟩

def instantiating (name : String) (models : List String) : Network where
  name := name
  type := .netlist
  function := .sop
  graph := models.foldl (fun g model => g.add .box none (.uses ⟨model, [], []⟩)) {}

/-- The module below the root instantiates itself. -/
def cycleBelowRoot : Design Network where
  id := ⟨0⟩
  name := "cycle"
  modules := [instantiating "top" ["a", "absent", "a"], instantiating "a" ["a"]]

theorem checkAcyclic_exact_cycleBelowRoot :
    0 < cycleBelowRoot.modules.length ∧
      ∃ i, ReflTransGen cycleBelowRoot.Leads 0 i ∧ TransGen cycleBelowRoot.Leads i i := by
  have inside : 0 < cycleBelowRoot.modules.length := by decide
  refine ⟨inside, ?_⟩
  have refused : cycleBelowRoot.checkAcyclic 0 = .ok (.error ⟨"top", "a"⟩) := by decide +kernel
  obtain ⟨-, i, m, -, -, walk, cycle⟩ := (checkAcyclic_exact cycleBelowRoot inside).2.2 _ refused
  exact ⟨i, walk, cycle⟩

end Netlist.Design
