import Netlist.Proofs.Root

/-!
# The top-level list of what a load retains

The list is computed before the root leaves the design, and its positions are renumbered when it does.
What the root instantiates is therefore not on it. The other candidates for the root are.
-/

namespace Netlist.Blif

open Design

variable {n : Network} {rest : Design Network}

/-- The rest of the design that a load retains, and what its top-level list refers to. -/
theorem load_retains {text : String} {file : Option String} {id : DesignId}
    (loaded : (load text file id).outcome = .ok n) (retains : n.hierarchy = some rest) :
    ∃ c d, (Contents.ofText text).outcome = .ok c ∧ d = (c.design id (file.getD "")).settled ∧
      rest.modules = d.modules.eraseIdx d.rootPosition ∧
      rest.topLevel = closeGap d.rootPosition d.roots ∧
      ∀ name, ¬ d.Instantiated name ↔ ∀ o ∈ n :: rest.modules, o.name ≠ name → name ∉ o.models := by
  obtain ⟨c, d, before, root, after, read, is, divided, position, -, shape⟩ := load_takes loaded
  have hierarchy := retains.symm.trans (congrArg Network.hierarchy shape)
  dsimp only at hierarchy
  split at hierarchy
  · cases hierarchy
  obtain rfl := Option.some.inj hierarchy
  have erased : d.modules.eraseIdx d.rootPosition = before ++ after := by
    simp [divided, ← position, List.eraseIdx_append_of_length_le]
  refine ⟨c, d, read, is, erased.symm, by rw [position], fun name => ?_⟩
  rw [not_instantiated_iff_forall divided, shape]
  simp only [List.forall_mem_cons]

/-- The top-level list of the design that a load retains lists, in increasing order, the retained
modules that no module of another name instantiates, neither the root nor a retained one. They are the
candidates for the root that were not chosen. -/
theorem load_topLevel {text : String} {file : Option String} {id : DesignId}
    (loaded : (load text file id).outcome = .ok n) (retains : n.hierarchy = some rest) :
    rest.topLevel.Pairwise (· < ·) ∧
    (∀ i, i ∈ rest.topLevel ↔ ∃ m, rest.modules[i]? = some m ∧
      ∀ o ∈ n :: rest.modules, o.name ≠ m.name → m.name ∉ o.models) ∧
    (∃ c d, (Contents.ofText text).outcome = .ok c ∧ d = (c.design id (file.getD "")).settled ∧
      rest.topLevel.map (rest.modules[·]?) =
        (d.roots.filter (· ≠ d.rootPosition)).map (d.modules[·]?)) ∧
    (∀ i m, rest.modules[i]? = some m → n.name ≠ m.name → m.name ∈ n.models → i ∉ rest.topLevel) ∧
    ∀ i m, rest.modules[i]? = some m →
      (∀ o ∈ n :: rest.modules, m.name ∈ o.models → o.name = m.name) → i ∈ rest.topLevel := by
  obtain ⟨c, d, read, is, modules, topLevel, free⟩ := load_retains loaded retains
  have listed (i : Nat) : i ∈ rest.topLevel ↔ ∃ m, rest.modules[i]? = some m ∧
      ∀ o ∈ n :: rest.modules, o.name ≠ m.name → m.name ∉ o.models := by
    rw [topLevel, mem_closeGap_roots_iff, ← modules]
    simp only [free]
  refine ⟨?_, listed, ⟨c, d, read, is, ?_⟩, ?_, ?_⟩
  · rw [topLevel]
    exact closeGap_sorted d.roots_sorted _
  · rw [modules, topLevel]
    exact closeGap_getElem? d.modules _ _
  · intro i m here other inside member
    obtain ⟨m', here', alone⟩ := (listed i).mp member
    obtain rfl := Option.some.inj (here.symm.trans here')
    exact alone n List.mem_cons_self other inside
  · intro i m here only
    exact (listed i).mpr ⟨m, here, fun o member other inside => other (only o member inside)⟩

/-- The root stands between a module that it instantiates and one that only instantiates itself. -/
def topBetween : String :=
  ".model leaf\n.end\n.model top\n.subckt leaf\n.end\n.model other\n.subckt other\n.end\n"

theorem load_topLevel_topBetween : ∃ n rest, (load topBetween none ⟨0⟩).outcome = .ok n ∧
    n.hierarchy = some rest ∧ n.name = "top" ∧ rest.modules.map (·.name) = ["leaf", "other"] ∧
    0 ∉ rest.topLevel ∧ 1 ∈ rest.topLevel := by
  obtain ⟨n, loaded, checked⟩ := Outcome.exists_ok_of_any (x := (load topBetween none ⟨0⟩).outcome)
    (p := fun n => n.name = "top" ∧ n.models = ["leaf"] ∧
      n.retained.map (fun m => (m.name, m.models)) = [("leaf", []), ("other", ["other"])])
    (by decide +kernel)
  obtain ⟨name, models, retained⟩ := of_decide_eq_true checked
  cases retains : n.hierarchy with
  | none => simp [Network.retained, retains] at retained
  | some rest =>
    obtain ⟨-, -, -, below, alone⟩ := load_topLevel loaded retains
    have parts : rest.modules.map (fun m => (m.name, m.models)) = [("leaf", []), ("other", ["other"])] := by
      simpa [Network.retained, retains] using retained
    obtain ⟨leaf, modules, split, first, more⟩ := List.map_eq_cons_iff.mp parts
    obtain ⟨other, modules, rfl, second, last⟩ := List.map_eq_cons_iff.mp more
    obtain rfl := List.map_eq_nil_iff.mp last
    obtain ⟨leafName, leafModels⟩ := Prod.mk.inj first
    obtain ⟨otherName, otherModels⟩ := Prod.mk.inj second
    refine ⟨n, rest, loaded, retains, name, by simp [split, leafName, otherName], ?_, ?_⟩
    · exact below 0 leaf (by rw [split]; rfl) (by rw [name, leafName]; decide) (by simp [models, leafName])
    · refine alone 1 other (by rw [split]; rfl) ?_
      simp [split, models, leafModels, otherModels, otherName]

end Netlist.Blif
