import Netlist.Proofs.Linking

/-!
# Which module becomes the root

The root is the first top-level module, if there is one. If every module is instantiated by a module
of another name, the first module takes its place, and the load goes through as long as no cycle lies
below that module, whatever lies above it.
-/

namespace Netlist.Blif

open Design

open Relation (ReflTransGen TransGen)

variable {d : Design Network}

/-- Leaving out the module at a position joins what stands before and after it. -/
theorem divided_at {α : Type} {l : List α} {i : Nat} {a : α} (here : l[i]? = some a) :
    l = l.take i ++ a :: l.drop (i + 1) ∧ l.eraseIdx i = l.take i ++ l.drop (i + 1) := by
  obtain ⟨inside, rfl⟩ := List.getElem?_eq_some_iff.mp here
  refine ⟨?_, List.eraseIdx_eq_take_drop_succ l i⟩
  rw [List.getElem_cons_drop, List.take_append_drop]

/-- The network that an untouched module becomes when it is taken out. -/
theorem taken_eq {root : Nat} {m : Network} (here : d.modules[root]? = some m)
    (unlinked : m.Unlinked) (file : Option String) (properties : List String) :
    taken d root m file properties = { m with
      design := none
      spec := file
      properties := properties
      hierarchy := if d.modules.eraseIdx root = [] then none else some { d with
        modules := d.modules.eraseIdx root, topLevel := closeGap root d.topLevel } } := by
  have inside := (List.getElem?_eq_some_iff.mp here).1
  have alone : d.modules.eraseIdx root = [] ↔ d.modules.length = 1 := by
    rw [← List.length_eq_zero_iff, List.length_eraseIdx_of_lt inside]
    omega
  unfold taken
  simp only [alone, unlinked.spec, unlinked.properties, List.nil_append, Option.isNone_none, if_true]
  split
  next => rw [unlinked.hierarchy]
  next => rfl

theorem design_consistent_iff (c : Contents) (id : DesignId) (name : String) :
    (∀ m ∈ (c.design id name).modules, m.graph.problems = []) ↔
      ∀ k ∈ c.circuits, k.graph.problems = [] := by
  rw [c.design_modules]
  constructor
  · intro all k member
    obtain ⟨i, inside, rfl⟩ := List.mem_iff_getElem.mp member
    exact all _ (List.mem_mapIdx.mpr ⟨i, inside, rfl⟩)
  · intro all m member
    obtain ⟨i, inside, rfl⟩ := List.mem_mapIdx.mp member
    exact all _ (List.getElem_mem inside)

/-- A load goes through when every stage does, and then answers with the chosen module. -/
theorem load_eq_ok {text : String} {file : Option String} {id : DesignId} {n : Network} :
    (load text file id).outcome = .ok n ↔
      ∃ c e, (Contents.ofText text).outcome = .ok c ∧ (c.design id (file.getD "")).prepared = e ∧
        (∀ k ∈ c.circuits, k.graph.problems = []) ∧
        (∀ i, ReflTransGen e.Leads e.rootPosition i → ¬ TransGen e.Leads i i) ∧
        ∃ m, e.modules[e.rootPosition]? = some m ∧
          n = taken e e.rootPosition m file c.properties := by
  rw [load_outcome, Outcome.bind_eq_ok]
  constructor
  · rintro ⟨c, read, linked⟩
    have linked := (link_eq_ok (c.design_fresh _ _) (ofText_design_ne_nil read _ _)).mp linked
    rw [design_consistent_iff] at linked
    exact ⟨c, _, read, rfl, linked⟩
  · rintro ⟨c, _, read, rfl, linked⟩
    refine ⟨c, read, (link_eq_ok (c.design_fresh _ _) (ofText_design_ne_nil read _ _)).mpr ?_⟩
    rw [design_consistent_iff]
    exact linked

/-- No operation that a load calls has a broken precondition. -/
theorem load_error_ne {text : String} {file : Option String} {id : DesignId} {e : LoadError}
    (failed : (load text file id).outcome = .error e) (v : Violation) : e ≠ .violated v := by
  rw [load_outcome] at failed
  rcases Outcome.bind_eq_error.mp failed with unread | ⟨c, read, unlinked⟩
  · obtain ⟨stage, error, rfl⟩ := Refuses.ofText text e unread
    exact LoadError.noConfusion
  · obtain ⟨m, answer, -, -, linked⟩ :=
      link_outcome (c.design_fresh id (file.getD "")) (ofText_design_ne_nil read _ _) file c.properties
    rw [linked] at unlinked
    rcases Outcome.bind_eq_error.mp unlinked with inconsistent | ⟨_, -, unlinked⟩
    · obtain ⟨_, -, rfl⟩ := Outcome.mapError_eq_error.mp inconsistent
      exact LoadError.noConfusion
    · rcases Outcome.bind_eq_error.mp unlinked with cyclic | ⟨_, -, impossible⟩
      · obtain ⟨_, -, rfl⟩ := Outcome.mapError_eq_error.mp cyclic
        exact LoadError.noConfusion
      · cases impossible

/-- No module of another name instantiates a top-level root. If no module is at the top level, then
some module of another name instantiates whichever module is the root. -/
theorem not_instantiated_iff {before after : List Network} {root : Network}
    (divided : d.modules = before ++ root :: after) :
    (∀ m ∈ before ++ after, root.name ∉ m.models) ↔
      ¬ d.Instantiated root.name ∧ ∀ m ∈ before ++ after, m.name = root.name → root.name ∉ m.models := by
  rw [not_instantiated_iff_forall divided, List.forall_mem_cons]
  constructor
  · intro free
    exact ⟨⟨fun other => absurd rfl other, fun m member _ => free m member⟩,
      fun m member _ => free m member⟩
  · rintro ⟨⟨-, others⟩, namesakes⟩ m member
    by_cases same : m.name = root.name
    · exact namesakes m member same
    · exact others m member same

/-- What a load answers with, of the design after extraction. -/
theorem load_takes {text : String} {file : Option String} {id : DesignId} {n : Network}
    (loaded : (load text file id).outcome = .ok n) :
    ∃ c d before root after, (Contents.ofText text).outcome = .ok c ∧
      d = (c.design id (file.getD "")).settled ∧ d.modules = before ++ root :: after ∧
      before.length = d.rootPosition ∧ n.retained = before ++ after ∧
      n = { root with
        design := none
        spec := file
        properties := c.properties
        hierarchy := if before ++ after = [] then none else some { d with
          modules := before ++ after, topLevel := closeGap before.length d.roots } } := by
  obtain ⟨c, e, read, rfl, -, -, root, here, shape⟩ := load_eq_ok.mp loaded
  obtain ⟨divided, erased⟩ := divided_at here
  have unlinked := (c.design_fresh _ _).unlinked root (List.mem_of_getElem? here)
  have position := List.length_take_of_le (Nat.le_of_lt (List.getElem?_eq_some_iff.mp here).1)
  rw [taken_eq here unlinked, erased] at shape
  refine ⟨c, _, _, root, _, read, rfl, divided, position, ?_, ?_⟩
  · rw [shape, Network.retained]
    split
    next alone =>
      rw [alone]
      rfl
    next => rfl
  · rw [shape, position]
    rfl

/-- The network that a load answers with is the chosen module, and it retains the others in order. -/
theorem load_divides {text : String} {file : Option String} {id : DesignId} {n : Network}
    (loaded : (load text file id).outcome = .ok n) :
    ∃ c d before root after, (Contents.ofText text).outcome = .ok c ∧
      d = (c.design id (file.getD "")).settled ∧ d.modules = before ++ root :: after ∧
      before.length = d.rootPosition ∧ n.toCircuit = root.toCircuit ∧ n.exdc = root.exdc ∧
      n.retained = before ++ after := by
  obtain ⟨c, d, before, root, after, read, is, divided, position, retained, shape⟩ := load_takes loaded
  refine ⟨c, d, before, root, after, read, is, divided, position, ?_, ?_, retained⟩
  · rw [shape]
  · rw [shape]

/-- A text that can be read loads exactly if its circuits are consistent and its root leads to no
cycle. -/
theorem load_succeeds_iff {text : String} {file : Option String} {id : DesignId} {c : Contents}
    (read : (Contents.ofText text).outcome = .ok c) {d : Design Network}
    (is : d = (c.design id (file.getD "")).prepared) :
    (∃ n, (load text file id).outcome = .ok n) ↔
      (∀ k ∈ c.circuits, k.graph.problems = []) ∧
        ∀ i, ReflTransGen d.Leads d.rootPosition i → ¬ TransGen d.Leads i i := by
  subst is
  constructor
  · rintro ⟨n, loaded⟩
    obtain ⟨c', e, read', rfl, consistent, acyclic, -⟩ := load_eq_ok.mp loaded
    obtain rfl : c = c' := Except.ok.inj (read.symm.trans read')
    exact ⟨consistent, acyclic⟩
  · rintro ⟨consistent, acyclic⟩
    have some := (c.design_fresh id (file.getD "")).settled_ne_nil (ofText_design_ne_nil read _ _)
    have here := List.getElem?_eq_getElem (rootPosition_lt (d := (c.design id _).prepared) some)
    exact ⟨_, load_eq_ok.mpr ⟨c, _, read, rfl, consistent, acyclic, _, here, rfl⟩⟩

/-- The root that a load answers with, the exact condition under which no module that it retains
instantiates it, and the exact condition under which a text without top-level module loads. -/
theorem load_root (text : String) (file : Option String) (id : DesignId) :
    (∀ n, (load text file id).outcome = .ok n →
      ∃ c d, (Contents.ofText text).outcome = .ok c ∧ d = (c.design id (file.getD "")).settled ∧
        ∃ before root after, d.modules = before ++ root :: after ∧
          n.toCircuit = root.toCircuit ∧ n.retained = before ++ after ∧
          ((∃ m ∈ d.modules, ¬ d.Instantiated m.name) →
            ¬ d.Instantiated root.name ∧ ∀ m ∈ before, d.Instantiated m.name) ∧
          ((∀ m ∈ d.modules, d.Instantiated m.name) → before = []) ∧
          ((∀ m ∈ n.retained, n.name ∉ m.models) ↔
            (∃ m ∈ d.modules, ¬ d.Instantiated m.name) ∧
              ∀ m ∈ n.retained, m.name = n.name → n.name ∉ m.models)) ∧
    ∀ c d, (Contents.ofText text).outcome = .ok c → d = (c.design id (file.getD "")).settled →
      (∀ m ∈ d.modules, d.Instantiated m.name) →
        ((∃ n, (load text file id).outcome = .ok n) ↔
          (∀ k ∈ c.circuits, k.graph.problems = []) ∧
            ∀ i, ReflTransGen d.Leads 0 i → ¬ TransGen d.Leads i i) := by
  constructor
  · intro n loaded
    obtain ⟨c, d, before, root, after, read, is, divided, position, same, -, retained⟩ :=
      load_divides loaded
    have here : d.modules[d.rootPosition]? = some root := by
      rw [divided, ← position]
      simp
    have early : d.modules.take d.rootPosition = before := by
      rw [← position, divided]
      simp
    have member : root ∈ d.modules := List.mem_of_getElem? here
    refine ⟨c, d, read, is, before, root, after, divided, same, retained, ?_⟩
    rw [retained, same, not_instantiated_iff divided]
    rcases rootPosition_spec here with ⟨top, free, earlier⟩ | ⟨none, first⟩
    · rw [early] at earlier
      refine ⟨fun _ => ⟨free, earlier⟩, ?_, ?_⟩
      · intro all
        exact absurd (all root member) free
      · exact and_congr_left fun _ => iff_of_true free top
    · have noTop : ¬ ∃ m ∈ d.modules, ¬ d.Instantiated m.name :=
        fun ⟨m, inside, free⟩ => free (none m inside)
      refine ⟨fun top => absurd top noTop, fun _ => ?_, ?_⟩
      · rw [first, List.length_eq_zero_iff] at position
        exact position
      · exact and_congr_left fun _ => iff_of_false (not_not_intro (none root member)) noTop
  · rintro c d read rfl none
    have first : (c.design id (file.getD "")).prepared.rootPosition = 0 :=
      rootPosition_eq_zero none
    rw [load_succeeds_iff read rfl, first]
    exact Iff.rfl

/-- The first module instantiates nothing and the other two instantiate one another and the first. -/
def cycleAboveFirst : String :=
  ".model c\n.end\n.model a\n.subckt b\n.subckt c\n.end\n.model b\n.subckt a\n.end\n"

theorem load_root_cycleAboveFirst : ∃ (c : Contents) (d : Design Network) (n : Network),
    (Contents.ofText cycleAboveFirst).outcome = .ok c ∧
    (∀ m ∈ d.modules, d.Instantiated m.name) ∧
    (load cycleAboveFirst none ⟨0⟩).outcome = .ok n ∧
    (∃ root after, d.modules = root :: after ∧ n.toCircuit = root.toCircuit ∧ n.retained = after) ∧
    (∀ k ∈ c.circuits, k.graph.problems = []) ∧
    ∀ i, ReflTransGen d.Leads 0 i → ¬ TransGen d.Leads i i := by
  obtain ⟨n, loaded, -⟩ := Outcome.exists_ok_of_any (x := (load cycleAboveFirst none ⟨0⟩).outcome)
    (p := fun _ => true) (by decide +kernel)
  obtain ⟨c, read, none⟩ := Outcome.exists_ok_of_any (x := (Contents.ofText cycleAboveFirst).outcome)
    (p := fun c => ∀ m ∈ (c.design ⟨0⟩ "").settled.modules,
      (c.design ⟨0⟩ "").settled.Instantiated m.name) (by decide +kernel)
  have none := of_decide_eq_true none
  -- The design stays a variable, so that nothing tries to compute it.
  obtain ⟨d, is⟩ : ∃ d, d = (c.design ⟨0⟩ (Option.none.getD "")).settled := ⟨_, rfl⟩
  have none : ∀ m ∈ d.modules, d.Instantiated m.name := by
    rw [is]
    exact none
  have condition := ((load_root cycleAboveFirst Option.none ⟨0⟩).2 c d read is none).mp ⟨n, loaded⟩
  obtain ⟨c', d', read', is', before, root, after, divided, same, retained, -, first, -⟩ :=
    (load_root cycleAboveFirst Option.none ⟨0⟩).1 n loaded
  obtain rfl : c = c' := Except.ok.inj (read.symm.trans read')
  obtain rfl : d = d' := is.trans is'.symm
  obtain rfl := first none
  exact ⟨c, d, n, read, none, loaded, ⟨root, after, divided, same, retained⟩, condition⟩

/-- Each module of this text is instantiated by another one, and the load answers with the first. -/
theorem cycleAboveFirst_loads : ∃ n, (load cycleAboveFirst none ⟨0⟩).outcome = .ok n ∧
    n.name = "c" ∧ (∀ m ∈ n :: n.retained, ∃ o ∈ n.retained, o.name ≠ m.name ∧ m.name ∈ o.models) := by
  obtain ⟨n, loaded, checked⟩ := Outcome.exists_ok_of_any (x := (load cycleAboveFirst none ⟨0⟩).outcome)
    (p := fun n => n.name = "c" ∧
      ∀ m ∈ n :: n.retained, ∃ o ∈ n.retained, o.name ≠ m.name ∧ m.name ∈ o.models) (by decide +kernel)
  exact ⟨n, loaded, of_decide_eq_true checked⟩

end Netlist.Blif
