import Netlist.Proofs.Root

/-!
# What linking keeps

Linking moves networks and changes their links, and nothing else. The root and the modules that it
retains, in their order, are the circuits of the text, less the one that has become the don't-care
circuit of the one before it.
-/

namespace Netlist

abbrev Companied := Circuit × Option Circuit

def Network.companied (n : Network) : Companied := (n.toCircuit, n.exdc.map Network.toCircuit)

/-- The first circuit named `EXDC` after the first circuit goes to the one before it. -/
def withCompanions : List Circuit → List Companied
  | [] => []
  | [c] => [(c, none)]
  | c :: e :: rest =>
    if e.name = exdcName then (c, some e) :: rest.map (·, none) else (c, none) :: withCompanions (e :: rest)

theorem withCompanions_cons {c : Circuit} {cs : List Circuit}
    (ordinary : ∀ k ∈ cs.head?, k.name ≠ exdcName) :
    withCompanions (c :: cs) = (c, none) :: withCompanions cs := by
  cases cs with
  | nil => rfl
  | cons k rest => simp [withCompanions, ordinary k rfl]

theorem withCompanions_of_none {cs : List Circuit} (none : ∀ c ∈ cs.tail, c.name ≠ exdcName) :
    withCompanions cs = cs.map (·, .none) := by
  induction cs with
  | nil => rfl
  | cons c cs ih =>
    have none : ∀ k ∈ cs, k.name ≠ exdcName := none
    rw [withCompanions_cons fun k first => none k (List.mem_of_mem_head? first),
      ih fun k later => none k (List.mem_of_mem_tail later), List.map_cons]

theorem withCompanions_of_some {before after : List Circuit} {owner companion : Circuit}
    (named : companion.name = exdcName) (earlier : ∀ c ∈ (before ++ [owner]).tail, c.name ≠ exdcName) :
    withCompanions (before ++ owner :: companion :: after) =
      before.map (·, none) ++ (owner, some companion) :: after.map (·, none) := by
  induction before with
  | nil => simp [withCompanions, named]
  | cons c before ih =>
    have next : ∀ k ∈ (before ++ owner :: companion :: after).head?, k.name ≠ exdcName := by
      intro k first
      apply earlier k
      apply List.mem_of_mem_head?
      cases before <;> exact first
    rw [List.cons_append, withCompanions_cons next, ih fun k later => earlier k (List.mem_of_mem_tail later),
      List.map_cons, List.cons_append]

/-- One circuit at most gets another one. -/
theorem countP_withCompanions_le (cs : List Circuit) :
    (withCompanions cs).countP (·.2.isSome) ≤ 1 := by
  fun_induction withCompanions cs with
  | case1 => simp
  | case2 => simp
  | case3 => simp
  | case4 c e rest _ ih => simpa using ih

/-- Circuits and companions are those of the list. -/
theorem mem_withCompanions {cs : List Circuit} {x : Companied} (member : x ∈ withCompanions cs) :
    x.1 ∈ cs ∧ ∀ e ∈ x.2, e ∈ cs := by
  fun_induction withCompanions cs with
  | case1 => cases member
  | case2 c =>
    obtain rfl := List.mem_singleton.mp member
    simp
  | case3 c e rest named =>
    rcases List.mem_cons.mp member with rfl | later
    · simp
    · obtain ⟨k, inside, rfl⟩ := List.mem_map.mp later
      simp [inside]
  | case4 c e rest ordinary ih =>
    rcases List.mem_cons.mp member with rfl | later
    · simp
    · obtain ⟨own, companion⟩ := ih later
      exact ⟨List.mem_cons_of_mem c own, fun k given => List.mem_cons_of_mem c (companion k given)⟩

namespace Design

variable {d : Design Network}

theorem Fresh.settled_companied (fresh : d.Fresh) :
    d.settled.modules.map Network.companied = withCompanions (d.modules.map Network.toCircuit) := by
  have alone (ms : List Network) (members : ms ⊆ d.modules) :
      ms.map Network.companied = (ms.map Network.toCircuit).map (·, none) := by
    rw [List.map_map]
    apply List.map_congr_left
    intro m member
    simp [Network.companied, (fresh m (members member)).1]
  rcases fresh.extraction with
    ⟨absent, yields⟩ | ⟨before, owner, companion, after, divided, named, earlier, yields⟩
  · rw [Yields.settled_eq yields, alone _ (List.Subset.refl _), withCompanions_of_none]
    rw [← List.map_tail]
    exact List.forall_mem_map.mpr (by simpa [exdcOwner?] using absent)
  · have none : ∀ c ∈ (before.map Network.toCircuit ++ [owner.toCircuit]).tail, c.name ≠ exdcName := by
      rw [← List.map_singleton, ← List.map_append, ← List.map_tail]
      exact List.forall_mem_map.mpr earlier
    rw [Yields.settled_eq yields, divided, List.map_append, List.map_cons, List.map_append, List.map_cons,
      List.map_cons, withCompanions_of_some named none, alone _ (by simp [divided]),
      alone _ (by rw [divided]; intro m; simp +contextual)]
    rfl

/-- Members stay members, and the one that leaves loses its link. -/
theorem Fresh.settled_links (fresh : d.Fresh) (linked : ∀ m ∈ d.modules, m.design = some d.id) :
    ∀ m ∈ d.settled.modules, m.design = some d.settled.id ∧
      ∀ e ∈ m.exdc, e.design = none ∧ e.exdc = none ∧ e.hierarchy = none := by
  intro m member
  rw [fresh.settled_id]
  obtain ⟨o, old, rfl | ⟨e, moved, rfl⟩⟩ := mem_settled member
  · refine ⟨linked m old, ?_⟩
    rw [(fresh m old).1]
    simp
  · refine ⟨linked o old, ?_⟩
    rintro _ ⟨⟩
    exact ⟨rfl, (fresh e moved).1, (fresh e moved).2.hierarchy⟩

end Design

namespace Blif

open Design

theorem design_id (c : Contents) (id : DesignId) (name : String) : (c.design id name).id = id := by
  have kept : ∀ (cs : List Circuit) (d : Design Network),
      (cs.foldl (fun d c => d.add { toCircuit := c }) d).id = d.id := by
    intro cs
    induction cs with
    | nil => exact fun _ => rfl
    | cons c cs ih => exact fun d => ih (d.add { toCircuit := c })
  exact kept c.circuits { id, name }

theorem design_linked (c : Contents) (id : DesignId) (name : String) :
    ∀ m ∈ (c.design id name).modules, m.design = some id := by
  intro m member
  rw [c.design_modules] at member
  obtain ⟨i, inside, rfl⟩ := List.mem_mapIdx.mp member
  rfl

/-- The root and what it retains, in text order. -/
theorem load_companied {text : String} {file : Option String} {id : DesignId} {n : Network}
    (loaded : (load text file id).outcome = .ok n) :
    ∃ c before after, (Contents.ofText text).outcome = .ok c ∧ n.retained = before ++ after ∧
      (before ++ n :: after).map Network.companied = withCompanions c.circuits := by
  obtain ⟨c, d, before, root, after, read, rfl, divided, -, retained, shape⟩ := load_takes loaded
  have kept := (c.design_fresh id (file.getD "")).settled_companied
  rw [c.design_circuits, divided] at kept
  refine ⟨c, before, after, read, retained, ?_⟩
  rw [← kept, shape, List.map_append, List.map_append]
  rfl

/-- The circuits that a load answers with are those of the text. -/
theorem load_circuits {text : String} {file : Option String} {id : DesignId} {n : Network}
    (loaded : (load text file id).outcome = .ok n) :
    ∃ c, (Contents.ofText text).outcome = .ok c ∧ ∀ m ∈ n :: n.retained,
      m.toCircuit ∈ c.circuits ∧ ∀ e ∈ m.exdc, e.toCircuit ∈ c.circuits := by
  obtain ⟨c, before, after, read, retained, companied⟩ := load_companied loaded
  refine ⟨c, read, fun m member => ?_⟩
  have inside : m.companied ∈ withCompanions c.circuits := by
    rw [← companied]
    apply List.mem_map_of_mem
    rwa [List.perm_middle.mem_iff, ← retained]
  obtain ⟨own, companion⟩ := mem_withCompanions inside
  refine ⟨own, fun e attached => companion e.toCircuit ?_⟩
  rw [Network.companied, Option.mem_def.mp attached]
  rfl

/-- A don't-care circuit is no member of a design, and has neither a don't-care circuit nor a hierarchy of
its own. -/
theorem load_exdc_links {text : String} {file : Option String} {id : DesignId} {n : Network}
    (loaded : (load text file id).outcome = .ok n) :
    ∀ m ∈ n :: n.retained, ∀ e ∈ m.exdc, e.design = none ∧ e.exdc = none ∧ e.hierarchy = none := by
  obtain ⟨c, d, before, root, after, -, rfl, divided, -, retained, shape⟩ := load_takes loaded
  have links := (c.design_fresh id (file.getD "")).settled_links
    (by rw [design_id]; exact design_linked c id _)
  rw [retained]
  intro m member
  rcases List.mem_cons.mp member with rfl | other
  · rw [shape]
    exact (links root (by simp [divided])).2
  · refine (links m ?_).2
    rw [divided]
    exact List.perm_middle.mem_iff.mpr (List.mem_cons_of_mem root other)

/-- A load answers with the networks of the text, each once and as it was lowered. The root is one of
them, and its hierarchy holds the others in text order, except that the first one named `EXDC` after
the first is the don't-care circuit of the one before it. -/
theorem load_conserves {text : String} {file : Option String} {id : DesignId} {n : Network}
    (loaded : (load text file id).outcome = .ok n) :
    ∃ lines models definitions circuits before after,
      Line.ofText text = .ok lines ∧ Model.ofLines lines = .ok models ∧
      List.Forall₂ (fun m d => (m.definition models).outcome = .ok d) models definitions ∧
      List.Forall₂ (fun d c => ∃ latch, d.lower = .ok (c, latch)) definitions circuits ∧
      (before ++ n :: after).map Network.companied = withCompanions circuits ∧
      n.retained = before ++ after ∧ (n.hierarchy = none ↔ before ++ after = []) ∧
      (n :: n.retained).countP (·.exdc.isSome) ≤ 1 ∧
      n.design = none ∧ n.spec = file ∧
      (∀ rest ∈ n.hierarchy, ∀ m ∈ rest.modules, m.design = some rest.id ∧ m.hierarchy = none) ∧
      ∀ m ∈ n :: n.retained, ∀ e ∈ m.exdc, e.design = none ∧ e.exdc = none ∧ e.hierarchy = none := by
  obtain ⟨c, d, before, root, after, read, is, divided, -, retained, shape⟩ := load_takes loaded
  obtain ⟨lines, models, definitions, reads, built⟩ := ofText_eq_ok.mp read
  have fresh := c.design_fresh id (file.getD "")
  have links := fresh.settled_links (by rw [design_id]; exact design_linked c id _)
  have unlinked := fresh.unlinked
  have kept := fresh.settled_companied
  rw [← is] at links unlinked
  rw [c.design_circuits, ← is, divided] at kept
  have lowered : List.Forall₂ (fun d c => ∃ latch, d.lower = .ok (c, latch)) definitions c.circuits := by
    rw [built, List.forall₂_map_right_iff, List.forall₂_same]
    intro d member
    exact ⟨_, by rw [d.lower_eq, reads.resets d member]; rfl⟩
  have others : ∀ m ∈ before ++ after, m ∈ d.modules := by
    intro m member
    rw [divided]
    exact List.perm_middle.mem_iff.mpr (List.mem_cons_of_mem root member)
  have companied : (before ++ n :: after).map Network.companied = withCompanions c.circuits := by
    rw [← kept, shape, List.map_append, List.map_append]
    rfl
  have hierarchy : n.hierarchy = if before ++ after = [] then none else some { d with
      modules := before ++ after, topLevel := closeGap before.length d.roots } := by rw [shape]
  refine ⟨lines, models, definitions, c.circuits, before, after, reads.lines_eq, reads.models_eq,
    reads.bodies, lowered, companied, retained, ?_, ?_, by rw [shape], by rw [shape], ?_,
    load_exdc_links loaded⟩
  · rw [hierarchy]
    split <;> simp_all
  · have once := countP_withCompanions_le c.circuits
    rw [← companied, List.countP_map, List.perm_middle.countP_eq] at once
    rw [retained]
    simpa [Function.comp_def, Network.companied] using once
  · intro rest member m inside
    rw [hierarchy] at member
    split at member
    · cases member
    · obtain rfl := Option.some.inj member
      exact ⟨(links m (others m inside)).1, (unlinked m (others m inside)).hierarchy⟩

/-- The root stands between two modules, of which the first has a don't-care section. -/
def exdcBeforeTop : String :=
  ".model leaf\n.inputs x\n.outputs z\n.names x z\n1 1\n.exdc\n.names z\n0\n.end\n" ++
  ".model top\n.inputs a\n.outputs y\n.subckt leaf x=a z=y\n.end\n.model other\n.end\n"

theorem load_conserves_exdcBeforeTop : ∃ n circuits before after,
    (load exdcBeforeTop (some "top.blif") ⟨7⟩).outcome = .ok n ∧ n.name = "top" ∧
    n.retained.map (fun m => (m.name, m.exdc.isSome)) = [("leaf", true), ("other", false)] ∧
    (before ++ n :: after).map Network.companied = withCompanions circuits ∧
    n.retained = before ++ after ∧ n.spec = some "top.blif" := by
  obtain ⟨n, loaded, checked⟩ := Outcome.exists_ok_of_any
    (x := (load exdcBeforeTop (some "top.blif") ⟨7⟩).outcome)
    (p := fun n => n.name = "top" ∧
      n.retained.map (fun m => (m.name, m.exdc.isSome)) = [("leaf", true), ("other", false)])
    (by decide +kernel)
  obtain ⟨name, kept⟩ := of_decide_eq_true checked
  obtain ⟨_, _, _, circuits, before, after, -, -, -, -, companied, retained, -, -, -, spec, -⟩ :=
    load_conserves loaded
  exact ⟨n, circuits, before, after, loaded, name, kept, companied, retained, spec⟩

end Blif

end Netlist
