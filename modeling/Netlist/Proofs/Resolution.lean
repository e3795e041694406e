import Netlist.Proofs.Blocks
import Netlist.Proofs.Ports
import Netlist.Proofs.Root

/-!
# What the boxes of a loaded network mean

Each box names a declared model, whose network offers the ports that the box binds. A name stands for the
first network that bears it, the root before the modules that it retains. Linking keeps the networks of all
models but one: the first network named `EXDC` after the first model becomes a don't-care circuit, where no
name leads to it. Don't-care sections bear that name too. So an instance of a model that is declared as
`EXDC` means a don't-care circuit if that model's network is the one that moved, and if two sections come
before the model, a name that finds the second of them instead.
-/

namespace Netlist

/-- The network that a name stands for in the hierarchy of a root. -/
def Network.named? (n : Network) (name : String) : Option Network :=
  if n.name = name then some n else n.submodule? name

theorem Network.named?_eq (n : Network) (name : String) :
    n.named? name = (n :: n.retained).find? (·.name = name) := by
  have submodule : n.submodule? name = n.retained.find? (·.name = name) := by
    unfold submodule? retained
    cases n.hierarchy <;> rfl
  rw [named?, submodule]
  by_cases own : n.name = name
  · simp [own]
  · simp [own]

namespace Instance

/-- The name that the box instantiates stands for a network with the ports that it binds. A name that is
not that of don't-care sections stands for no other. -/
structure Resolves (box : Instance) (n : Network) : Prop where
  found : ∃ t, n.named? box.model = some t ∧ t.toCircuit.Offers box
  every : box.model ≠ exdcName → ∀ t ∈ n :: n.retained, t.name = box.model → t.toCircuit.Offers box

/-- Some network of the list has a don't-care circuit named `EXDC` with the ports that the box binds. -/
def MeansExdc (box : Instance) (networks : List Network) : Prop :=
  ∃ o ∈ networks, ∃ t, o.exdc = some t ∧ t.name = exdcName ∧ t.toCircuit.Offers box

end Instance

namespace Blif

open Design

variable {models : List Model} {d : Design Network} {k target : Model} {m n t : Network} {box : Instance}
  {name : String}

/-- The network is that of a model among `models`. -/
def Lowered (models : List Model) (k : Model) (m : Network) : Prop :=
  ∃ definition, (k.definition models).outcome = .ok definition ∧ m.toCircuit = definition.built

theorem Lowered.name_eq (lowered : Lowered models k m) : m.name = k.name := by
  obtain ⟨definition, read, same⟩ := lowered
  rw [same, ← definition_model read]
  rfl

/-- A box names a declared model, and any network of that model offers what the box binds. -/
theorem Lowered.exists_target (lowered : Lowered models k m) (member : box ∈ m.graph.instances) :
    ∃ target, findModel? models box.model = some target ∧
      ∀ t, Lowered models target t → t.toCircuit.Offers box := by
  obtain ⟨definition, read, same⟩ := lowered
  rw [same, built_instances] at member
  obtain ⟨s, inside, rfl⟩ := List.mem_map.mp member
  obtain ⟨target, found, fits⟩ := definition_subcircuits read s inside
  refine ⟨target, found, ?_⟩
  rintro t ⟨targetDefinition, targetRead, lowered⟩
  rw [lowered]
  rw [← definition_model targetRead] at fits
  exact built_offers fits

/-- The modules of a design are those of the models of its text, in text order. -/
theorem design_lowered {text : String} {c : Contents} (read : (Contents.ofText text).outcome = .ok c)
    (id : DesignId) (name : String) :
    ∃ lines models, Line.ofText text = .ok lines ∧ Model.ofLines lines = .ok models ∧
      List.Forall₂ (Lowered models) models (c.design id name).modules := by
  obtain ⟨lines, models, definitions, reads, rfl⟩ := ofText_eq_ok.mp read
  refine ⟨lines, models, reads.lines_eq, reads.models_eq, ?_⟩
  have each : List.Forall₂ (fun (k : Model) (c : Circuit) =>
      ∃ definition, (k.definition models).outcome = .ok definition ∧ c = definition.built) models
      ((Contents.design ⟨definitions.map Definition.built, definitions.flatMap (·.body.properties)⟩ id
        name).modules.map Network.toCircuit) := by
    rw [Contents.design_circuits, List.forall₂_map_right_iff]
    exact reads.bodies.imp fun _ definition read => ⟨definition, read, rfl⟩
  rw [List.forall₂_map_right_iff] at each
  exact each

/-! ### The networks that names lead to -/

/-- The models whose networks stay where a name can lead to them. -/
def unmoved : List Model → List Model
  | [] => []
  | m :: ms => m :: ms.eraseP (·.name = exdcName)

theorem unmoved_subset (ms : List Model) : unmoved ms ⊆ ms := by
  cases ms with
  | nil => exact List.Subset.refl _
  | cons m ms => exact List.cons_subset_cons m List.eraseP_subset

/-- The model that moves is the first of its name after the first model. -/
theorem unmoved_append {before after : List Model} {companion : Model} (some : before ≠ [])
    (named : companion.name = exdcName) (earlier : ∀ m ∈ before.tail, m.name ≠ exdcName) :
    unmoved (before ++ companion :: after) = before ++ after := by
  cases before with
  | nil => exact absurd rfl some
  | cons m ms =>
    have earlier : ∀ m ∈ ms, m.name ≠ exdcName := earlier
    rw [List.cons_append, unmoved, List.eraseP_append_right _ (by simpa using earlier),
      List.eraseP_cons_of_pos (by simpa using named)]
    rfl

theorem find?_tail_append {before after : List Model} {companion : Model} (some : before ≠ [])
    (named : companion.name = exdcName) (earlier : ∀ m ∈ before.tail, m.name ≠ exdcName) :
    (before ++ companion :: after).tail.find? (·.name = exdcName) = .some companion := by
  have none : before.tail.find? (·.name = exdcName) = .none := by
    rw [List.find?_eq_none]
    simpa using earlier
  rw [List.tail_append_of_ne_nil some, List.find?_append, none]
  simp [named]

theorem unmoved_of_none (none : ∀ m ∈ models.tail, m.name ≠ exdcName) : unmoved models = models := by
  cases models with
  | nil => rfl
  | cons m ms =>
    have none : ∀ m ∈ ms, m.name ≠ exdcName := none
    rw [unmoved, List.eraseP_of_forall_not (by simpa using none)]

/-- The lowered networks carry the names of their models. -/
theorem Lowered.names {ks : List Model} {ns : List Network}
    (lowered : List.Forall₂ (Lowered models) ks ns) (name : String) :
    (∀ k ∈ ks, k.name ≠ name) ↔ ∀ n ∈ ns, n.name ≠ name := by
  induction lowered with
  | nil => simp
  | cons here _ ih => rw [List.forall_mem_cons, List.forall_mem_cons, ih, here.name_eq]

theorem Lowered.find? {ks : List Model} {ns : List Network} {name : String}
    (lowered : List.Forall₂ (Lowered models) ks ns) (found : ks.find? (·.name = name) = some k) :
    ∃ n, ns.find? (·.name = name) = some n ∧ Lowered models k n := by
  induction lowered with
  | nil => cases found
  | @cons l n _ _ here _ ih =>
    by_cases same : l.name = name
    · obtain rfl : l = k := by simpa [same] using found
      exact ⟨n, by simp [here.name_eq, same], here⟩
    · obtain ⟨t, later, lowered⟩ := ih (by simpa [same] using found)
      exact ⟨t, by simpa [here.name_eq, same] using later, lowered⟩

theorem Lowered.of_circuit (lowered : Lowered models k m) (same : n.toCircuit = m.toCircuit) :
    Lowered models k n := by
  obtain ⟨definition, read, built⟩ := lowered
  exact ⟨definition, read, same.trans built⟩

/-- Extraction takes the network of one model away, which becomes a don't-care circuit. -/
theorem settled_lowered (fresh : d.Fresh) (lowered : List.Forall₂ (Lowered models) models d.modules) :
    List.Forall₂ (Lowered models) (unmoved models) d.settled.modules ∧
      ∀ e, models.tail.find? (·.name = exdcName) = some e →
        ∃ o ∈ d.settled.modules, ∃ t, o.exdc = some t ∧ Lowered models e t := by
  rcases fresh.extraction with
    ⟨absent, yields⟩ | ⟨before, owner, companion, after, divided, named, earlier, yields⟩
  · rw [Yields.settled_eq yields]
    have tails := List.forall₂_drop 1 lowered
    rw [List.drop_one, List.drop_one] at tails
    have none : ∀ m ∈ models.tail, m.name ≠ exdcName := by
      rw [Lowered.names tails]
      simpa [exdcOwner?] using absent
    refine ⟨by rwa [unmoved_of_none none], fun e found => ?_⟩
    exact absurd (by simpa using List.find?_some found) (none e (List.mem_of_find?_eq_some found))
  · rw [Yields.settled_eq yields]
    rw [divided, ← List.singleton_append, ← List.append_assoc] at lowered
    obtain ⟨l₁, l₂, rfl, early, rest⟩ := lowered.divided
    obtain ⟨c, l₃, loweredCompanion, late, rfl⟩ := List.forall₂_cons_right_iff.mp rest
    obtain ⟨l₀, l₂, rfl, loweredBefore, last⟩ := early.divided
    obtain ⟨o, l₂, loweredOwner, nothing, rfl⟩ := List.forall₂_cons_right_iff.mp last
    obtain rfl := List.forall₂_nil_right_iff.mp nothing
    have nameExdc : c.name = exdcName := loweredCompanion.name_eq.symm.trans named
    have tails := List.forall₂_drop 1 early
    rw [List.drop_one, List.drop_one] at tails
    have earlier := (Lowered.names tails exdcName).mpr earlier
    rw [unmoved_append (by simp) nameExdc earlier]
    constructor
    · have whole : l₀ ++ [o] ++ l₃ = l₀ ++ o :: l₃ := by simp
      rw [whole]
      exact List.rel_append loweredBefore (.cons (loweredOwner.of_circuit rfl) late)
    · intro e found
      rw [find?_tail_append (by simp) nameExdc earlier] at found
      obtain rfl := Option.some.inj found
      exact ⟨_, List.mem_append_right _ List.mem_cons_self, _, rfl, loweredCompanion.of_circuit rfl⟩

/-- The networks of the text, as the names of a loaded root lead to them. -/
structure Keeps (models : List Model) (n : Network) : Prop where
  origin : ∀ m ∈ n :: n.retained, ∃ k ∈ models, Lowered models k m
  kept : ∀ k ∈ unmoved models, ∃ m ∈ n :: n.retained, Lowered models k m
  named : ∀ name k, (unmoved models).find? (·.name = name) = some k →
    ∃ t, n.named? name = some t ∧ Lowered models k t
  moved : ∀ e, models.tail.find? (·.name = exdcName) = some e →
    ∃ o ∈ n :: n.retained, ∃ t, o.exdc = some t ∧ Lowered models e t

/-- The root stands first after it is taken out, as it did among the modules of its name. -/
theorem find?_rootFirst {before after : List Network} {root : Network} {name : String}
    (first : ∀ m ∈ before, m.name ≠ root.name) (same : n.toCircuit = root.toCircuit)
    (found : (before ++ root :: after).find? (·.name = name) = some t) :
    ∃ t', (n :: (before ++ after)).find? (·.name = name) = some t' ∧ t'.toCircuit = t.toCircuit := by
  have sameName : n.name = root.name := congrArg Circuit.name same
  by_cases own : root.name = name
  · subst own
    have none : before.find? (·.name = root.name) = none := by
      rw [List.find?_eq_none]
      simpa using first
    obtain rfl : root = t := by simpa [List.find?_append, none] using found
    exact ⟨n, by simp [sameName], same⟩
  · refine ⟨t, ?_, rfl⟩
    have other : n.name ≠ name := by rwa [sameName]
    simpa [List.find?_append, own, other] using found

theorem load_keeps {text : String} {file : Option String} {id : DesignId}
    (loaded : (load text file id).outcome = .ok n) :
    ∃ lines models, Line.ofText text = .ok lines ∧ Model.ofLines lines = .ok models ∧ Keeps models n := by
  obtain ⟨c, d, before, root, after, read, is, divided, position, same, sameExdc, retained⟩ :=
    load_divides loaded
  obtain ⟨lines, models, tokenized, scanned, lowered⟩ := design_lowered read id (file.getD "")
  obtain ⟨stay, moved⟩ := settled_lowered (c.design_fresh id (file.getD "")) lowered
  rw [← is, divided] at stay moved
  have first := name_ne_of_before_root divided position
  have mem_iff {m : Network} : m ∈ before ++ root :: after ↔ m = root ∨ m ∈ n.retained := by
    rw [retained, List.perm_middle.mem_iff, List.mem_cons]
  refine ⟨lines, models, tokenized, scanned, ?_, ?_, ?_, ?_⟩
  · intro m member
    rcases List.mem_cons.mp member with rfl | other
    · obtain ⟨k, inside, lowered⟩ := stay.exists_mem_right (mem_iff.mpr (.inl rfl))
      exact ⟨k, unmoved_subset models inside, lowered.of_circuit same⟩
    · obtain ⟨k, inside, lowered⟩ := stay.exists_mem_right (mem_iff.mpr (.inr other))
      exact ⟨k, unmoved_subset models inside, lowered⟩
  · intro k inside
    obtain ⟨m, member, lowered⟩ := stay.exists_mem_left inside
    rcases mem_iff.mp member with rfl | other
    · exact ⟨n, List.mem_cons_self, lowered.of_circuit same⟩
    · exact ⟨m, List.mem_cons_of_mem n other, lowered⟩
  · intro name k found
    obtain ⟨t, found, lowered⟩ := Lowered.find? stay found
    obtain ⟨t', found, same⟩ := find?_rootFirst first same found
    rw [Network.named?_eq, retained]
    exact ⟨t', found, lowered.of_circuit same⟩
  · intro e found
    obtain ⟨o, member, t, attached, lowered⟩ := moved e found
    rcases mem_iff.mp member with rfl | other
    · exact ⟨n, List.mem_cons_self, t, sameExdc.trans attached, lowered⟩
    · exact ⟨o, List.mem_cons_of_mem n other, t, attached, lowered⟩

/-! ### The models that instances mean -/

def ExtractsDeclared (models : List Model) : Prop :=
  ∃ e, models.tail.find? (·.name = exdcName) = some e ∧ e.declared = true

/-- The first model of the name `EXDC` is a section, and so is the next. -/
def HidesDeclared (models : List Model) (s : Model) : Prop :=
  ∃ first rest, models.filter (·.name = exdcName) = first :: s :: rest ∧
    first.declared = false ∧ s.declared = false

theorem filter_eq_cons_eraseP {α : Type} {p : α → Bool} {a : α} {l : List α}
    (found : l.find? p = some a) : l.filter p = a :: (l.eraseP p).filter p := by
  induction l with
  | nil => cases found
  | cons b l ih => by_cases here : p b <;> simp_all

/-- The first model of a text is declared. -/
theorem exists_declared_cons {lines : List Line} (scanned : Model.ofLines lines = .ok models) :
    ∃ m ms, models = m :: ms ∧ m.declared = true := by
  obtain ⟨blocks, divided, rfl⟩ := ofLines_eq_ok.mp scanned
  obtain ⟨b, bs, rfl⟩ := List.exists_cons_of_ne_nil divided.some
  exact ⟨b.declared, _, rfl, rfl⟩

/-- Of the declared models, a name leads to the one that bears it. -/
theorem eq_of_findModel? (named : Scan.Named models) (found : findModel? models name = some target)
    (member : k ∈ models) (declared : k.declared = true) (same : k.name = name) : k = target := by
  obtain ⟨there, targetDeclared, sameTarget⟩ := findModel?_eq_some found
  exact named.eq_of_declared member there declared targetDeclared (same.trans sameTarget.symm)

theorem declared_of_ordinary (named : Scan.Named models) (member : k ∈ models)
    (ordinary : k.name ≠ exdcName) : k.declared = true := by
  by_contra undeclared
  exact ordinary (named.undeclared k member (by simpa using undeclared))

theorem mem_unmoved (member : k ∈ models) (ordinary : k.name ≠ exdcName) : k ∈ unmoved models := by
  cases models with
  | nil => cases member
  | cons m ms =>
    rw [unmoved, List.mem_cons, List.mem_eraseP_of_neg (by simpa using ordinary)]
    exact List.mem_cons.mp member

/-- A name that is not that of sections leads to the model that is declared so. -/
theorem find?_unmoved (named : Scan.Named models) (ordinary : name ≠ exdcName)
    (found : findModel? models name = some target) :
    (unmoved models).find? (·.name = name) = some target := by
  obtain ⟨member, -, same⟩ := findModel?_eq_some found
  have stays : target ∈ unmoved models := mem_unmoved member (by rwa [same])
  obtain ⟨k, first⟩ : ∃ k, (unmoved models).find? (·.name = name) = some k :=
    Option.isSome_iff_exists.mp (List.find?_isSome.mpr ⟨target, stays, by simpa using same⟩)
  have inside := unmoved_subset models (List.mem_of_find?_eq_some first)
  have sameK : k.name = name := by simpa using List.find?_some first
  have declared := declared_of_ordinary named inside (by rwa [sameK])
  rwa [eq_of_findModel? named found inside declared sameK] at first

/-- The model that is declared as `EXDC` comes first in the text, or else the first model of that name, which
may be the same, moves. -/
theorem exdc_cases {m : Model} {ms : List Model} (named : Scan.Named (m :: ms)) (declared : m.declared = true)
    (found : findModel? (m :: ms) exdcName = some target) :
    (m.name = exdcName ∧ m = target) ∨ m.name ≠ exdcName ∧ ∃ first,
      ms.find? (·.name = exdcName) = some first ∧ (m :: ms).filter (·.name = exdcName) =
        first :: (unmoved (m :: ms)).filter (·.name = exdcName) := by
  obtain ⟨member, -, name⟩ := findModel?_eq_some found
  by_cases own : m.name = exdcName
  · exact .inl ⟨own, eq_of_findModel? named found List.mem_cons_self declared own⟩
  · have later : target ∈ ms := by
      refine (List.mem_cons.mp member).resolve_left ?_
      rintro rfl
      exact own name
    obtain ⟨first, moved⟩ : ∃ first, ms.find? (·.name = exdcName) = some first :=
      Option.isSome_iff_exists.mp (List.find?_isSome.mpr ⟨target, later, by simpa using name⟩)
    refine .inr ⟨own, first, moved, ?_⟩
    rw [unmoved, List.filter_cons_of_neg (by simpa using own), List.filter_cons_of_neg (by simpa using own)]
    exact filter_eq_cons_eraseP moved

theorem ExtractsDeclared.find?_tail (named : Scan.Named models) (extracts : ExtractsDeclared models)
    (found : findModel? models exdcName = some target) :
    models.tail.find? (·.name = exdcName) = some target := by
  obtain ⟨e, moved, declared⟩ := extracts
  have same : e.name = exdcName := by simpa using List.find?_some moved
  have inside := List.mem_of_mem_tail (List.mem_of_find?_eq_some moved)
  rwa [eq_of_findModel? named found inside declared same] at moved

/-- Unless it moves or a section hides it, the model that is declared as `EXDC` is the first to be found. -/
theorem find?_unmoved_exdc {m : Model} {ms : List Model} (named : Scan.Named (m :: ms))
    (declared : m.declared = true) (found : findModel? (m :: ms) exdcName = some target)
    (stays : ¬ ExtractsDeclared (m :: ms)) (open_ : ∀ s, ¬ HidesDeclared (m :: ms) s) :
    (unmoved (m :: ms)).find? (·.name = exdcName) = some target := by
  obtain ⟨member, targetDeclared, name⟩ := findModel?_eq_some found
  rcases exdc_cases named declared found with ⟨own, rfl⟩ | ⟨-, first, moved, all⟩
  · simp [unmoved, own]
  · have undeclared : first.declared = false := by
      by_contra isDeclared
      exact stays ⟨first, moved, by simpa using isDeclared⟩
    have inside : target ∈ first :: (unmoved (m :: ms)).filter (·.name = exdcName) := by
      rw [← all, List.mem_filter]
      exact ⟨member, by simpa using name⟩
    rcases List.mem_cons.mp inside with rfl | inside
    · cases undeclared.symm.trans targetDeclared
    obtain ⟨s, rest, others⟩ := List.exists_cons_of_ne_nil (List.ne_nil_of_mem inside)
    have here : s ∈ (unmoved (m :: ms)).filter (·.name = exdcName) := by simp [others]
    obtain ⟨known, nameS⟩ := List.mem_filter.mp here
    have declaredS : s.declared = true := by
      by_contra isSection
      exact open_ s ⟨first, rest, by rw [all, others], undeclared, by simpa using isSection⟩
    rw [← List.head?_filter, others, List.head?_cons,
      eq_of_findModel? named found (unmoved_subset _ known) declaredS (of_decide_eq_true nameS)]

/-- A section that hides the declared model is found in its place. -/
theorem HidesDeclared.find?_unmoved {m s : Model} {ms : List Model} (named : Scan.Named (m :: ms))
    (declared : m.declared = true) (found : findModel? (m :: ms) exdcName = some target)
    (hides : HidesDeclared (m :: ms) s) :
    (unmoved (m :: ms)).find? (·.name = exdcName) = some s ∧ target ∈ unmoved (m :: ms) := by
  obtain ⟨first, rest, all, undeclared, -⟩ := hides
  obtain ⟨member, targetDeclared, name⟩ := findModel?_eq_some found
  rcases exdc_cases named declared found with ⟨own, rfl⟩ | ⟨-, first', -, all'⟩
  · rw [List.filter_cons_of_pos (by simpa using own)] at all
    obtain rfl := (List.cons.inj all).1
    cases undeclared.symm.trans declared
  · obtain ⟨rfl, others⟩ := List.cons.inj (all.symm.trans all')
    have inside : target ∈ first :: (unmoved (m :: ms)).filter (·.name = exdcName) := by
      rw [← all', List.mem_filter]
      exact ⟨member, by simpa using name⟩
    rcases List.mem_cons.mp inside with rfl | inside
    · cases undeclared.symm.trans targetDeclared
    · exact ⟨by rw [← List.head?_filter, ← others, List.head?_cons], (List.mem_filter.mp inside).1⟩

/-- No box of a loaded network dangles, unless it instantiates a model that is declared as `EXDC`. If the
network of that model has moved, the box means a don't-care circuit. If a section hides it, the name finds the
network of the section, and one with the ports that the box binds stands behind it. -/
theorem load_resolves {text : String} {file : Option String} {id : DesignId} {n : Network}
    (loaded : (load text file id).outcome = .ok n) :
    ∃ lines models, Line.ofText text = .ok lines ∧ Model.ofLines lines = .ok models ∧
      ∀ m ∈ n :: n.retained, ∀ box ∈ m.graph.instances,
        ((box.model = exdcName → ¬ ExtractsDeclared models ∧ ∀ s, ¬ HidesDeclared models s) →
          box.Resolves n) ∧
        (box.model = exdcName → ExtractsDeclared models → box.MeansExdc (n :: n.retained)) ∧
        (box.model = exdcName → ∀ s, HidesDeclared models s →
          ∃ t, n.named? box.model = some t ∧ Lowered models s t ∧
            ∃ u ∈ n :: n.retained, u.name = box.model ∧ u.toCircuit.Offers box) := by
  obtain ⟨lines, models, tokenized, scanned, keeps⟩ := load_keeps loaded
  have named := ofLines_named scanned
  obtain ⟨first, rest, rfl, declared⟩ := exists_declared_cons scanned
  refine ⟨lines, _, tokenized, scanned, fun m member box inside => ?_⟩
  obtain ⟨k, -, lowered⟩ := keeps.origin m member
  obtain ⟨target, found, offers⟩ := lowered.exists_target inside
  obtain ⟨-, -, name⟩ := findModel?_eq_some found
  refine ⟨fun apart => ⟨?_, ?_⟩, ?_, ?_⟩
  · have leads : (unmoved (first :: rest)).find? (·.name = box.model) = some target := by
      by_cases exdc : box.model = exdcName
      · obtain ⟨stays, open_⟩ := apart exdc
        rw [exdc] at found ⊢
        exact find?_unmoved_exdc named declared found stays open_
      · exact find?_unmoved named exdc found
    obtain ⟨t, found, lowered⟩ := keeps.named _ _ leads
    exact ⟨t, found, offers t lowered⟩
  · intro ordinary t inside same
    obtain ⟨k, known, lowered⟩ := keeps.origin t inside
    have sameK : k.name = box.model := lowered.name_eq.symm.trans same
    have declaredK := declared_of_ordinary named known (by rwa [sameK])
    rw [eq_of_findModel? named found known declaredK sameK] at lowered
    exact offers t lowered
  · intro exdc extracts
    rw [exdc] at found
    obtain ⟨o, member, t, attached, lowered⟩ := keeps.moved _ (extracts.find?_tail named found)
    exact ⟨o, member, t, attached, lowered.name_eq.trans (name.trans exdc), offers t lowered⟩
  · intro exdc s hides
    rw [exdc] at found name ⊢
    obtain ⟨leads, stays⟩ := hides.find?_unmoved named declared found
    obtain ⟨t, found, lowered⟩ := keeps.named _ _ leads
    obtain ⟨u, member, loweredTarget⟩ := keeps.kept _ stays
    exact ⟨t, found, lowered, u, member, loweredTarget.name_eq.trans name, offers u loweredTarget⟩

def leafBelowTop : String :=
  ".model top\n.inputs a\n.outputs y\n.subckt leaf x=a z=y\n.end\n" ++
  ".model leaf\n.inputs x\n.outputs z\n.names x z\n1 1\n.end\n"

theorem load_resolves_leafBelowTop : ∃ n, (load leafBelowTop none ⟨0⟩).outcome = .ok n ∧
    ⟨"leaf", ["x"], ["z"]⟩ ∈ n.graph.instances ∧ Instance.Resolves ⟨"leaf", ["x"], ["z"]⟩ n := by
  obtain ⟨n, loaded, checked⟩ := Outcome.exists_ok_of_any (x := (load leafBelowTop none ⟨0⟩).outcome)
    (p := fun n => (⟨"leaf", ["x"], ["z"]⟩ : Instance) ∈ n.graph.instances) (by decide +kernel)
  have inside : (⟨"leaf", ["x"], ["z"]⟩ : Instance) ∈ n.graph.instances := of_decide_eq_true checked
  obtain ⟨_, _, -, -, all⟩ := load_resolves loaded
  have ordinary : ("leaf" : String) ≠ exdcName := by decide
  exact ⟨n, loaded, inside, (all n List.mem_cons_self _ inside).1 fun exdc => absurd exdc ordinary⟩

/-- A root with an instance of the model after it, which becomes its don't-care circuit. -/
def exdcBelowTop : String :=
  ".model top\n.inputs a\n.outputs y\n.subckt EXDC x=a z=y\n.end\n" ++
  ".model EXDC\n.inputs x\n.outputs z\n.names x z\n1 1\n.end\n"

/-- The same with two sections in between, of which the first moves and the second has no ports. -/
def exdcBehindSections : String :=
  ".model top\n.inputs a\n.outputs y\n.subckt EXDC x=a z=y\n.exdc\n.end\n.model mid\n.exdc\n.end\n" ++
  ".model EXDC\n.inputs x\n.outputs z\n.names x z\n1 1\n.end\n"

theorem exdcInstances_dangle :
    (∃ n, (load exdcBelowTop none ⟨0⟩).outcome = .ok n ∧
      ∃ box ∈ n.graph.instances, ∀ t ∈ n :: n.retained, t.name ≠ box.model) ∧
    ∃ n, (load exdcBehindSections none ⟨0⟩).outcome = .ok n ∧
      ∃ box ∈ n.graph.instances, box.inputs ≠ [] ∧ box.outputs ≠ [] ∧ ∃ t,
        n.submodule? box.model = some t ∧ t.graph.ofKind .input = [] ∧ t.graph.ofKind .output = [] := by
  obtain ⟨n, loaded, checked⟩ := Outcome.exists_ok_of_any (x := (load exdcBelowTop none ⟨0⟩).outcome)
    (p := fun n => ∃ box ∈ n.graph.instances, ∀ t ∈ n :: n.retained, t.name ≠ box.model)
    (by decide +kernel)
  obtain ⟨n', loaded', checked'⟩ := Outcome.exists_ok_of_any
    (x := (load exdcBehindSections none ⟨0⟩).outcome)
    (p := fun n => ∃ box ∈ n.graph.instances, box.inputs ≠ [] ∧ box.outputs ≠ [] ∧
      ∃ t ∈ n.submodule? box.model, t.graph.ofKind .input = [] ∧ t.graph.ofKind .output = [])
    (by decide +kernel)
  exact ⟨⟨n, loaded, of_decide_eq_true checked⟩, n', loaded', of_decide_eq_true checked'⟩

end Blif

end Netlist
