import Netlist.Proofs.Blocks
import Netlist.Proofs.Conservation
import Netlist.Proofs.Ports

/-!
# The owner of a don't-care section

Extraction looks for the first module named `EXDC` and gives it to the module before it. If the text
has one `.exdc` line only, and no `.model` line gives that name, that module is the section, and the
module before it is the model that contains the section.
-/

namespace Netlist.Blif

variable {text : String} {lines : List Line} {models : List Model} {definitions : List Definition}
  {m : Model} {c : Circuit} {blocks early late : List Block} {b : Block} {p : Part}

/-! ### Models and their circuits -/

def Model.Becomes (models : List Model) (m : Model) (c : Circuit) : Prop :=
  ∃ d latch, (m.definition models).outcome = .ok d ∧ d.lower = .ok (c, latch)

theorem Model.Becomes.name_eq (becomes : m.Becomes models c) : c.name = m.name := by
  obtain ⟨d, latch, read, lowered⟩ := becomes
  rw [d.lower_eq] at lowered
  obtain ⟨_, -, whole⟩ := Outcome.bind_eq_ok.mp lowered
  obtain ⟨rfl, -⟩ := Prod.mk.inj (Except.ok.inj whole)
  exact congrArg Model.name (definition_model read)

/-- Every model of a text that can be read becomes a circuit. -/
theorem Reads.becomes (reads : Reads text lines models definitions) :
    List.Forall₂ (Model.Becomes models) models (definitions.map Definition.built) := by
  rw [List.forall₂_map_right_iff, List.forall₂_iff_get]
  refine ⟨reads.length_eq.symm, fun i inside inside' => ?_⟩
  have read := (List.forall₂_iff_get.mp reads.bodies).2 i inside inside'
  have checked := reads.resets _ (List.get_mem definitions ⟨i, inside'⟩)
  exact ⟨_, _, read, by rw [Definition.lower_eq, checked]; rfl⟩

/-! ### The only section of a text -/

/-- The lines are blocks of which only one has a section, and only this one. -/
structure OnlySection (lines : List Line) (early : List Block) (b : Block) (late : List Block)
    (p : Part) : Prop where
  blocks : Blocks lines (early ++ b :: late)
  here : b.exdcs = [p]
  others : ∀ k ∈ early ++ late, k.exdcs = []

theorem exists_of_length_flatMap_eq_one {α β : Type} {f : α → List β} {l : List α}
    (single : (l.flatMap f).length = 1) : ∃ before a after x, l = before ++ a :: after ∧ f a = [x] ∧
      ∀ b ∈ before ++ after, f b = [] := by
  induction l with
  | nil => cases single
  | cons a l ih =>
    obtain ⟨x, only⟩ := List.length_eq_one_iff.mp single
    rw [List.flatMap_cons, List.append_eq_singleton_iff] at only
    rcases only with ⟨none, only⟩ | ⟨here, none⟩
    · obtain ⟨before, b, after, y, rfl, here, others⟩ := ih (by rw [only]; rfl)
      exact ⟨a :: before, b, after, y, rfl, here, List.forall_mem_cons.mpr ⟨none, others⟩⟩
    · exact ⟨[], a, l, x, rfl, here, List.flatMap_eq_nil_iff.mp none⟩

/-- A text with one `.exdc` line has one section. -/
theorem exists_onlySection (divided : Blocks lines blocks)
    (single : (lines.filter (·.directive = some .exdc)).length = 1) :
    ∃ early b late p, blocks = early ++ b :: late ∧ OnlySection lines early b late p := by
  have heads : lines.filter (·.directive = some .exdc) = blocks.flatMap fun k => k.exdcs.map Part.head := by
    rw [divided.whole, List.filter_flatMap]
    exact List.flatMap_congr fun k member => (divided.valid k member).exdc_lines
  rw [heads, ← List.map_flatMap, List.length_map] at single
  obtain ⟨early, b, late, p, rfl, here, others⟩ := exists_of_length_flatMap_eq_one single
  exact ⟨early, b, late, p, rfl, divided, here, others⟩

def Block.exdc (b : Block) (p : Part) : Model :=
  p.describe exdcName false b.declared.inputs b.declared.outputs

theorem OnlySection.flatMap_models (only : OnlySection lines early b late p) :
    (early ++ b :: late).flatMap Block.models =
      early.map Block.declared ++ b.declared :: b.exdc p :: late.map Block.declared := by
  have alone (ks : List Block) (inside : ks ⊆ early ++ late) :
      ks.flatMap Block.models = ks.map Block.declared := by
    rw [List.map_eq_flatMap]
    refine List.flatMap_congr fun k member => ?_
    rw [Block.models, only.others k (inside member)]
    rfl
  rw [List.flatMap_append, List.flatMap_cons, alone early (List.subset_append_left _ _),
    alone late (List.subset_append_right _ _), Block.models, only.here]
  rfl

structure SectionCircuits (models : List Model) (early : List Block) (b : Block) (late : List Block)
    (p : Part) (circuits : List Circuit) (owner companion : Circuit) (others : List Circuit) : Prop where
  early : List.Forall₂ (Model.Becomes models) (early.map Block.declared) circuits
  owner : b.declared.Becomes models owner
  companion : (b.exdc p).Becomes models companion
  late : List.Forall₂ (Model.Becomes models) (late.map Block.declared) others

/-- The section is lowered right after the model that contains it. -/
theorem OnlySection.exists_circuits (only : OnlySection lines early b late p)
    (reads : Reads text lines models definitions) :
    ∃ circuits owner companion others,
      SectionCircuits models early b late p circuits owner companion others ∧
      definitions.map Definition.built = circuits ++ owner :: companion :: others := by
  have found : models = (early ++ b :: late).flatMap Block.models :=
    Except.ok.inj (reads.models_eq.symm.trans (ofLines_eq_ok.mpr ⟨_, only.blocks, rfl⟩))
  have becomes : List.Forall₂ (Model.Becomes models)
      (early.map Block.declared ++ b.declared :: b.exdc p :: late.map Block.declared)
      (definitions.map Definition.built) := by
    rw [← only.flatMap_models, ← found]
    exact reads.becomes
  obtain ⟨circuits, tail, whole, first, below⟩ := becomes.flip.divided
  obtain ⟨owner, rest, owns, after, rfl⟩ := List.forall₂_cons_right_iff.mp below
  obtain ⟨companion, others, described, last, rfl⟩ := List.forall₂_cons_right_iff.mp after
  exact ⟨circuits, owner, companion, others, ⟨first.flip, owns, described, last.flip⟩, whole⟩

/-- The other circuits bear the names of the blocks. -/
theorem SectionCircuits.exists_block {circuits others : List Circuit} {owner companion : Circuit}
    (lowered : SectionCircuits models early b late p circuits owner companion others) :
    ∀ c ∈ circuits ++ owner :: others, ∃ k ∈ early ++ b :: late, c.name = k.name := by
  have all : List.Forall₂ (Model.Becomes models) ((early ++ b :: late).map Block.declared)
      (circuits ++ owner :: others) := by
    rw [List.map_append, List.map_cons]
    exact List.rel_append lowered.early (.cons lowered.owner lowered.late)
  intro c member
  obtain ⟨m, inside, becomes⟩ := all.exists_mem_right member
  obtain ⟨k, block, rfl⟩ := List.mem_map.mp inside
  exact ⟨k, block, becomes.name_eq⟩

/-! ### What a load makes of them -/

/-- If a text has one `.exdc` line, the section becomes the don't-care circuit of the model that contains
it. No other network has one, the section itself included, and all networks but the section bear names
that `.model` lines give. -/
theorem load_attaches_section {file : Option String} {id : DesignId} {n : Network}
    (tokens : Line.ofText text = .ok lines)
    (single : (lines.filter (·.directive = some .exdc)).length = 1)
    (unnamed : exdcName ∉ argumentsOf .model lines) (loaded : (load text file id).outcome = .ok n) :
    ∃ models early b late p circuits owner companion others before after,
      Model.ofLines lines = .ok models ∧ OnlySection lines early b late p ∧
      SectionCircuits models early b late p circuits owner companion others ∧
      n.retained = before ++ after ∧
      (before ++ n :: after).map Network.companied =
        circuits.map (·, none) ++ (owner, some companion) :: others.map (·, none) ∧
      ∀ m ∈ n :: n.retained, m.name ≠ exdcName ∧ (∀ e ∈ m.exdc, e.exdc = none) ∧
        ∃ line ∈ lines, line.directive = some .model ∧ line.args = [m.name] := by
  obtain ⟨c, before, after, read, retained, companied⟩ := load_companied loaded
  obtain ⟨lines', models, definitions, reads, built⟩ := ofText_eq_ok.mp read
  obtain rfl := Except.ok.inj (tokens.symm.trans reads.lines_eq)
  obtain ⟨blocks, divided, -⟩ := ofLines_eq_ok.mp reads.models_eq
  obtain ⟨early, b, late, p, rfl, only⟩ := exists_onlySection divided single
  obtain ⟨circuits, owner, companion, others, lowered, order⟩ := only.exists_circuits reads
  have other : ∀ c ∈ circuits ++ owner :: others, c.name ≠ exdcName := by
    intro c member named
    obtain ⟨k, block, same⟩ := lowered.exists_block c member
    rw [divided.whole, argumentsOf_blocks divided.valid] at unnamed
    exact unnamed (List.mem_map.mpr ⟨k, block, same.symm.trans named⟩)
  have earlier : ∀ c ∈ (circuits ++ [owner]).tail, c.name ≠ exdcName := by
    intro c member
    apply other c
    rcases List.mem_append.mp (List.mem_of_mem_tail member) with before | last
    · exact List.mem_append_left _ before
    · exact List.mem_append_right _ (List.mem_cons.mpr (.inl (List.mem_singleton.mp last)))
  have networks : (before ++ n :: after).map Network.companied =
      circuits.map (·, none) ++ (owner, some companion) :: others.map (·, none) := by
    have all : c.circuits = circuits ++ owner :: companion :: others := by rw [built, ← order]
    rw [companied, all, withCompanions_of_some lowered.companion.name_eq earlier]
  refine ⟨models, early, b, late, p, circuits, owner, companion, others, before, after,
    reads.models_eq, only, lowered, retained, networks, ?_⟩
  intro m kept
  have inside : m.toCircuit ∈ circuits ++ owner :: others := by
    have own : (before ++ n :: after).map Network.toCircuit = circuits ++ owner :: others := by
      simpa [Network.companied, Function.comp_def] using congrArg (List.map Prod.fst) networks
    rw [retained, ← List.perm_middle.mem_iff] at kept
    rw [← own]
    exact List.mem_map_of_mem kept
  obtain ⟨k, block, same⟩ := lowered.exists_block _ inside
  refine ⟨other _ inside, fun e attached => (load_exdc_links loaded m kept e attached).2.1, k.model.head, ?_,
    (divided.valid k block).opens, ?_⟩
  · rw [divided.whole]
    exact List.mem_flatMap.mpr ⟨k, block, by simp [Block.lines, Block.parts, Part.lines]⟩
  · rw [same]
    exact (divided.valid k block).named

/-- The second of three models contains the section, and the third becomes the root. -/
def sectionInLeaf : String :=
  ".model first\n.end\n.model leaf\n.inputs x\n.outputs z\n.names x z\n1 1\n.exdc\n.names z\n0\n.end\n" ++
  ".model top\n.inputs a\n.outputs y\n.subckt first\n.subckt leaf x=a z=y\n.end\n"

theorem load_attaches_section_leaf :
    ∃ (n : Network) (before after : List Network) (circuits others : List Circuit)
        (owner companion : Circuit),
      (load sectionInLeaf none ⟨0⟩).outcome = .ok n ∧ n.name = "top" ∧
      n.retained.map (fun m => (m.name, m.exdc.isSome)) = [("first", false), ("leaf", true)] ∧
      n.retained = before ++ after ∧
      (before ++ n :: after).map Network.companied =
        circuits.map (·, none) ++ (owner, some companion) :: others.map (·, none) := by
  obtain ⟨n, loaded, checked⟩ := Outcome.exists_ok_of_any (x := (load sectionInLeaf none ⟨0⟩).outcome)
    (p := fun n => n.name = "top" ∧
      n.retained.map (fun m => (m.name, m.exdc.isSome)) = [("first", false), ("leaf", true)])
    (by decide +kernel)
  obtain ⟨name, kept⟩ := of_decide_eq_true checked
  obtain ⟨lines, tokens, conditions⟩ := Outcome.exists_ok_of_any (x := Line.ofText sectionInLeaf)
    (p := fun lines => (lines.filter (·.directive = some .exdc)).length = 1 ∧
      exdcName ∉ argumentsOf .model lines) (by decide +kernel)
  obtain ⟨single, unnamed⟩ := of_decide_eq_true conditions
  obtain ⟨_, _, _, _, _, circuits, owner, companion, others, before, after, -, -, -, retained, networks, -⟩ :=
    load_attaches_section tokens single unnamed loaded
  exact ⟨n, before, after, circuits, others, owner, companion, loaded, name, kept, retained, networks⟩

end Netlist.Blif
