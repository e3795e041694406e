import Netlist.Proofs.Blockwise
import Netlist.Proofs.Separation
import Mathlib.Data.Fintype.Perm
import Mathlib.Data.List.FinRange

/-!
# Blocks in another order

A model may be used before the line that opens it. Complete blocks of a text can be put in any other
order: the text is read as before, and its networks and properties move with the blocks.
-/

namespace Netlist.Blif

variable {text text' : String} {blocks blocks' : List TextBlock}

/-- The blocks contain the same in another order. -/
theorem ofText_permuted (whole : lineTexts text = blocks.flatMap TextBlock.texts)
    (whole' : lineTexts text' = blocks'.flatMap TextBlock.texts) (permuted : blocks'.Perm blocks)
    {c : Contents} (read : (Contents.ofText text).outcome = .ok c) :
    (Contents.ofText text').outcome = .ok
      ⟨blocks'.flatMap fun b => (b.contents (blocks.flatMap TextBlock.models)).map Prod.fst,
        blocks'.flatMap fun b => (b.contents (blocks.flatMap TextBlock.models)).flatMap Prod.snd⟩ := by
  obtain ⟨some, readable, distinct, each, -⟩ := (ofText_blocks whole).mp read
  have models := permuted.flatMap_right TextBlock.models
  have same := content?_perm (named_blocks some distinct) models
  have contents (b : TextBlock) : b.contents (blocks'.flatMap TextBlock.models) =
      b.contents (blocks.flatMap TextBlock.models) :=
    List.filterMap_congr fun m _ => same m
  have some' : blocks' ≠ [] := by
    rintro rfl
    exact some (List.nil_perm.mp permuted)
  refine (ofText_blocks whole').mpr ⟨some', ?_, ?_, ?_, ?_⟩
  · exact fun b member => readable b (permuted.mem_iff.mp member)
  · exact (permuted.map TextBlock.name).nodup_iff.mpr distinct
  · intro m member
    rw [same m]
    exact each m (models.mem_iff.mp member)
  · simp only [contents]

def TextBlock.networks (models : List Model) (b : TextBlock) : List Network :=
  (b.contents models).map fun content => { toCircuit := content.1 }

theorem TextBlock.networks_names {models : List Model} {b : TextBlock}
    (each : ∀ m ∈ b.models, (m.content? models).isSome) :
    (b.networks models).map (·.name) = b.openedNames := by
  rw [networks, List.map_map]
  exact contents_names each

variable {n : Nat}

theorem design_networks (models : List Model) (block : Fin n → TextBlock) (properties : List String)
    (id : DesignId) (name : String) :
    (Contents.design ⟨(List.ofFn block).flatMap fun b => (b.contents models).map Prod.fst,
      properties⟩ id name).modules.map Network.unplaced =
        (List.ofFn fun i => (block i).networks models).flatten := by
  rw [Contents.design_unplaced, List.map_flatMap, List.flatMap_def, List.map_ofFn]
  simp [Function.comp_def, TextBlock.networks]

theorem contents_stated {models : List Model} (named : Scan.Named models) {block : Fin n → TextBlock}
    (each : ∀ i, ∀ m ∈ (block i).models, (m.content? models).isSome) :
    ((List.ofFn block).flatMap fun b => (b.contents models).flatMap Prod.snd) =
      (List.ofFn fun i => (block i).properties).flatten := by
  rw [List.flatMap_def, List.map_ofFn]
  congr 2
  funext i
  exact TextBlock.contents_properties named (each i)

/-- A text of complete blocks can be read exactly if it can be with its blocks in another order. Then
the blocks bring the same networks and properties to both, in the order of the blocks. -/
theorem read_permuted (block : Fin n → TextBlock) (σ : Equiv.Perm (Fin n))
    (whole : lineTexts text = (List.ofFn block).flatMap TextBlock.texts)
    (whole' : lineTexts text' = (List.ofFn (block ∘ σ)).flatMap TextBlock.texts) :
    ((∃ c, (Contents.ofText text).outcome = .ok c) ↔ ∃ c, (Contents.ofText text').outcome = .ok c) ∧
    ∀ c c', (Contents.ofText text).outcome = .ok c → (Contents.ofText text').outcome = .ok c' →
      ∃ networks : Fin n → List Network,
        (∀ i, (networks i).map (·.name) = (block i).openedNames) ∧
        (∀ id name, (c.design id name).modules.map Network.unplaced = (List.ofFn networks).flatten) ∧
        (∀ id name, (c'.design id name).modules.map Network.unplaced =
          (List.ofFn (networks ∘ σ)).flatten) ∧
        c.properties = (List.ofFn fun i => (block i).properties).flatten ∧
        c'.properties = (List.ofFn fun i => (block (σ i)).properties).flatten := by
  have permuted : (List.ofFn (block ∘ σ)).Perm (List.ofFn block) := σ.ofFn_comp_perm block
  refine ⟨⟨fun ⟨c, read⟩ => ⟨_, ofText_permuted whole whole' permuted read⟩,
    fun ⟨c, read⟩ => ⟨_, ofText_permuted whole' whole permuted.symm read⟩⟩, ?_⟩
  intro c c' read read'
  obtain rfl := Except.ok.inj (read'.symm.trans (ofText_permuted whole whole' permuted read))
  obtain ⟨some, -, distinct, each, rfl⟩ := (ofText_blocks whole).mp read
  -- Both texts are read among the models of the first one.
  generalize all : (List.ofFn block).flatMap TextBlock.models = models at *
  have own : ∀ i, ∀ m ∈ (block i).models, (m.content? models).isSome := by
    intro i m member
    apply each
    rw [← all]
    exact List.mem_flatMap.mpr ⟨block i, List.mem_ofFn.mpr ⟨i, rfl⟩, member⟩
  have named : Scan.Named models := by
    rw [← all]
    exact named_blocks some distinct
  exact ⟨fun i => (block i).networks models, fun i => TextBlock.networks_names (own i),
    design_networks models block _, design_networks models (block ∘ σ) _, contents_stated named own,
    contents_stated named fun i => own (σ i)⟩

def wireAndTop : Fin 2 → TextBlock
  | 0 => {
    name := "wire"
    first := ".model wire".toList
    inner := [".inputs x".toList, ".outputs y".toList, ".names x y".toList, "1 1".toList,
      ".ltlformula \"G x\"".toList, ".exdc".toList]
    last := ".end".toList
    ending := []
    opens := by decide +kernel
    closes := by decide +kernel
    between := by decide +kernel }
  | 1 => {
    name := "top"
    first := ".model top".toList
    inner := [".subckt wire x=a y=z".toList]
    last := ".end".toList
    ending := []
    opens := by decide +kernel
    closes := by decide +kernel
    between := by decide +kernel }

def wireAboveTop : String :=
  ".model wire\n.inputs x\n.outputs y\n.names x y\n1 1\n.ltlformula \"G x\"\n.exdc\n.end\n" ++
  ".model top\n.subckt wire x=a y=z\n.end\n"

def topAboveWire : String :=
  ".model top # forward\n.subckt wire \\\nx=a y=z\n.end\n\n" ++
  ".model wire\n.inputs x\n.outputs y\n.names x y\n1 1\n.ltlformula \"G x\"\n.exdc\n.end\n"

theorem read_permuted_wireAndTop : ∃ c c', ∃ networks : Fin 2 → List Network,
    (Contents.ofText wireAboveTop).outcome = .ok c ∧ (Contents.ofText topAboveWire).outcome = .ok c' ∧
    (networks 0).map (·.name) = ["wire", "EXDC"] ∧ (networks 1).map (·.name) = ["top"] ∧
    (c.design ⟨0⟩ "").modules.map Network.unplaced = networks 0 ++ networks 1 ∧
    (c'.design ⟨1⟩ "").modules.map Network.unplaced = networks 1 ++ networks 0 ∧
    c.properties = ["G x"] ∧ c'.properties = ["G x"] := by
  have whole : lineTexts wireAboveTop = (List.ofFn wireAndTop).flatMap TextBlock.texts := by
    decide +kernel
  have whole' : lineTexts topAboveWire =
      (List.ofFn (wireAndTop ∘ Equiv.swap 0 1)).flatMap TextBlock.texts := by decide +kernel
  obtain ⟨same, moved⟩ := read_permuted wireAndTop (Equiv.swap 0 1) whole whole'
  obtain ⟨c, read, -⟩ := Outcome.exists_ok_of_any (x := (Contents.ofText wireAboveTop).outcome)
    (p := fun _ => true) (by decide +kernel)
  obtain ⟨c', read'⟩ := same.mp ⟨c, read⟩
  obtain ⟨networks, names, here, there, stated, stated'⟩ := moved c c' read read'
  have wire : (wireAndTop 0).openedNames = ["wire", "EXDC"] := by decide +kernel
  have top : (wireAndTop 1).openedNames = ["top"] := by decide +kernel
  refine ⟨c, c', networks, read, read', (names 0).trans wire, (names 1).trans top, ?_, ?_, ?_, ?_⟩
  · simpa using here ⟨0⟩ ""
  · simpa using there ⟨1⟩ ""
  · rw [stated]
    decide +kernel
  · rw [stated']
    decide +kernel

end Netlist.Blif
