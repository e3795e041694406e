import Netlist.Proofs.Numbering

/-!
# Models apart from their texts

What a text makes of a model depends on the lines of the model, less their numbers, and on the ports of
the models that these lines use. Wherever else these lines stand among models with the same ports, the
network is the same.
-/

namespace Netlist

/-- What of a network does not tell its place in a design. -/
def Network.unplaced (n : Network) : Network := { n with design := none, modelId := 0 }

namespace Blif

variable {text text' : String} {lines lines' : List Line} {models models' : List Model}
  {definitions : List Definition} {before after before' after' : List Block} {b b' : Block}

theorem Contents.design_unplaced (c : Contents) (id : DesignId) (name : String) :
    (c.design id name).modules.map Network.unplaced = c.circuits.map fun k => { toCircuit := k } := by
  rw [c.design_modules]
  apply List.ext_getElem
  · simp
  · simp [Network.unplaced]

theorem length_models (blocks : List Block) :
    (blocks.flatMap Block.models).length = (blocks.flatMap Block.parts).length := by
  have each (b : Block) : b.models.length = b.parts.length := by
    simpa using congrArg List.length b.models_bodies
  simp [List.length_flatMap, each]

theorem Block.declared_plain (valid : b.Valid) (valid' : b'.Valid)
    (same : b.model.lines.map Line.plain = b'.model.lines.map Line.plain) :
    b.declared.plain = b'.declared.plain := by
  obtain ⟨head, body⟩ := List.cons.inj same
  have args : b.model.head.plain.args = b'.model.head.plain.args := by rw [head]
  have names : b.name = b'.name := by
    have : [b.name] = [b'.name] := valid.named.symm.trans (args.trans valid'.named)
    exact (List.cons.inj this).1
  have part : b.model.plain = b'.model.plain := by rw [Part.plain, head, body, Part.plain]
  rw [Block.declared, Block.declared, ← Part.describe_plain, ← Part.describe_plain, names, part]

/-- The network of the model that a block declares stands where the block does. -/
theorem network_at {c : Contents} (read : (Contents.ofText text).outcome = .ok c)
    (tokens : Line.ofText text = .ok lines) (scanned : Model.ofLines lines = .ok models)
    (divided : Blocks lines (before ++ b :: after)) (id : DesignId) (name : String) :
    ∃ d, (b.declared.definition models).outcome = .ok d ∧
      (c.design id name).modules[(before.flatMap Block.parts).length]? = some
        { toCircuit := d.built, design := some id, modelId := (before.flatMap Block.parts).length } := by
  obtain ⟨_, _, definitions, reads, rfl⟩ := ofText_eq_ok.mp read
  obtain rfl := Except.ok.inj (tokens.symm.trans reads.lines_eq)
  obtain rfl := Except.ok.inj (scanned.symm.trans reads.models_eq)
  have found : models = (before ++ b :: after).flatMap Block.models :=
    Except.ok.inj (scanned.symm.trans (ofLines_eq_ok.mpr ⟨_, divided, rfl⟩))
  have here : models[(before.flatMap Block.parts).length]? = some b.declared := by
    rw [found, ← length_models, List.flatMap_append, List.flatMap_cons, Block.models]
    simp
  obtain ⟨d, here, body⟩ := reads.bodies.exists_getElem? here
  refine ⟨d, body, ?_⟩
  rw [Contents.design_modules, List.getElem?_mapIdx, List.getElem?_map, here]
  rfl

/-- A model of the same lines, but for their numbers, that uses models with the same ports becomes the
same network in both texts, whatever else they hold. -/
theorem separate_compilation {c c' : Contents}
    (read : (Contents.ofText text).outcome = .ok c) (read' : (Contents.ofText text').outcome = .ok c')
    (tokens : Line.ofText text = .ok lines) (tokens' : Line.ofText text' = .ok lines')
    (scanned : Model.ofLines lines = .ok models) (scanned' : Model.ofLines lines' = .ok models')
    (divided : Blocks lines (before ++ b :: after)) (divided' : Blocks lines' (before' ++ b' :: after'))
    (same : b.model.lines.map Line.plain = b'.model.lines.map Line.plain)
    (ports : SamePorts models models' b.model.lines) (id id' : DesignId) (name name' : String) :
    ∃ n n', (c.design id name).modules[(before.flatMap Block.parts).length]? = some n ∧
      (c'.design id' name').modules[(before'.flatMap Block.parts).length]? = some n' ∧
      n.name = b.name ∧ n.unplaced = n'.unplaced := by
  obtain ⟨d, body, here⟩ := network_at read tokens scanned divided id name
  obtain ⟨d', body', here'⟩ := network_at read' tokens' scanned' divided' id' name'
  have alike := Block.declared_plain (divided.valid b (by simp)) (divided'.valid b' (by simp)) same
  obtain ⟨e, read_again, plain⟩ := definition_plain (ofLines_named scanned) (ofLines_named scanned') alike
    (ports.mono (List.subset_cons_self _ _)) body
  obtain rfl : d' = e := Except.ok.inj (body'.symm.trans read_again)
  have built : d.built = d'.built := by rw [← d.built_plain, plain, d'.built_plain]
  refine ⟨_, _, here, here', ?_, ?_⟩
  · rw [Definition.built, definition_model body]
    rfl
  · rw [built]
    rfl

def wireFirst : String :=
  ".model wire\n.inputs x\n.outputs y\n.end\n.model top\n.subckt wire x=a y=z\n.end\n"

/-- The same use stands elsewhere, with don't-cares, and now the wire inverts. -/
def topFirst : String :=
  "# moved\n.model top\n.subckt wire x=a y=z\n.exdc\n.end\n" ++
  ".model wire\n.inputs x\n.outputs y\n.names x y\n0 1\n.end\n"

def wireFirstBlocks : List Block :=
  [{ name := "wire"
     model := ⟨⟨1, some .model, ["wire"]⟩, [⟨2, some .inputs, ["x"]⟩, ⟨3, some .outputs, ["y"]⟩]⟩
     exdcs := []
     last := ⟨4, some .endModel, []⟩ },
   { name := "top"
     model := ⟨⟨5, some .model, ["top"]⟩, [⟨6, some .subckt, ["wire", "x=a", "y=z"]⟩]⟩
     exdcs := []
     last := ⟨7, some .endModel, []⟩ }]

def topFirstBlocks : List Block :=
  [{ name := "top"
     model := ⟨⟨2, some .model, ["top"]⟩, [⟨3, some .subckt, ["wire", "x=a", "y=z"]⟩]⟩
     exdcs := [⟨⟨4, some .exdc, []⟩, []⟩]
     last := ⟨5, some .endModel, []⟩ },
   { name := "wire"
     model := ⟨⟨6, some .model, ["wire"]⟩, [⟨7, some .inputs, ["x"]⟩, ⟨8, some .outputs, ["y"]⟩,
       ⟨9, some .names, ["x", "y"]⟩, ⟨10, none, ["0", "1"]⟩]⟩
     exdcs := []
     last := ⟨11, some .endModel, []⟩ }]

theorem wireFirst_blocks : Blocks (wireFirstBlocks.flatMap Block.lines) wireFirstBlocks where
  some := by simp [wireFirstBlocks]
  valid := by
    simp only [wireFirstBlocks, List.forall_mem_cons]
    refine ⟨⟨rfl, rfl, ?_, rfl, ?_⟩, ⟨rfl, rfl, ?_, rfl, ?_⟩, by simp⟩ <;>
      simp [Block.parts, Line.Inner]
  distinct := by decide
  whole := rfl

theorem topFirst_blocks : Blocks (topFirstBlocks.flatMap Block.lines) topFirstBlocks where
  some := by simp [topFirstBlocks]
  valid := by
    simp only [topFirstBlocks, List.forall_mem_cons]
    refine ⟨⟨rfl, rfl, ?_, rfl, ?_⟩, ⟨rfl, rfl, ?_, rfl, ?_⟩, by simp⟩ <;>
      simp [Block.parts, Line.Inner]
  distinct := by decide
  whole := rfl

theorem separate_compilation_top : ∃ c c' n n',
    (Contents.ofText wireFirst).outcome = .ok c ∧ (Contents.ofText topFirst).outcome = .ok c' ∧
    (c.design ⟨0⟩ "").modules[1]? = some n ∧ (c'.design ⟨1⟩ "").modules[0]? = some n' ∧
    n.name = "top" ∧ n.unplaced = n'.unplaced := by
  obtain ⟨c, read, -⟩ := Outcome.exists_ok_of_any (x := (Contents.ofText wireFirst).outcome)
    (p := fun _ => true) (by decide +kernel)
  obtain ⟨c', read', -⟩ := Outcome.exists_ok_of_any (x := (Contents.ofText topFirst).outcome)
    (p := fun _ => true) (by decide +kernel)
  have tokens : Line.ofText wireFirst = .ok (wireFirstBlocks.flatMap Block.lines) := by decide +kernel
  have tokens' : Line.ofText topFirst = .ok (topFirstBlocks.flatMap Block.lines) := by decide +kernel
  have scanned := ofLines_eq_ok.mpr ⟨_, wireFirst_blocks, rfl⟩
  have scanned' := ofLines_eq_ok.mpr ⟨_, topFirst_blocks, rfl⟩
  have divided : Blocks _ ([wireFirstBlocks[0]] ++ wireFirstBlocks[1] :: []) := wireFirst_blocks
  have divided' : Blocks _ ([] ++ topFirstBlocks[0] :: [topFirstBlocks[1]]) := topFirst_blocks
  have ports : SamePorts (wireFirstBlocks.flatMap Block.models) (topFirstBlocks.flatMap Block.models)
      wireFirstBlocks[1].model.lines := by
    unfold SamePorts
    decide +kernel
  obtain ⟨n, n', here, here', name, same⟩ := separate_compilation read read' tokens tokens' scanned
    scanned' divided divided' rfl ports ⟨0⟩ ⟨1⟩ "" ""
  exact ⟨c, c', n, n', read, read', here, here', name, same⟩

end Blif

end Netlist
