import Netlist.Proofs.BodyGrammar
import Netlist.Proofs.Lowering

/-!
# From bindings to the edges of boxes

A `.subckt` line binds ports of a model to signals, and the model may stand anywhere in the text. Its box
lists the formals at inputs and those at outputs apart, each side in the order of the line, and in the same
order the nets of the signals bound to them.
-/

namespace Netlist

structure Graph.IsNet (g : Graph) (net : ObjectId) (signal : String) : Prop where
  registered : g.net? signal = some net
  object : ∃ o, g.get? net = some o ∧ o.kind = .net ∧ o.name = some signal

namespace Blif

namespace Block

/-- The inputs that the lines of a block's model declare. The lines of its don't-care descriptions count
for these alone. -/
def inputs (b : Block) : List String := argumentsOf .inputs b.model.body

def outputs (b : Block) : List String := argumentsOf .outputs b.model.body

/-- The bindings of inputs. A name that is declared as both counts as an input. -/
def inputBindings (b : Block) (bs : List Binding) : List Binding := bs.filter (·.formal ∈ b.inputs)

def outputBindings (b : Block) (bs : List Binding) : List Binding := bs.filter (·.formal ∉ b.inputs)

end Block

/-- The box is the one that the line calls for, whose arguments are the name of the block's model and
these bindings. -/
structure Binds (g : Graph) (line : Line) (box : Object) (target : Block) (bs : List Binding) : Prop where
  args : ∃ args, line.args = target.name :: args ∧ List.Forall₂ Binding.Splits bs args
  ports : ∀ b ∈ bs, b.formal ∈ target.inputs ∨ b.formal ∈ target.outputs
  formals : box.payload = .uses ⟨target.name, (target.inputBindings bs).map (·.formal),
    (target.outputBindings bs).map (·.formal)⟩
  complete : (target.inputBindings bs).length + (target.outputBindings bs).length + 1 = line.args.length
  fanins : List.Forall₂ (fun net b => g.IsNet net b.actual) box.fanins (target.inputBindings bs)
  fanouts : List.Forall₂ (fun net b => g.IsNet net b.actual) box.fanouts (target.outputBindings bs)

structure Uses (models : List Model) (line : Line) (target : Model) (bs : List Binding) : Prop where
  member : target ∈ models
  declared : target.declared = true
  args : ∃ args, line.args = target.name :: args ∧ List.Forall₂ Binding.Splits bs args
  ports : ∀ b ∈ bs, b.formal ∈ target.inputs ∨ b.formal ∈ target.outputs

variable {models : List Model} {m : Model} {d : Definition} {s : Section} {blocks : List Block}
  {g : Graph} {x : Option ResetSignals} {placed : List (ObjectId × Cell)}

/-! ### Lines and subcircuits -/

/-- What the `.subckt` line of a section declares, if its head is one. -/
theorem Section.Declares.uses {declared : Option Declaration} (declares : s.Declares models declared)
    (formed : s.Formed) :
    List.Forall₂ (fun line c => ∃ target bs, Uses models line target bs ∧
        c = .ofBindings target.name target bs)
      (s.lines.filter (·.directive = some .subckt))
      (declared.toList.filterMap fun | .subcircuit c => some c | _ => none) := by
  have rows : s.rows.filter (·.directive = some .subckt) = [] := by
    rw [List.filter_eq_nil_iff]
    intro row member
    simp [formed.rows row member]
  rw [lines, List.filter_cons, rows, formed.head]
  cases declares with
  | subcircuit names member declared named bound ports =>
    subst named
    exact .cons ⟨_, _, ⟨member, declared, ⟨_, names, bound⟩, ports⟩, rfl⟩ .nil
  | @idle head directive other =>
    have different : directive ≠ .subckt := by
      rintro rfl
      simp at other
    simp [different]
  | _ => exact .nil

/-- The `.subckt` lines of a body declare its subcircuits, one each. -/
theorem definition_uses (named : Scan.Named models) (read : (m.definition models).outcome = .ok d) :
    List.Forall₂ (fun line c => ∃ target bs, Uses models line target bs ∧
        c = .ofBindings target.name target bs)
      (m.body.filter (·.directive = some .subckt)) d.body.subcircuits := by
  obtain ⟨_, declarations, rfl⟩ := definition_eq_ok.mp read
  obtain ⟨ss, declared, ⟨whole, formed, declares⟩, rfl⟩ := (declarations_eq_ok named).mp declarations
  rw [whole]
  clear read declarations whole
  induction declares with
  | nil => exact .nil
  | @cons s d ss declared first _ ih =>
    obtain ⟨here, formed⟩ := List.forall_mem_cons.mp formed
    have split : (d :: declared).filterMap id = d.toList ++ declared.filterMap id := by cases d <;> rfl
    rw [List.flatMap_cons, List.filter_append, split]
    simp only [Body.ofDeclarations, List.filterMap_append]
    exact List.rel_append (first.uses here) (ih formed)

/-- A declared model is that of a block, with the ports that its own lines declare. -/
theorem exists_block (blocks : List Block) {target : Model} (member : target ∈ blocks.flatMap Block.models)
    (declared : target.declared = true) : ∃ b ∈ blocks,
      target.name = b.name ∧ target.inputs = b.inputs ∧ target.outputs = b.outputs := by
  obtain ⟨b, block, inside⟩ := List.mem_flatMap.mp member
  refine ⟨b, block, ?_⟩
  rcases List.mem_cons.mp inside with rfl | exdc
  · exact ⟨rfl, rfl, rfl⟩
  · rw [exdcModels_undeclared _ _ target exdc] at declared
    cases declared

/-! ### Boxes -/

theorem Definition.Laid.isNet (laid : d.Laid x placed g) {net : ObjectId} {signal : String}
    (found : g.net? signal = some net) : g.IsNet net signal :=
  ⟨found, _, laid.wired.get?_net (laid.wired.mem_nets_iff.mpr found), rfl, rfl⟩

/-- The neighbours on one side of an object are the nets of the signals there. -/
theorem Definition.Laid.forall₂_isNet (laid : d.Laid x placed g) {nets : List ObjectId} {bs : List Binding}
    (wired : nets.map some = (bs.map (·.actual)).map g.net?) :
    List.Forall₂ (fun net b => g.IsNet net b.actual) nets bs := by
  rw [← List.forall₂_eq_eq_eq, List.map_map, List.forall₂_map_left_iff, List.forall₂_map_right_iff] at wired
  exact wired.imp fun _ _ found => laid.isNet found.symm

theorem Uses.binds (laid : d.Laid x placed g) {line : Line} {box : Object} {target : Model}
    {bs : List Binding} {b : Block} (uses : Uses models line target bs) (name : target.name = b.name)
    (inputs : target.inputs = b.inputs) (outputs : target.outputs = b.outputs)
    (payload : box.payload = .uses (Subcircuit.ofBindings target.name target bs).toInstance)
    (wires : g.Wires box ((Subcircuit.ofBindings target.name target bs).inputs.map (·.actual))
      ((Subcircuit.ofBindings target.name target bs).outputs.map (·.actual))) :
    Binds g line box b bs := by
  have inputSide : (Subcircuit.ofBindings target.name target bs).inputs = b.inputBindings bs := by
    rw [Subcircuit.ofBindings, inputs]
    rfl
  have outputSide : (Subcircuit.ofBindings target.name target bs).outputs = b.outputBindings bs := by
    rw [Subcircuit.ofBindings, inputs]
    rfl
  rw [inputSide, outputSide] at wires
  obtain ⟨args, split, bound⟩ := uses.args
  refine
    { args := ⟨args, name ▸ split, bound⟩
      ports := inputs ▸ outputs ▸ uses.ports
      formals := ?_
      complete := ?_
      fanins := laid.forall₂_isNet wires.fanins
      fanouts := laid.forall₂_isNet wires.fanouts }
  · rw [payload, Subcircuit.toInstance, inputSide, outputSide]
    simp only [Subcircuit.ofBindings, name]
  · have sides := bs.length_eq_length_filter_add (·.formal ∈ b.inputs)
    simp only [← decide_not] at sides
    rw [split, List.length_cons, ← bound.length_eq, sides]
    rfl

/-- In a text that is read, the boxes of each circuit are what the `.subckt` lines of its part of the text
call for, one each and in order. The model that such a line names is that of some block, and the bindings
of the line fall into those of its inputs and the others, which both keep their order: they are the formals
of the box, and the nets of their signals are its edges. -/
theorem subckt_bindings {text : String} {c : Contents} (read : (Contents.ofText text).outcome = .ok c) :
    ∃ lines blocks, Line.ofText text = .ok lines ∧ Blocks lines blocks ∧
      List.Forall₂
        (fun part circuit => List.Forall₂
          (fun line entry => ∃ target ∈ blocks, ∃ bs, Binds circuit.graph line entry.2 target bs)
          (part.body.filter (·.directive = some .subckt)) (circuit.graph.ofKind .box))
        (blocks.flatMap Block.parts) c.circuits := by
  obtain ⟨lines, models, definitions, reads, rfl⟩ := ofText_eq_ok.mp read
  obtain ⟨blocks, divided, rfl⟩ := ofLines_eq_ok.mp reads.models_eq
  refine ⟨lines, blocks, reads.lines_eq, divided, ?_⟩
  have named := ofLines_named reads.models_eq
  let Matches (body : List Line) (circuit : Circuit) : Prop := List.Forall₂
    (fun line entry => ∃ target ∈ blocks, ∃ bs, Binds circuit.graph line entry.2 target bs)
    (body.filter (·.directive = some .subckt)) (circuit.graph.ofKind .box)
  have each {m : Model} {d : Definition}
      (body : (m.definition (blocks.flatMap Block.models)).outcome = .ok d) : Matches m.body d.built := by
    obtain ⟨x, placed, laid⟩ := d.built_laid
    apply ((definition_uses named body).across laid.describes.boxes).imp
    rintro line entry ⟨_, ⟨target, bs, uses, rfl⟩, -, payload, wires⟩
    obtain ⟨b, member, name, inputs, outputs⟩ := exists_block blocks uses.member uses.declared
    exact ⟨b, member, bs, uses.binds laid name inputs outputs payload wires⟩
  have bodies : (blocks.flatMap Block.parts).map Part.body = (blocks.flatMap Block.models).map Model.body := by
    simp only [List.map_flatMap, Block.models_bodies]
  have matched : List.Forall₂ Matches ((blocks.flatMap Block.parts).map Part.body)
      (definitions.map Definition.built) := by
    rw [bodies, List.forall₂_map_left_iff, List.forall₂_map_right_iff]
    exact reads.bodies.imp fun _ _ => each
  exact List.forall₂_map_left_iff.mp matched

/-- The used model is defined below its use, with a port line behind its table, and one of its names is a
port of both directions. -/
def portsBelowUse : String :=
  ".model top\n.inputs p q\n.outputs r\n.subckt leaf z=r b=q a=p b=p\n.end\n" ++
  ".model leaf\n.inputs a\n.names a b z\n11 1\n.inputs b\n.outputs z b\n.end\n"

theorem subckt_bindings_portsBelowUse : ∃ c, (Contents.ofText portsBelowUse).outcome = .ok c ∧
    (c.circuits.map fun circuit => (circuit.graph.ofKind .box).map fun entry =>
      (entry.2.payload, entry.2.fanins.map fun net => (circuit.graph.get? net).bind (·.name),
        entry.2.fanouts.map fun net => (circuit.graph.get? net).bind (·.name))) =
      [[(.uses ⟨"leaf", ["b", "a", "b"], ["z"]⟩, [some "q", some "p", some "p"], [some "r"])], []] ∧
    ∃ lines blocks, Line.ofText portsBelowUse = .ok lines ∧ Blocks lines blocks ∧
      List.Forall₂
        (fun part circuit => List.Forall₂
          (fun line entry => ∃ target ∈ blocks, ∃ bs, Binds circuit.graph line entry.2 target bs)
          (part.body.filter (·.directive = some .subckt)) (circuit.graph.ofKind .box))
        (blocks.flatMap Block.parts) c.circuits := by
  obtain ⟨c, read, boxes⟩ := Outcome.exists_ok_of_any (x := (Contents.ofText portsBelowUse).outcome)
    (p := fun c => (c.circuits.map fun circuit => (circuit.graph.ofKind .box).map fun entry =>
      (entry.2.payload, entry.2.fanins.map fun net => (circuit.graph.get? net).bind (·.name),
        entry.2.fanouts.map fun net => (circuit.graph.get? net).bind (·.name))) =
      [[(.uses ⟨"leaf", ["b", "a", "b"], ["z"]⟩, [some "q", some "p", some "p"], [some "r"])], []])
    (by decide +kernel)
  exact ⟨c, read, of_decide_eq_true boxes, subckt_bindings read⟩

end Blif

end Netlist
