import Netlist.Proofs.Scan
import Mathlib.Data.List.Nodup

/-!
# The blocks of a text

A text is a sequence of blocks. A block goes from a `.model` line to an `.end` line, and `.exdc` lines
divide it into parts, each a line that opens a description and the run of other lines below it. The
scan goes through exactly if the lines are such a sequence and the names of the `.model` lines differ,
and then the models found are the descriptions of the parts, in text order.
-/

namespace Netlist.Blif

structure Part where
  head : Line
  body : List Line

def Part.lines (p : Part) : List Line := p.head :: p.body

structure Block where
  name : String
  model : Part
  exdcs : List Part
  last : Line

def Block.parts (b : Block) : List Part := b.model :: b.exdcs

def Block.lines (b : Block) : List Line := b.parts.flatMap Part.lines ++ [b.last]

structure Block.Valid (b : Block) : Prop where
  opens : b.model.head.directive = some .model
  named : b.model.head.args = [b.name]
  exdcs : ∀ p ∈ b.exdcs, p.head.directive = some .exdc
  closes : b.last.directive = some .endModel
  inner : ∀ p ∈ b.parts, ∀ line ∈ p.body, line.Inner

/-- The lines are these blocks, one after the other. -/
structure Blocks (lines : List Line) (blocks : List Block) : Prop where
  some : blocks ≠ []
  valid : ∀ b ∈ blocks, b.Valid
  distinct : (blocks.map Block.name).Nodup
  whole : lines = blocks.flatMap Block.lines

def argumentsOf (d : Directive) (body : List Line) : List String :=
  body.flatMap fun line => if line.directive = some d then line.args else []

/-- What a part describes, with ports that it has before those of its own lines. -/
def Part.describe (p : Part) (name : String) (declared : Bool) (inputs outputs : List String) :
    Model where
  name := name
  header := p.head.number
  declared := declared
  inputs := inputs ++ argumentsOf .inputs p.body
  outputs := outputs ++ argumentsOf .outputs p.body
  blackbox := p.body.any (·.directive = some .blackbox)
  body := p.body

/-- Each don't-care description starts from the ports of the description that it interrupts. -/
def exdcModels (interrupted : Model) : List Part → List Model
  | [] => []
  | p :: ps =>
    let m := p.describe exdcName false interrupted.inputs interrupted.outputs
    m :: exdcModels m ps

def Block.declared (b : Block) : Model := b.model.describe b.name true [] []

def Block.models (b : Block) : List Model := b.declared :: exdcModels b.declared b.exdcs

variable {s t : Scan} {line : Line} {lines body : List Line} {m : Model} {ms ended : List Model}
  {ps : List Part} {b : Block} {blocks : List Block}

theorem argumentsOf_append (d : Directive) (before after : List Line) :
    argumentsOf d (before ++ after) = argumentsOf d before ++ argumentsOf d after :=
  List.flatMap_append

theorem Model.addLine_eq (m : Model) (line : Line) : m.addLine line =
    { m with
      inputs := m.inputs ++ if line.directive = some .inputs then line.args else []
      outputs := m.outputs ++ if line.directive = some .outputs then line.args else []
      blackbox := m.blackbox || line.directive = some .blackbox
      body := m.body ++ [line] } := by
  unfold Model.addLine
  split <;> simp_all

theorem Model.foldl_addLine (m : Model) (body : List Line) : body.foldl Model.addLine m =
    { m with
      inputs := m.inputs ++ argumentsOf .inputs body
      outputs := m.outputs ++ argumentsOf .outputs body
      blackbox := m.blackbox || body.any (·.directive = some .blackbox)
      body := m.body ++ body } := by
  induction body generalizing m with
  | nil => simp [argumentsOf]
  | cons line body ih =>
    rw [List.foldl_cons, ih, m.addLine_eq]
    simp [argumentsOf, Bool.or_assoc]

theorem Part.describe_eq (p : Part) (name : String) (declared : Bool) (inputs outputs : List String) :
    p.body.foldl Model.addLine
      { name := name, header := p.head.number, declared := declared,
        inputs := inputs, outputs := outputs } =
      p.describe name declared inputs outputs := by
  rw [Model.foldl_addLine]
  rfl

theorem Part.describe_openExdc (p : Part) (m : Model) :
    p.body.foldl Model.addLine (m.openExdc p.head.number) =
      p.describe exdcName false m.inputs m.outputs :=
  p.describe_eq exdcName false m.inputs m.outputs

theorem exdcModels_bodies (m : Model) (ps : List Part) :
    (exdcModels m ps).map Model.body = ps.map Part.body := by
  induction ps generalizing m with
  | nil => rfl
  | cons p ps ih => simp [exdcModels, ih, Part.describe]

theorem Block.models_bodies (b : Block) : b.models.map Model.body = b.parts.map Part.body := by
  simp [Block.models, Block.parts, exdcModels_bodies, Block.declared, Part.describe]

theorem exdcModels_names (m : Model) (ps : List Part) :
    (exdcModels m ps).map Model.name = ps.map fun _ => exdcName := by
  induction ps generalizing m with
  | nil => rfl
  | cons p ps ih =>
    rw [exdcModels, List.map_cons, ih]
    rfl

/-! ### From the scan to the blocks -/

/-- What remains to be read for a scan to end outside of a model with the models `ms`. -/
inductive Completes : Scan → List Line → List Model → Prop where
  | outside {ended : List Model} {blocks : List Block} (valid : ∀ b ∈ blocks, b.Valid) :
      Completes ⟨ended, none⟩ (blocks.flatMap Block.lines) (ended ++ blocks.flatMap Block.models)
  | inside {ended : List Model} {m : Model} {body : List Line} {ps : List Part} {last : Line}
      {blocks : List Block} (inner : ∀ line ∈ body, line.Inner)
      (exdcs : ∀ p ∈ ps, p.head.directive = some .exdc ∧ ∀ line ∈ p.body, line.Inner)
      (closes : last.directive = some .endModel) (valid : ∀ b ∈ blocks, b.Valid) :
      Completes ⟨ended, some m⟩ (body ++ ps.flatMap Part.lines ++ last :: blocks.flatMap Block.lines)
        (ended ++ body.foldl Model.addLine m :: exdcModels (body.foldl Model.addLine m) ps ++
          blocks.flatMap Block.models)

theorem Scan.Step.completes (step : Scan.Step line s t) (rest : Completes t lines ms) :
    Completes s (line :: lines) ms := by
  cases step with
  | @opens ended name directive args _ =>
    cases rest with
    | @inside _ _ body ps last blocks inner exdcs closes valid =>
      let b : Block := ⟨name, ⟨line, body⟩, ps, last⟩
      have first : b.Valid :=
        { opens := directive
          named := args
          exdcs := fun p member => (exdcs p member).1
          closes := closes
          inner := List.forall_mem_cons.mpr ⟨inner, fun p member => (exdcs p member).2⟩ }
      have all := @Completes.outside ended _ (List.forall_mem_cons.mpr ⟨first, valid⟩)
      have described := b.model.describe_eq name true [] []
      simpa [b, Block.lines, Block.parts, Part.lines, Block.models, Block.declared, ← described]
        using all
  | @opensExdc ended m directive =>
    cases rest with
    | @inside _ _ body ps last blocks inner exdcs closes valid =>
      let p : Part := ⟨line, body⟩
      have all := @Completes.inside ended m [] _ _ _ (by simp)
        (List.forall_mem_cons.mpr ⟨(⟨directive, inner⟩ : p.head.directive = _ ∧ _), exdcs⟩)
        closes valid
      have described := p.describe_openExdc m
      simpa [p, Part.lines, exdcModels, ← described] using all
  | @ends ended m directive =>
    cases rest with
    | outside valid =>
      have all := @Completes.inside ended m [] [] _ _ (by simp) (by simp)
        directive valid
      simpa [exdcModels] using all
  | @takes ended m inner =>
    cases rest with
    | inside others exdcs closes valid =>
      have all := @Completes.inside ended m _ _ _ _
        (List.forall_mem_cons.mpr ⟨inner, others⟩) exdcs closes valid
      simpa using all

theorem Scan.completes_of_addLines (taken : s.addLines lines = .ok ⟨ms, none⟩) :
    Completes s lines ms := by
  induction lines generalizing s with
  | nil =>
    obtain rfl := Except.ok.inj taken
    simpa using @Completes.outside ms [] (by simp)
  | cons line lines ih =>
    unfold addLines at taken
    split at taken
    · next t first => exact (addLine_step first).completes (ih taken)
    · cases taken

/-! ### From the blocks to the scan -/

theorem Scan.addLines_cons (first : s.addLine line = .ok t) :
    s.addLines (line :: lines) = t.addLines lines := by
  simp [addLines, first]

theorem Scan.addLines_append (s : Scan) (before after : List Line) :
    s.addLines (before ++ after) = s.addLines before >>= fun t => t.addLines after := by
  induction before generalizing s with
  | nil => rfl
  | cons line before ih =>
    rw [List.cons_append, addLines, addLines]
    cases s.addLine line with
    | ok t => exact ih t
    | error defect => rfl

theorem Scan.addLines_inner (inner : ∀ line ∈ body, line.Inner) (rest : List Line) :
    (⟨ended, some m⟩ : Scan).addLines (body ++ rest) =
      (⟨ended, some (body.foldl Model.addLine m)⟩ : Scan).addLines rest := by
  induction body generalizing m with
  | nil => rfl
  | cons line body ih =>
    obtain ⟨here, later⟩ := List.forall_mem_cons.mp inner
    rw [List.cons_append, addLines_cons (addLine_of_inner here), ih later, List.foldl_cons]

/-- The don't-care parts of a block and its last line. -/
theorem Scan.addLines_exdcs {last : Line} (closes : last.directive = some .endModel)
    (exdcs : ∀ p ∈ ps, p.head.directive = some .exdc) (inner : ∀ p ∈ ps, ∀ line ∈ p.body, line.Inner)
    (rest : List Line) :
    (⟨ended, some m⟩ : Scan).addLines (ps.flatMap Part.lines ++ last :: rest) =
      (⟨ended ++ m :: exdcModels m ps, none⟩ : Scan).addLines rest := by
  induction ps generalizing ended m with
  | nil =>
    have ends : (⟨ended, some m⟩ : Scan).addLine last = .ok ⟨ended ++ [m], none⟩ := by
      simp [addLine, closes]
    exact addLines_cons ends
  | cons p ps ih =>
    obtain ⟨opens, exdcs⟩ := List.forall_mem_cons.mp exdcs
    obtain ⟨here, inner⟩ := List.forall_mem_cons.mp inner
    have interrupts : (⟨ended, some m⟩ : Scan).addLine p.head =
        .ok ⟨ended ++ [m], some (m.openExdc p.head.number)⟩ := by
      simp [addLine, opens]
    rw [List.flatMap_cons, Part.lines, List.cons_append, List.cons_append, addLines_cons interrupts,
      List.append_assoc, addLines_inner here, p.describe_openExdc, ih exdcs inner]
    simp [exdcModels]

theorem Scan.addLines_block (valid : b.Valid) (new : findModel? ended b.name = none)
    (rest : List Line) :
    (⟨ended, none⟩ : Scan).addLines (b.lines ++ rest) =
      (⟨ended ++ b.models, none⟩ : Scan).addLines rest := by
  obtain ⟨own, exdcs⟩ := List.forall_mem_cons.mp valid.inner
  have opens : (⟨ended, none⟩ : Scan).addLine b.model.head =
      .ok ⟨ended, some { name := b.name, header := b.model.head.number, declared := true }⟩ := by
    simp [addLine, valid.opens, openModel, valid.named, new]
  have whole : b.lines ++ rest =
      b.model.head :: (b.model.body ++ (b.exdcs.flatMap Part.lines ++ b.last :: rest)) := by
    simp [Block.lines, Block.parts, Part.lines]
  have declared := b.model.describe_eq b.name true [] []
  rw [whole, addLines_cons opens, addLines_inner own, declared,
    addLines_exdcs valid.closes valid.exdcs exdcs]
  rfl

/-! ### Names of models -/

def declaredNames (ms : List Model) : List String := (ms.filter (·.declared)).map (·.name)

theorem findModel?_eq_none_iff {name : String} :
    findModel? ms name = none ↔ name ∉ declaredNames ms := by
  simp [findModel?, declaredNames]

theorem exdcModels_undeclared (m : Model) (ps : List Part) :
    ∀ k ∈ exdcModels m ps, k.declared = false := by
  induction ps generalizing m with
  | nil => simp [exdcModels]
  | cons p ps ih =>
    rw [exdcModels, List.forall_mem_cons]
    exact ⟨rfl, ih _⟩

theorem declaredNames_models (b : Block) : declaredNames b.models = [b.name] := by
  have others : (exdcModels b.declared b.exdcs).filter (·.declared) = [] := by
    rw [List.filter_eq_nil_iff]
    intro k member
    simp [exdcModels_undeclared b.declared b.exdcs k member]
  have own : b.declared.declared = true := rfl
  simp only [declaredNames, Block.models, List.filter_cons, own, if_true, others]
  rfl

theorem declaredNames_append (ms ks : List Model) :
    declaredNames (ms ++ ks) = declaredNames ms ++ declaredNames ks := by
  simp [declaredNames]

theorem declaredNames_blocks (blocks : List Block) :
    declaredNames (blocks.flatMap Block.models) = blocks.map Block.name := by
  induction blocks with
  | nil => rfl
  | cons b blocks ih => simp [declaredNames_append, declaredNames_models, ih]

theorem Scan.Named.nodup (named : Named ms) : (declaredNames ms).Nodup := by
  unfold declaredNames
  rw [List.nodup_iff_pairwise_ne, List.pairwise_map, List.pairwise_filter]
  exact named.distinct

theorem Scan.addLines_blocks (valid : ∀ b ∈ blocks, b.Valid)
    (distinct : (declaredNames ended ++ blocks.map Block.name).Nodup) :
    (⟨ended, none⟩ : Scan).addLines (blocks.flatMap Block.lines) =
      .ok ⟨ended ++ blocks.flatMap Block.models, none⟩ := by
  induction blocks generalizing ended with
  | nil => simp [addLines]
  | cons b blocks ih =>
    obtain ⟨first, valid⟩ := List.forall_mem_cons.mp valid
    have new : findModel? ended b.name = none := by
      rw [findModel?_eq_none_iff]
      intro taken
      exact List.disjoint_of_nodup_append distinct taken List.mem_cons_self
    have others : (declaredNames (ended ++ b.models) ++ blocks.map Block.name).Nodup := by
      rw [declaredNames_append, declaredNames_models]
      simpa using distinct
    rw [List.flatMap_cons, addLines_block first new, ih valid others]
    simp

/-- The scan goes through exactly if the lines are a sequence of blocks, and then it finds what their
parts describe. -/
theorem ofLines_eq_ok :
    Model.ofLines lines = .ok ms ↔ ∃ blocks, Blocks lines blocks ∧ ms = blocks.flatMap Block.models := by
  constructor
  · intro scanned
    have named := ofLines_named scanned
    obtain ⟨s, taken, finished⟩ := Outcome.bind_eq_ok.mp scanned
    obtain ⟨rfl, some⟩ := Scan.finish_eq_ok finished
    generalize start : ({} : Scan) = s at taken
    cases Scan.completes_of_addLines taken with
    | @inside => cases start
    | @outside ended blocks valid =>
      obtain rfl : ended = [] := (Scan.mk.inj start).1.symm
      refine ⟨blocks, ⟨?_, valid, ?_, rfl⟩, List.nil_append _⟩
      · rintro rfl
        exact some rfl
      · rw [← declaredNames_blocks]
        exact named.nodup
  · rintro ⟨blocks, divided, rfl⟩
    have taken : ({} : Scan).addLines lines = .ok ⟨blocks.flatMap Block.models, none⟩ := by
      rw [divided.whole]
      exact Scan.addLines_blocks divided.valid divided.distinct
    have some : blocks.flatMap Block.models ≠ [] := by
      intro none
      apply divided.some
      have names := declaredNames_blocks blocks
      rw [none] at names
      exact List.map_eq_nil_iff.mp names.symm
    refine Outcome.bind_eq_ok.mpr ⟨_, taken, ?_⟩
    simp [Scan.finish, some]

/-! ### The lines of valid blocks -/

/-- The `.model` line of a block is its only one. -/
theorem Block.Valid.names {b : Block} (valid : b.Valid) : argumentsOf .model b.lines = [b.name] := by
  have plain {body : List Line} (inner : ∀ line ∈ body, line.Inner) : argumentsOf .model body = [] := by
    simp only [argumentsOf, List.flatMap_eq_nil_iff]
    intro line member
    rw [if_neg (inner line member).1]
  obtain ⟨own, inner⟩ := List.forall_mem_cons.mp valid.inner
  have exdcs : argumentsOf .model (b.exdcs.flatMap Part.lines) = [] := by
    rw [argumentsOf, List.flatMap_assoc, List.flatMap_eq_nil_iff]
    intro p member
    rw [Part.lines, List.flatMap_cons, valid.exdcs p member]
    exact plain (inner p member)
  have last : argumentsOf .model [b.last] = [] := by simp [argumentsOf, valid.closes]
  have first : argumentsOf .model b.model.lines = [b.name] := by
    rw [Part.lines, argumentsOf, List.flatMap_cons, if_pos valid.opens, valid.named]
    exact congrArg _ (plain own)
  rw [Block.lines, Block.parts, List.flatMap_cons, argumentsOf_append, argumentsOf_append, first, last,
    exdcs]
  rfl

theorem argumentsOf_blocks {blocks : List Block} (valid : ∀ b ∈ blocks, b.Valid) :
    argumentsOf .model (blocks.flatMap Block.lines) = blocks.map Block.name := by
  induction blocks with
  | nil => rfl
  | cons b blocks ih =>
    obtain ⟨first, valid⟩ := List.forall_mem_cons.mp valid
    rw [List.flatMap_cons, argumentsOf_append, first.names, ih valid]
    rfl

/-- The lines that open don't-care descriptions. -/
theorem Block.Valid.exdc_lines {b : Block} (valid : b.Valid) :
    b.lines.filter (·.directive = some .exdc) = b.exdcs.map Part.head := by
  have none : ∀ p ∈ b.parts, p.body.filter (·.directive = some .exdc) = [] := by
    intro p member
    apply List.filter_eq_nil_iff.mpr
    intro line inside
    simpa using (valid.inner p member line inside).2.1
  have exdcs : ∀ p ∈ b.exdcs, p.lines.filter (·.directive = some .exdc) = [p.head] := by
    intro p member
    rw [Part.lines, List.filter_cons_of_pos (by simp [valid.exdcs p member]),
      none p (List.mem_cons_of_mem _ member)]
  have own : b.model.lines.filter (·.directive = some .exdc) = [] := by
    rw [Part.lines, List.filter_cons_of_neg (by simp [valid.opens]), none _ List.mem_cons_self]
  have last : [b.last].filter (·.directive = some .exdc) = [] := by simp [valid.closes]
  rw [Block.lines, Block.parts, List.flatMap_cons, List.filter_append, List.filter_append, own, last,
    List.filter_flatMap, List.flatMap_congr exdcs, List.nil_append, List.append_nil]
  exact List.map_eq_flatMap.symm

/-- Blocks can be scanned in one way only. -/
theorem ofLines_blocks {blocks : List Block} (valid : ∀ b ∈ blocks, b.Valid) :
    Model.ofLines (blocks.flatMap Block.lines) = .ok ms ↔
      blocks ≠ [] ∧ (blocks.map Block.name).Nodup ∧ ms = blocks.flatMap Block.models := by
  constructor
  · intro scanned
    -- The scan has found some division; its names are those of the `.model` lines, hence ours.
    obtain ⟨others, divided, rfl⟩ := ofLines_eq_ok.mp scanned
    have names := argumentsOf_blocks valid
    rw [divided.whole, argumentsOf_blocks divided.valid] at names
    have distinct := divided.distinct
    rw [names] at distinct
    have some : blocks ≠ [] := by
      rintro rfl
      exact divided.some (List.map_eq_nil_iff.mp names)
    exact ⟨some, distinct, Except.ok.inj (scanned.symm.trans
      (ofLines_eq_ok.mpr ⟨blocks, ⟨some, valid, distinct, rfl⟩, rfl⟩))⟩
  · rintro ⟨some, distinct, rfl⟩
    exact ofLines_eq_ok.mpr ⟨blocks, ⟨some, valid, distinct, rfl⟩, rfl⟩

end Netlist.Blif
