import Netlist.Proofs.ModelContents

/-!
# Reading a text block by block

A text that is made of complete blocks is read exactly if each of its lines is, the names of its
`.model` lines differ, and each model of each block is read among the models of all blocks. What it
contains is what the blocks contain, one after the other.
-/

namespace Netlist.Blif

/-- The texts of the lines of a block, from a line that opens a model by one name to one that ends it,
with no such line between. A line between them may be malformed. -/
structure TextBlock where
  name : String
  first : List Char
  inner : List (List Char)
  last : List Char
  ending : List String
  opens : token? first = some ⟨0, some .model, [name]⟩
  closes : token? last = some ⟨0, some .endModel, ending⟩
  between : ∀ t ∈ inner, ∀ line ∈ token? t,
    line.directive ≠ some .model ∧ line.directive ≠ some .endModel

namespace TextBlock

def texts (b : TextBlock) : List (List Char) := b.first :: b.inner ++ [b.last]

def tokens (b : TextBlock) : List Line := b.texts.filterMap token?

/-- Divides lines at those that open don't-care descriptions. -/
def divide : List Line → List Line × List Part
  | [] => ([], [])
  | line :: lines =>
    let (body, parts) := divide lines
    if line.directive = some .exdc then ([], ⟨line, body⟩ :: parts) else (line :: body, parts)

def block (b : TextBlock) : Block where
  name := b.name
  model := ⟨⟨0, some .model, [b.name]⟩, (divide (b.inner.filterMap token?)).1⟩
  exdcs := (divide (b.inner.filterMap token?)).2
  last := ⟨0, some .endModel, b.ending⟩

def models (b : TextBlock) : List Model := b.block.models

def Readable (b : TextBlock) : Prop := ∀ t ∈ b.texts, (token? t).isSome

theorem divide_lines (lines : List Line) :
    (divide lines).1 ++ (divide lines).2.flatMap Part.lines = lines := by
  induction lines with
  | nil => rfl
  | cons line lines ih =>
    by_cases exdc : line.directive = some .exdc
    · simpa [divide, exdc, Part.lines] using ih
    · simpa [divide, exdc] using ih

theorem divide_inner {lines : List Line}
    (between : ∀ line ∈ lines, line.directive ≠ some .model ∧ line.directive ≠ some .endModel) :
    (∀ line ∈ (divide lines).1, line.Inner) ∧
      ∀ p ∈ (divide lines).2, p.head.directive = some .exdc ∧ ∀ line ∈ p.body, line.Inner := by
  induction lines with
  | nil => simp [divide]
  | cons line lines ih =>
    obtain ⟨here, between⟩ := List.forall_mem_cons.mp between
    obtain ⟨inner, parts⟩ := ih between
    by_cases exdc : line.directive = some .exdc
    · simp only [divide, exdc, if_true]
      exact ⟨by simp, List.forall_mem_cons.mpr ⟨⟨exdc, inner⟩, parts⟩⟩
    · simp only [divide, exdc, if_false]
      exact ⟨List.forall_mem_cons.mpr ⟨⟨here.1, exdc, here.2⟩, inner⟩, parts⟩

theorem block_lines (b : TextBlock) : b.block.lines = b.tokens := by
  have inner := divide_lines (b.inner.filterMap token?)
  simp [tokens, texts, block, Block.lines, Block.parts, Part.lines, b.opens, b.closes, inner]

theorem block_valid (b : TextBlock) : b.block.Valid := by
  have between : ∀ line ∈ b.inner.filterMap token?,
      line.directive ≠ some .model ∧ line.directive ≠ some .endModel := by
    intro line member
    obtain ⟨t, inside, said⟩ := List.mem_filterMap.mp member
    exact b.between t inside line said
  obtain ⟨inner, parts⟩ := divide_inner between
  exact ⟨rfl, rfl, fun p member => (parts p member).1, rfl,
    List.forall_mem_cons.mpr ⟨inner, fun p member => (parts p member).2⟩⟩

end TextBlock

/-! ### What blocks contain -/

variable {models : List Model}

/-- The lines that open and end descriptions state no properties. -/
theorem Block.Valid.properties {b : Block} (valid : b.Valid) :
    propertiesOf b.lines = b.models.flatMap fun m => propertiesOf m.body := by
  have part : ∀ p ∈ b.parts, propertiesOf p.lines = propertiesOf p.body := by
    have skip {p : Part} (opens : p.head.directive ≠ some .property) :
        propertiesOf p.lines = propertiesOf p.body := by
      rw [Part.lines, propertiesOf, List.filterMap_cons, if_neg opens]
      rfl
    rw [Block.parts, List.forall_mem_cons]
    exact ⟨skip (by simp [valid.opens]), fun p member => skip (by simp [valid.exdcs p member])⟩
  have last : propertiesOf [b.last] = [] := by simp [propertiesOf, valid.closes]
  have bodies := congrArg (List.flatMap propertiesOf) b.models_bodies
  rw [List.flatMap_map, List.flatMap_map] at bodies
  rw [bodies, Block.lines, propertiesOf_append, last, List.append_nil, propertiesOf, List.filterMap_flatMap]
  exact List.flatMap_congr part

theorem map_filterMap_of_some {α β γ : Type} {f : α → Option β} {g : β → γ} {h : α → γ} {l : List α}
    (each : ∀ a ∈ l, ∃ b, f a = some b ∧ g b = h a) : (l.filterMap f).map g = l.map h := by
  induction l with
  | nil => rfl
  | cons a l ih =>
    obtain ⟨⟨b, here, same⟩, each⟩ := List.forall_mem_cons.mp each
    rw [List.filterMap_cons_some here, List.map_cons, List.map_cons, same, ih each]

def TextBlock.contents (models : List Model) (b : TextBlock) : List (Circuit × List String) :=
  b.models.filterMap (·.content? models)

namespace TextBlock

def openedNames (b : TextBlock) : List String :=
  b.name :: (b.tokens.filter (·.directive = some .exdc)).map fun _ => exdcName

def properties (b : TextBlock) : List String := propertiesOf b.tokens

theorem models_names (b : TextBlock) : b.models.map Model.name = b.openedNames := by
  rw [openedNames, ← b.block_lines, b.block_valid.exdc_lines, List.map_map, models, Block.models,
    List.map_cons, exdcModels_names]
  rfl

theorem contents_names {b : TextBlock} (each : ∀ m ∈ b.models, (m.content? models).isSome) :
    (b.contents models).map (·.1.name) = b.openedNames := by
  rw [← b.models_names]
  apply map_filterMap_of_some
  intro m member
  obtain ⟨content, contains⟩ := Option.isSome_iff_exists.mp (each m member)
  obtain ⟨d, read, -, rfl⟩ := content?_eq_some.mp contains
  exact ⟨_, contains, congrArg Model.name (definition_model read)⟩

theorem contents_properties {b : TextBlock} (named : Scan.Named models)
    (each : ∀ m ∈ b.models, (m.content? models).isSome) :
    (b.contents models).flatMap Prod.snd = b.properties := by
  rw [properties, ← b.block_lines, b.block_valid.properties, List.flatMap_def, List.flatMap_def]
  congr 1
  apply map_filterMap_of_some
  intro m member
  obtain ⟨content, contains⟩ := Option.isSome_iff_exists.mp (each m member)
  obtain ⟨d, read, -, rfl⟩ := content?_eq_some.mp contains
  exact ⟨_, contains, definition_properties named read⟩

end TextBlock

/-! ### Texts of blocks -/

variable {text : String} {lines : List Line} {blocks : List TextBlock}

theorem tokens_of_blocks (whole : lineTexts text = blocks.flatMap TextBlock.texts)
    (read : Line.ofText text = .ok lines) : (∀ b ∈ blocks, b.Readable) ∧
      lines.map Line.plain = (blocks.map TextBlock.block).flatMap Block.lines := by
  have tokens := ofText_tokens read
  rw [whole] at tokens
  obtain ⟨told, said⟩ := map_eq_map_some_iff.mp tokens
  refine ⟨fun b member t inside => told t (List.mem_flatMap.mpr ⟨b, member, inside⟩), ?_⟩
  rw [said, List.filterMap_flatMap, List.flatMap_map]
  exact List.flatMap_congr fun b _ => b.block_lines.symm

theorem ofLines_textBlocks {ms : List Model} :
    Model.ofLines ((blocks.map TextBlock.block).flatMap Block.lines) = .ok ms ↔
      blocks ≠ [] ∧ (blocks.map TextBlock.name).Nodup ∧ ms = blocks.flatMap TextBlock.models := by
  have valid : ∀ b ∈ blocks.map TextBlock.block, b.Valid :=
    List.forall_mem_map.mpr fun b _ => b.block_valid
  rw [ofLines_blocks valid, List.map_map, List.flatMap_map, ne_eq, List.map_eq_nil_iff]
  rfl

theorem named_blocks (some : blocks ≠ []) (distinct : (blocks.map TextBlock.name).Nodup) :
    Scan.Named (blocks.flatMap TextBlock.models) :=
  ofLines_named (ofLines_textBlocks.mpr ⟨some, distinct, rfl⟩)

/-- A text of complete blocks can be scanned exactly if no line is malformed and the names differ. -/
theorem scan_blocks (whole : lineTexts text = blocks.flatMap TextBlock.texts) {ms : List Model} :
    (∃ lines models, Line.ofText text = .ok lines ∧ Model.ofLines lines = .ok models ∧
        models.map Model.plain = ms) ↔
      blocks ≠ [] ∧ (∀ b ∈ blocks, b.Readable) ∧ (blocks.map TextBlock.name).Nodup ∧
        ms = blocks.flatMap TextBlock.models := by
  constructor
  · rintro ⟨lines, models, read, found, plain⟩
    obtain ⟨readable, tokens⟩ := tokens_of_blocks whole read
    have found := ofLines_plain_eq_ok.mpr ⟨models, found, plain⟩
    rw [tokens] at found
    obtain ⟨some, distinct, is⟩ := ofLines_textBlocks.mp found
    exact ⟨some, readable, distinct, is⟩
  · rintro ⟨some, readable, distinct, is⟩
    have told : ∀ t ∈ lineTexts text, (token? t).isSome := by
      intro t member
      rw [whole] at member
      obtain ⟨b, inside, member⟩ := List.mem_flatMap.mp member
      exact readable b inside t member
    obtain ⟨lines, read⟩ := exists_ofText told
    have found := ofLines_textBlocks.mpr ⟨some, distinct, is⟩
    rw [← (tokens_of_blocks whole read).2] at found
    obtain ⟨models, found, plain⟩ := ofLines_plain_eq_ok.mp found
    exact ⟨lines, models, read, found, plain⟩

/-- What a text of complete blocks contains. -/
theorem ofText_blocks (whole : lineTexts text = blocks.flatMap TextBlock.texts) {c : Contents} :
    (Contents.ofText text).outcome = .ok c ↔
      blocks ≠ [] ∧ (∀ b ∈ blocks, b.Readable) ∧ (blocks.map TextBlock.name).Nodup ∧
        (∀ m ∈ blocks.flatMap TextBlock.models,
          (m.content? (blocks.flatMap TextBlock.models)).isSome) ∧
        c = ⟨blocks.flatMap fun b => (b.contents (blocks.flatMap TextBlock.models)).map Prod.fst,
          blocks.flatMap fun b => (b.contents (blocks.flatMap TextBlock.models)).flatMap Prod.snd⟩ := by
  rw [ofText_content]
  constructor
  · rintro ⟨lines, models, contents, read, found, each, rfl⟩
    obtain ⟨some, readable, distinct, is⟩ := (scan_blocks whole).mp ⟨lines, models, read, found, rfl⟩
    rw [content?_models found, is] at each
    obtain ⟨whole, rfl⟩ := map_eq_map_some_iff.mp each
    refine ⟨some, readable, distinct, whole, ?_⟩
    rw [List.filterMap_flatMap, List.map_flatMap, List.flatMap_assoc]
    rfl
  · rintro ⟨some, readable, distinct, each, rfl⟩
    obtain ⟨lines, models, read, found, is⟩ := (scan_blocks whole).mpr ⟨some, readable, distinct, rfl⟩
    refine ⟨lines, models, (blocks.flatMap TextBlock.models).filterMap
      (·.content? (blocks.flatMap TextBlock.models)), read, found, ?_, ?_⟩
    · rw [content?_models found, is]
      exact map_eq_map_some_iff.mpr ⟨each, rfl⟩
    · rw [List.filterMap_flatMap, List.map_flatMap, List.flatMap_assoc]
      rfl

end Netlist.Blif
