import Netlist.Proofs.Numbering

/-!
# What the models of a text contain

Each model of a text contains a circuit and properties, which depend on its own lines, less their
numbers, and on the ports of the models that it uses. A text is read exactly if its lines can be
scanned and every model found has a content.
-/

namespace Netlist.Blif

variable {text : String} {lines : List Line} {models models' : List Model} {m m' : Model}

/-! ### Properties -/

def propertiesOf (lines : List Line) : List String :=
  lines.filterMap fun line =>
    if line.directive = some .property then some (" ".intercalate line.args) else none

theorem propertiesOf_eq_nil (other : ∀ line ∈ lines, line.directive ≠ some .property) :
    propertiesOf lines = [] := by
  apply List.filterMap_eq_nil_iff.mpr
  intro line member
  rw [if_neg (other line member)]

theorem propertiesOf_append (before after : List Line) :
    propertiesOf (before ++ after) = propertiesOf before ++ propertiesOf after :=
  List.filterMap_append

theorem properties_append (before after : List Declaration) :
    (Body.ofDeclarations (before ++ after)).properties =
      (Body.ofDeclarations before).properties ++ (Body.ofDeclarations after).properties :=
  List.filterMap_append

theorem propertiesOf_section {s : Section} {declared : Option Declaration}
    (declares : s.Declares models declared) (formed : s.Formed) :
    propertiesOf s.lines = (Body.ofDeclarations declared.toList).properties := by
  have rows : propertiesOf s.rows = [] := by
    apply propertiesOf_eq_nil
    intro row member
    rw [formed.rows row member]
    exact nofun
  have own : propertiesOf s.lines =
      if s.directive = .property then [" ".intercalate s.head.args] else [] := by
    have split : s.lines = [s.head] ++ s.rows := rfl
    rw [split, propertiesOf_append, rows, List.append_nil]
    by_cases is : s.directive = .property <;> simp [propertiesOf, formed.head, is]
  rw [own]
  cases declares with
  | idle other =>
    rw [if_neg]
    · rfl
    · rintro rfl
      simp at other
  | _ => rfl

/-- The properties of a definition are those that its lines state, in order. -/
theorem definition_properties {d : Definition} (named : Scan.Named models)
    (read : (m.definition models).outcome = .ok d) : d.body.properties = propertiesOf m.body := by
  obtain ⟨_, declarations, rfl⟩ := definition_eq_ok.mp read
  obtain ⟨ss, declared, ⟨whole, formed, declares⟩, rfl⟩ := (declarations_eq_ok named).mp declarations
  rw [whole]
  clear read declarations whole
  induction declares with
  | nil => rfl
  | @cons s d ss declared first _ ih =>
    obtain ⟨here, formed⟩ := List.forall_mem_cons.mp formed
    have split : (d :: declared).filterMap id = d.toList ++ declared.filterMap id := by cases d <;> rfl
    rw [List.flatMap_cons, propertiesOf_append, propertiesOf_section first here, split]
    exact (properties_append _ _).trans (congrArg _ (ih formed))

/-! ### Contents -/

/-- The circuit and the properties of a model, if its body can be read and its resets name latches. -/
def Model.content? (models : List Model) (m : Model) : Option (Circuit × List String) :=
  match (m.definition models).outcome with
  | .ok d => if d.body.checkResets = .ok () then some (d.built, d.body.properties) else none
  | .error _ => none

theorem content?_eq_some {content : Circuit × List String} : m.content? models = some content ↔
    ∃ d, (m.definition models).outcome = .ok d ∧ d.body.checkResets = .ok () ∧
      content = (d.built, d.body.properties) := by
  unfold Model.content?
  cases (m.definition models).outcome with
  | error e => simp
  | ok d =>
    by_cases checked : d.body.checkResets = .ok ()
    · simp [checked, eq_comm]
    · simp [checked]

theorem content?_of_plain (named : Scan.Named models) (named' : Scan.Named models')
    (same : m.plain = m'.plain) (ports : SamePorts models models' m.body)
    {content : Circuit × List String} (contains : m.content? models = some content) :
    m'.content? models' = some content := by
  obtain ⟨d, read, checked, rfl⟩ := content?_eq_some.mp contains
  obtain ⟨d', read', plain⟩ := definition_plain named named' same ports read
  have bodies : d.body.plain = d'.body.plain := congrArg Definition.body plain
  have properties : d.body.plain.properties = d'.body.plain.properties := by rw [bodies]
  refine content?_eq_some.mpr ⟨d', read', ?_, ?_⟩
  · rw [← Body.checkResets_plain, ← bodies, Body.checkResets_plain]
    exact checked
  · rw [← d.built_plain, plain, d'.built_plain]
    exact congrArg _ properties

/-- Neither line numbers nor anything but the ports of other models matters. -/
theorem content?_plain (named : Scan.Named models) (named' : Scan.Named models')
    (same : m.plain = m'.plain)
    (ports : ∀ name, (findModel? models name).map Model.ports = (findModel? models' name).map Model.ports) :
    m.content? models = m'.content? models' := by
  apply Option.ext
  intro content
  constructor
  · exact content?_of_plain named named' same fun _ _ _ name _ => ports name
  · exact content?_of_plain named' named same.symm fun _ _ _ name _ => (ports name).symm

theorem map_content? {ms : List Model} {ds : List Definition}
    (bodies : List.Forall₂ (fun m d => (m.definition models).outcome = .ok d) ms ds)
    (resets : ∀ d ∈ ds, d.body.checkResets = .ok ()) :
    ms.map (·.content? models) = (ds.map fun d => (d.built, d.body.properties)).map some := by
  induction bodies with
  | nil => rfl
  | cons read _ ih =>
    obtain ⟨checked, resets⟩ := List.forall_mem_cons.mp resets
    rw [List.map_cons, content?_eq_some.mpr ⟨_, read, checked, rfl⟩, ih resets]
    rfl

theorem exists_definitions {ms : List Model} (each : ∀ m ∈ ms, (m.content? models).isSome) :
    ∃ ds, List.Forall₂ (fun m d => (m.definition models).outcome = .ok d) ms ds ∧
      ∀ d ∈ ds, d.body.checkResets = .ok () := by
  induction ms with
  | nil => exact ⟨[], .nil, by simp⟩
  | cons m ms ih =>
    obtain ⟨first, each⟩ := List.forall_mem_cons.mp each
    obtain ⟨_, contains⟩ := Option.isSome_iff_exists.mp first
    obtain ⟨d, read, checked, -⟩ := content?_eq_some.mp contains
    obtain ⟨ds, bodies, resets⟩ := ih each
    exact ⟨d :: ds, .cons read bodies, List.forall_mem_cons.mpr ⟨checked, resets⟩⟩

theorem map_eq_map_some_iff {α β : Type} {f : α → Option β} {l : List α} {l' : List β} :
    l.map f = l'.map some ↔ (∀ a ∈ l, (f a).isSome) ∧ l' = l.filterMap f := by
  induction l generalizing l' with
  | nil => cases l' <;> simp
  | cons a l ih =>
    cases here : f a with
    | none => cases l' <;> simp [here]
    | some b =>
      cases l' with
      | nil => simp [here]
      | cons b' l' =>
        rw [List.map_cons, List.map_cons, List.cons.injEq, ih, List.forall_mem_cons,
          List.filterMap_cons_some here, List.cons.injEq, here, Option.some.injEq]
        simp only [Option.isSome_some, true_and]
        rw [and_left_comm, eq_comm]

/-- A text is read exactly if its lines are scanned and each model has a content. -/
theorem ofText_content {c : Contents} : (Contents.ofText text).outcome = .ok c ↔
    ∃ lines models, ∃ contents : List (Circuit × List String),
      Line.ofText text = .ok lines ∧ Model.ofLines lines = .ok models ∧
      models.map (·.content? models) = contents.map some ∧
      c = ⟨contents.map Prod.fst, contents.flatMap Prod.snd⟩ := by
  have flat (ds : List Definition) : (⟨ds.map Definition.built, ds.flatMap (·.body.properties)⟩ : Contents) =
      ⟨(ds.map fun d => (d.built, d.body.properties)).map Prod.fst,
        (ds.map fun d => (d.built, d.body.properties)).flatMap Prod.snd⟩ := by
    simp [List.flatMap_map, Function.comp_def]
  rw [ofText_eq_ok]
  constructor
  · rintro ⟨lines, models, definitions, reads, rfl⟩
    exact ⟨lines, models, _, reads.lines_eq, reads.models_eq, map_content? reads.bodies reads.resets,
      flat definitions⟩
  · rintro ⟨lines, models, contents, tokens, scanned, each, rfl⟩
    obtain ⟨definitions, bodies, resets⟩ := exists_definitions (map_eq_map_some_iff.mp each).1
    have same : contents = definitions.map fun d => (d.built, d.body.properties) := by
      apply List.map_injective_iff.mpr fun _ _ => Option.some.inj
      rw [← each, map_content? bodies resets]
    refine ⟨lines, models, definitions, ⟨tokens, scanned, bodies, resets⟩, ?_⟩
    rw [same, flat]

theorem content?_models (scanned : Model.ofLines lines = .ok models) :
    models.map (·.content? models) =
      (models.map Model.plain).map (·.content? (models.map Model.plain)) := by
  have plain := ofLines_plain_eq_ok.mpr ⟨models, scanned, rfl⟩
  have again (m : Model) : m.plain = m.plain.plain := by
    simp [Model.plain, Function.comp_def, Line.plain]
  rw [List.map_map]
  apply List.map_congr_left
  intro m _
  apply content?_plain (ofLines_named scanned) (ofLines_named plain) (again m)
  intro name
  rw [findModel?_plain, Option.map_map]
  rfl

/-- The contents of a text do not depend on the numbers of its lines. -/
theorem ofText_tokens_content {c : Contents} : (Contents.ofText text).outcome = .ok c ↔
    ∃ tokens models, ∃ contents : List (Circuit × List String),
      (lineTexts text).map token? = tokens.map some ∧ Model.ofLines tokens = .ok models ∧
      models.map (·.content? models) = contents.map some ∧
      c = ⟨contents.map Prod.fst, contents.flatMap Prod.snd⟩ := by
  rw [ofText_content]
  constructor
  · rintro ⟨lines, models, contents, read, scanned, each, rfl⟩
    rw [content?_models scanned] at each
    exact ⟨_, _, contents, ofText_tokens read, ofLines_plain_eq_ok.mpr ⟨models, scanned, rfl⟩, each, rfl⟩
  · rintro ⟨tokens, models, contents, said, scanned, each, rfl⟩
    obtain ⟨lines, read⟩ := exists_ofText (map_eq_map_some_iff.mp said).1
    obtain rfl : lines.map Line.plain = tokens := by
      apply List.map_injective_iff.mpr fun _ _ => Option.some.inj
      rw [← ofText_tokens read, said]
    obtain ⟨models, found, rfl⟩ := ofLines_plain_eq_ok.mp scanned
    rw [← content?_models found] at each
    exact ⟨lines, models, contents, read, found, each, rfl⟩

/-- In another order the blocks mean the same to one another. -/
theorem content?_perm {ms ms' : List Model} (named : Scan.Named ms) (permuted : ms'.Perm ms)
    (m : Model) : m.content? ms' = m.content? ms := by
  have named' : Scan.Named ms' := by
    refine ⟨fun k member => named.undeclared k (permuted.mem_iff.mp member), ?_⟩
    refine (permuted.pairwise_iff ?_).mpr named.distinct
    exact fun apart first second same => apart second first same.symm
  apply content?_plain named' named rfl
  intro name
  congr 1
  apply Option.ext
  intro target
  rw [named'.findModel?_eq_some_iff, named.findModel?_eq_some_iff, permuted.mem_iff]

end Netlist.Blif
