import Netlist.Proofs.BodyGrammar
import Netlist.Proofs.Renumbering

/-!
# What line numbers do not matter for

Line numbers say where an error lies, and nothing else is made of them. Of the other models a body
needs no more than the ports of those that its `.subckt` lines name. So lines that differ in their
numbers only declare the same among models with the same ports, and describe the same circuit.
-/

namespace Netlist.Blif

def Line.plain (line : Line) : Line := { line with number := 0 }

def Section.plain (s : Section) : Section := ⟨s.head.plain, s.directive, s.rows.map Line.plain⟩

def Reset.plain (r : Reset) : Reset := { r with line := 0 }

def Declaration.plain : Declaration → Declaration
  | reset r => reset r.plain
  | d => d

def Body.plain (b : Body) : Body := { b with resets := b.resets.map Reset.plain }

def Model.plain (m : Model) : Model := { m with header := 0, body := m.body.map Line.plain }

def Definition.plain (d : Definition) : Definition := ⟨d.model.plain, d.body.plain⟩

/-- The models that the lines use have the same ports among these models as among those. -/
def SamePorts (models models' : List Model) (lines : List Line) : Prop :=
  ∀ line ∈ lines, line.directive = some .subckt → ∀ name ∈ line.args.head?,
    (findModel? models name).map Model.ports = (findModel? models' name).map Model.ports

variable {models models' : List Model} {lines lines' : List Line} {s s' : Section} {m m' : Model}
  {d : Definition}

theorem SamePorts.mono (same : SamePorts models models' lines) (inside : lines' ⊆ lines) :
    SamePorts models models' lines' :=
  fun line member => same line (inside member)

/-! ### Parts -/

def Part.plain (p : Part) : Part := ⟨p.head.plain, p.body.map Line.plain⟩

theorem argumentsOf_plain (d : Directive) (body : List Line) :
    argumentsOf d (body.map Line.plain) = argumentsOf d body := by
  rw [argumentsOf, List.flatMap_map]
  rfl

theorem Part.describe_plain (p : Part) (name : String) (declared : Bool) (inputs outputs : List String) :
    p.plain.describe name declared inputs outputs =
      (p.describe name declared inputs outputs).plain := by
  have blackbox : (p.body.map Line.plain).any (·.directive = some .blackbox) =
      p.body.any (·.directive = some .blackbox) := by
    rw [List.any_map]
    rfl
  simp only [describe, plain, argumentsOf_plain, blackbox]
  rfl

/-! ### Declarations -/

theorem sections_plain (lines : List Line) : sections (lines.map Line.plain) =
    ((sections lines).1.map Line.plain, (sections lines).2.map Section.plain) :=
  sections_renumber (fun _ => 0) lines

/-- What a section declares is told by its tokens and the ports of the model that it uses. -/
theorem Section.Declares.plain {declared : Option Declaration}
    (declares : s.Declares models declared) (formed : s.Formed) (named : Scan.Named models)
    (same : s.plain = s'.plain) (ports : SamePorts models models' s.lines) :
    ∃ declared', s'.Declares models' declared' ∧
      declared.map Declaration.plain = declared'.map Declaration.plain := by
  obtain ⟨head', directive', rows'⟩ := s'
  obtain ⟨heads, rfl, below⟩ := Section.mk.inj same
  have args : s.head.args = head'.args := by
    have := congrArg Line.args heads
    exact this
  have rowArgs : s.rows.map Line.args = rows'.map Line.args := by
    simpa [Function.comp_def, Line.plain] using congrArg (List.map Line.args) below
  have none (empty : s.rows = []) : rows' = [] := by simpa [empty] using below.symm
  cases declares with
  | @table head rows inputs output names fits =>
    have fits' : ∀ row ∈ rows', CoverRow inputs.length row.args := by
      rw [← List.forall_mem_map (P := CoverRow inputs.length), ← rowArgs, List.forall_mem_map]
      exact fits
    have texts : rows.map (fun row => " ".intercalate row.args) =
        rows'.map fun row => " ".intercalate row.args := by
      simpa [Function.comp_def] using congrArg (List.map (" ".intercalate ·)) rowArgs
    exact ⟨_, .table (args ▸ names) fits', by rw [texts]⟩
  | @reset head row latch value names set =>
    obtain ⟨row', rfl⟩ : ∃ row', rows' = [row'] :=
      List.length_eq_one_iff.mp (by simpa using (congrArg List.length below).symm)
    obtain rowArgs : row.args = row'.args := by simpa using rowArgs
    exact ⟨_, .reset (args ▸ names) (rowArgs ▸ set), rfl⟩
  | @latch head l latchArgs =>
    obtain rfl := none rfl
    exact ⟨_, .latch (args ▸ latchArgs), rfl⟩
  | @subcircuit head model rest target bs names member declared name bound portsOf =>
    obtain rfl := none rfl
    have found := named.findModel?_eq_some_iff.mpr ⟨member, declared, name⟩
    have agree := ports head List.mem_cons_self formed.head model (by simp [names])
    rw [found, Option.map_some, eq_comm, Option.map_eq_some_iff] at agree
    obtain ⟨target', found', samePorts⟩ := agree
    obtain ⟨member', declared', name'⟩ := findModel?_eq_some found'
    obtain ⟨inputs, outputs⟩ : target'.inputs = target.inputs ∧ target'.outputs = target.outputs :=
      Prod.mk.inj samePorts
    have use : Subcircuit.ofBindings model target bs = .ofBindings model target' bs := by
      rw [Subcircuit.ofBindings, Subcircuit.ofBindings, inputs]
    rw [← inputs, ← outputs] at portsOf
    exact ⟨_, .subcircuit (args ▸ names) member' declared' name' bound portsOf, by rw [use]⟩
  | @property head =>
    obtain rfl := none rfl
    exact ⟨_, .property, by rw [args]⟩
  | @idle head directive other =>
    obtain rfl := none rfl
    exact ⟨_, .idle other, rfl⟩

theorem forall₂_declares_plain {ss ss' : List Section} {declared : List (Option Declaration)}
    (declares : List.Forall₂ (Section.Declares models) ss declared) (formed : ∀ s ∈ ss, s.Formed)
    (named : Scan.Named models) (same : ss.map Section.plain = ss'.map Section.plain)
    (ports : ∀ s ∈ ss, SamePorts models models' s.lines) :
    ∃ declared', List.Forall₂ (Section.Declares models') ss' declared' ∧
      declared.map (·.map Declaration.plain) = declared'.map (·.map Declaration.plain) := by
  induction declares generalizing ss' with
  | nil =>
    obtain rfl := List.map_eq_nil_iff.mp same.symm
    exact ⟨[], .nil, rfl⟩
  | @cons s d ss declared first _ ih =>
    obtain ⟨s', ss', rfl, here, later⟩ := List.map_eq_cons_iff.mp same.symm
    obtain ⟨formedHere, formed⟩ := List.forall_mem_cons.mp formed
    obtain ⟨portsHere, ports⟩ := List.forall_mem_cons.mp ports
    obtain ⟨d', first', equal⟩ := first.plain formedHere named here.symm portsHere
    obtain ⟨declared', rest', equals⟩ := ih formed later.symm ports
    exact ⟨d' :: declared', .cons first' rest', by rw [List.map_cons, List.map_cons, equal, equals]⟩

/-- Lines that differ in their numbers only declare the same, but for the numbers of resets. -/
theorem Declares.plain {ss : List Section} {declared : List (Option Declaration)}
    (declares : Declares models lines ss declared) (named : Scan.Named models)
    (same : lines.map Line.plain = lines'.map Line.plain) (ports : SamePorts models models' lines) :
    ∃ ss' declared', Declares models' lines' ss' declared' ∧
      declared.map (·.map Declaration.plain) = declared'.map (·.map Declaration.plain) := by
  obtain ⟨whole, -, formed⟩ := sections_divide lines'
  have plain := sections_plain lines'
  rw [← same, sections_plain, declares.whole, sections_flatMap declares.formed] at plain
  -- No row stands before the first section here, so none does there.
  obtain ⟨stray, rest⟩ := Prod.mk.inj plain
  rw [List.map_eq_nil_iff.mp stray.symm, List.nil_append] at whole
  have portsBelow : ∀ s ∈ ss, SamePorts models models' s.lines := by
    intro s member
    apply ports.mono
    intro line inside
    rw [declares.whole]
    exact List.mem_flatMap.mpr ⟨s, member, inside⟩
  obtain ⟨declared', each, equal⟩ :=
    forall₂_declares_plain declares.declares declares.formed named rest portsBelow
  exact ⟨_, declared', ⟨whole, formed, each⟩, equal⟩

/-! ### Definitions -/

theorem ofDeclarations_plain (ds : List Declaration) :
    Body.ofDeclarations (ds.map Declaration.plain) = (Body.ofDeclarations ds).plain := by
  have plain : Declaration.plain = Declaration.renumber fun _ => 0 := by
    funext d
    cases d <;> rfl
  rw [plain]
  exact ofDeclarations_renumber (fun _ => 0) ds

/-- A body is read as it is from lines with other numbers, among models with the same ports. -/
theorem definition_plain (named : Scan.Named models) (named' : Scan.Named models')
    (same : m.plain = m'.plain) (ports : SamePorts models models' m.body)
    (read : (m.definition models).outcome = .ok d) :
    ∃ d', (m'.definition models').outcome = .ok d' ∧ d.plain = d'.plain := by
  obtain ⟨_, declarations, rfl⟩ := definition_eq_ok.mp read
  obtain ⟨ss, declared, declares, rfl⟩ := (declarations_eq_ok named).mp declarations
  obtain ⟨ss', declared', declares', equal⟩ := declares.plain named (congrArg Model.body same) ports
  have read' := (declarations_eq_ok named').mpr ⟨ss', declared', declares', rfl⟩
  refine ⟨_, definition_eq_ok.mpr ⟨_, read', rfl⟩, ?_⟩
  have kept (ds : List (Option Declaration)) : (ds.filterMap id).map Declaration.plain =
      (ds.map (·.map Declaration.plain)).filterMap id := by
    rw [List.map_filterMap, List.filterMap_map]
    rfl
  rw [Definition.plain, Definition.plain, same, ← ofDeclarations_plain, ← ofDeclarations_plain, kept, kept,
    equal]

/-- The circuit is the same without line numbers. -/
theorem Definition.built_plain (d : Definition) : d.plain.built = d.built :=
  d.built_renumber fun _ => 0

theorem Body.checkResets_plain {b : Body} :
    b.plain.checkResets = .ok () ↔ b.checkResets = .ok () := by
  have same : b.plain.checkResets = Outcome.relabel (ReadError.renumber fun _ => 0) id b.checkResets :=
    b.checkResets_renumber fun _ => 0
  rw [same]
  cases b.checkResets <;> simp [Outcome.relabel]

/-! ### Lines without their numbers -/

def token? (text : List Char) : Option Line := (Line.ofLogical ⟨0, text⟩).toOption

theorem ofLogical_plain (line : LogicalLine) :
    (Line.ofLogical line).toOption.map Line.plain = token? line.text := by
  unfold token? Line.ofLogical
  dsimp only
  split <;> rfl

def lineTexts (text : String) : List (List Char) := (LogicalLine.ofText text).map LogicalLine.text

theorem ofText_tokens {text : String} (read : Line.ofText text = .ok lines) :
    (lineTexts text).map token? = (lines.map Line.plain).map some := by
  have each := Outcome.mapM_eq_ok.mp read
  rw [lineTexts, List.map_map, List.map_map, ← List.forall₂_eq_eq_eq, List.forall₂_map_left_iff,
    List.forall₂_map_right_iff]
  apply each.imp
  intro logical line said
  have told := ofLogical_plain logical
  rw [said] at told
  exact told.symm

theorem exists_ofText {text : String} (told : ∀ t ∈ lineTexts text, (token? t).isSome) :
    ∃ lines, Line.ofText text = .ok lines := by
  apply Outcome.exists_mapM_eq_ok
  intro logical member
  have said := told logical.text (List.mem_map_of_mem member)
  rw [← ofLogical_plain] at said
  cases read : Line.ofLogical logical with
  | ok line => exact ⟨line, rfl⟩
  | error e => simp [read, Except.toOption] at said

/-! ### The scan -/

theorem findModel?_plain (models : List Model) (name : String) :
    findModel? (models.map Model.plain) name = (findModel? models name).map Model.plain :=
  findModel?_renumber (fun _ => 0) models name

/-- The scan finds the same models in lines without numbers. -/
theorem ofLines_plain_eq_ok {ms : List Model} : Model.ofLines (lines.map Line.plain) = .ok ms ↔
    ∃ models, Model.ofLines lines = .ok models ∧ models.map Model.plain = ms := by
  have both : Model.ofLines (lines.map Line.plain) =
      Outcome.relabel (ReadError.renumber fun _ => 0) (List.map Model.plain) (Model.ofLines lines) :=
    ofLines_renumber (fun _ => 0) lines
  rw [both]
  cases Model.ofLines lines <;> simp [Outcome.relabel]

end Netlist.Blif
