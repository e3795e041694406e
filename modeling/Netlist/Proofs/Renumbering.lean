import Netlist.Proofs.Blocks
import Netlist.Proofs.Linking

/-!
# Other line numbers

A line says where it stands, and what is reported of it says so too. Nothing else is made of line
numbers. So lines that bear other numbers are read as they were, with the other numbers in the error and
in the warnings: each step of reading commutes with the change of numbers.
-/

namespace Netlist

namespace Outcome

variable {ε δ α β γ κ : Type} {g : ε → δ} {h : α → β} {j : γ → κ}

def relabel (g : ε → δ) (h : α → β) : Except ε α → Except δ β
  | .ok a => .ok (h a)
  | .error e => .error (g e)

theorem relabel_id (g : ε → δ) (x : Except ε α) : relabel g id x = x.mapError g := by
  cases x <;> rfl

theorem relabel_bind {x : Except ε α} {x' : Except δ β} {f : α → Except ε γ} {f' : β → Except δ κ}
    (first : x' = relabel g h x) (next : ∀ a, f' (h a) = relabel g j (f a)) :
    x' >>= f' = relabel g j (x >>= f) := by
  subst first
  cases x with
  | ok a => exact next a
  | error e => rfl

theorem relabel_mapM {f : α → Except ε γ} {f' : β → Except δ κ}
    (each : ∀ a, f' (h a) = relabel g j (f a)) (l : List α) : (l.map h).mapM f' = relabel g (List.map j) (l.mapM f) := by
  induction l with
  | nil => rfl
  | cons a l ih =>
    rw [List.map_cons, List.mapM_cons, List.mapM_cons]
    exact relabel_bind (each a) fun b => relabel_bind ih fun bs => rfl

end Outcome

namespace Traced

variable {ε δ α β γ κ : Type} {e : Event → Event} {g : ε → δ} {h : α → β} {j : γ → κ}

def relabel (e : Event → Event) (g : ε → δ) (h : α → β) (x : Traced ε α) : Traced δ β :=
  ⟨x.events.map e, Outcome.relabel g h x.outcome⟩

theorem relabel_ofExcept (e : Event → Event) {x : Except ε α} {x' : Except δ β}
    (same : x' = Outcome.relabel g h x) : ofExcept x' = (ofExcept x).relabel e g h :=
  congrArg ofExcept same

theorem relabel_bind {x : Traced ε α} {x' : Traced δ β} {f : α → Traced ε γ} {f' : β → Traced δ κ}
    (first : x' = x.relabel e g h) (next : ∀ a, f' (h a) = (f a).relabel e g j) :
    x' >>= f' = (x >>= f).relabel e g j := by
  subst first
  cases ended : x.outcome with
  | ok a =>
    have ended' : (x.relabel e g h).outcome = .ok (h a) := by simp [relabel, ended, Outcome.relabel]
    rw [bind_of_ok ended, bind_of_ok ended', next]
    simp [relabel]
  | error d =>
    have ended' : (x.relabel e g h).outcome = .error (g d) := by simp [relabel, ended, Outcome.relabel]
    rw [bind_of_error ended, bind_of_error ended']
    rfl

theorem relabel_mapM {f : α → Traced ε γ} {f' : β → Traced δ κ}
    (each : ∀ a, f' (h a) = (f a).relabel e g j) (l : List α) : (l.map h).mapM f' = (l.mapM f).relabel e g (List.map j) := by
  induction l with
  | nil => rfl
  | cons a l ih =>
    rw [List.map_cons, List.mapM_cons, List.mapM_cons]
    exact relabel_bind (each a) fun b => relabel_bind ih fun bs => rfl

end Traced

def Event.renumber (f : Nat → Nat) : Event → Event
  | skipped keyword line => skipped keyword (f line)
  | e => e

namespace Blif

open Outcome

variable (f : Nat → Nat) {models models' : List Model}

def LogicalLine.renumber (line : LogicalLine) : LogicalLine := { line with number := f line.number }

def Line.renumber (line : Line) : Line := { line with number := f line.number }

def ReadError.renumber : ReadError → ReadError
  | noModels => noModels
  | inLine number defect => inLine (f number) defect

def LoadError.renumber : LoadError → LoadError
  | rejected reached error => rejected reached (error.renumber f)
  | e => e

def Section.renumber (s : Section) : Section :=
  ⟨s.head.renumber f, s.directive, s.rows.map (Line.renumber f)⟩

def Reset.renumber (r : Reset) : Reset := { r with line := f r.line }

def Declaration.renumber : Declaration → Declaration
  | reset r => reset (r.renumber f)
  | d => d

def Body.renumber (b : Body) : Body := { b with resets := b.resets.map (Reset.renumber f) }

def Model.renumber (m : Model) : Model :=
  { m with header := f m.header, body := m.body.map (Line.renumber f) }

def Definition.renumber (d : Definition) : Definition := ⟨d.model.renumber f, d.body.renumber f⟩

def Scan.renumber (s : Scan) : Scan :=
  ⟨s.ended.map (Model.renumber f), s.current.map (Model.renumber f)⟩

/-- What the use of a model depends on. -/
def Model.ports (m : Model) : List String × List String := (m.inputs, m.outputs)

theorem ofLogical_renumber (line : LogicalLine) : Line.ofLogical (line.renumber f) =
    relabel (ReadError.renumber f) (Line.renumber f) (Line.ofLogical line) := by
  unfold Line.ofLogical LogicalLine.renumber
  dsimp only
  split <;> rfl

/-! ### The scan -/

theorem findModel?_renumber (models : List Model) (name : String) :
    findModel? (models.map (Model.renumber f)) name = (findModel? models name).map (Model.renumber f) :=
  List.find?_map

theorem Model.addLine_renumber (m : Model) (line : Line) :
    (m.renumber f).addLine (line.renumber f) = (m.addLine line).renumber f := by
  rw [Model.addLine_eq, Model.addLine_eq]
  simp only [Model.renumber, List.map_append, List.map_singleton]
  rfl

theorem Scan.openModel_renumber (s : Scan) (line : Line) :
    (s.renumber f).openModel (line.renumber f) = relabel id (Scan.renumber f) (s.openModel line) := by
  obtain ⟨ended, _ | m⟩ := s
  · obtain ⟨number, directive, args⟩ := line
    match args with
    | [] => rfl
    | [name] =>
      have taken : (findModel? (ended.map (Model.renumber f)) name).isSome =
          (findModel? ended name).isSome := by
        rw [findModel?_renumber, Option.isSome_map]
      change (if (findModel? (ended.map (Model.renumber f)) name).isSome then _ else _) =
        relabel id _ (if (findModel? ended name).isSome then _ else _)
      rw [taken]
      split <;> rfl
    | _ :: _ :: _ => rfl
  · rfl

theorem Scan.addLine_renumber (s : Scan) (line : Line) :
    (s.renumber f).addLine (line.renumber f) = relabel id (Scan.renumber f) (s.addLine line) := by
  have directive : (line.renumber f).directive = line.directive := rfl
  obtain ⟨ended, _ | m⟩ := s
  · cases is : line.directive with
    | none => simp [addLine, renumber, directive, is, relabel]
    | some d =>
      cases d with
      | model => simpa only [addLine, directive, is] using Scan.openModel_renumber f ⟨ended, none⟩ line
      | _ => simp [addLine, renumber, directive, is, relabel]
  · refine (addLine_open _ (m.renumber f) _).trans ?_
    rw [addLine_open, directive, m.addLine_renumber]
    split
    · rfl
    split
    · simp [relabel, renumber, Model.renumber, Model.openExdc, Line.renumber]
    split
    · simp [relabel, renumber]
    · rfl

theorem Scan.addLines_renumber (s : Scan) (lines : List Line) :
    (s.renumber f).addLines (lines.map (Line.renumber f)) =
      relabel (ReadError.renumber f) (Scan.renumber f) (s.addLines lines) := by
  induction lines generalizing s with
  | nil => rfl
  | cons line lines ih =>
    have first := s.addLine_renumber f line
    rw [List.map_cons, addLines, addLines, first]
    cases s.addLine line with
    | ok t => exact ih t
    | error defect => rfl

theorem Scan.finish_renumber (s : Scan) : (s.renumber f).finish =
    relabel (ReadError.renumber f) (List.map (Model.renumber f)) s.finish := by
  obtain ⟨ended, _ | m⟩ := s
  · cases ended <;> rfl
  · rfl

theorem ofLines_renumber (lines : List Line) : Model.ofLines (lines.map (Line.renumber f)) =
    relabel (ReadError.renumber f) (List.map (Model.renumber f)) (Model.ofLines lines) := by
  have scanned := Scan.addLines_renumber f {} lines
  have start : ({} : Scan).renumber f = {} := rfl
  rw [start] at scanned
  rw [Model.ofLines, Model.ofLines, scanned]
  exact relabel_bind rfl (Scan.finish_renumber f)

/-! ### Bodies -/

theorem sections_renumber (lines : List Line) : sections (lines.map (Line.renumber f)) =
    ((sections lines).1.map (Line.renumber f), (sections lines).2.map (Section.renumber f)) := by
  induction lines with
  | nil => rfl
  | cons line lines ih =>
    have directive : (line.renumber f).directive = line.directive := rfl
    rw [List.map_cons, sections, sections, ih, directive]
    cases line.directive <;> rfl

theorem noRows_renumber (rows : List Line) :
    noRows (rows.map (Line.renumber f)) = relabel (ReadError.renumber f) id (noRows rows) := by
  cases rows <;> rfl

theorem inLine_renumber {α : Type} (line : Line) (x : Except Defect α) :
    inLine (line.renumber f) x = relabel (ReadError.renumber f) id (inLine line x) := by
  cases x <;> rfl

theorem Table.ofSection_renumber (head : Line) (rows : List Line) :
    Table.ofSection (head.renumber f) (rows.map (Line.renumber f)) =
      relabel (ReadError.renumber f) id (Table.ofSection head rows) := by
  have args : (head.renumber f).args = head.args := rfl
  unfold ofSection
  rw [args]
  cases head.args.getLast? with
  | none => rfl
  | some output =>
    have texts : (rows.map (Line.renumber f)).mapM
          (fun row => inLine row (coverRow head.args.dropLast output row.args)) =
        relabel (ReadError.renumber f) (List.map id)
          (rows.mapM fun row => inLine row (coverRow head.args.dropLast output row.args)) :=
      relabel_mapM (fun row => inLine_renumber f row _) rows
    rw [List.map_id_fun] at texts
    exact relabel_bind texts fun texts => rfl

theorem Reset.ofSection_renumber (head : Line) (rows : List Line) :
    Reset.ofSection (head.renumber f) (rows.map (Line.renumber f)) =
      relabel (ReadError.renumber f) (Reset.renumber f) (Reset.ofSection head rows) := by
  obtain ⟨number, directive, args⟩ := head
  match args with
  | [] | _ :: _ :: _ => rfl
  | [latch] =>
    match rows with
    | [] => rfl
    | row :: more =>
      change inLine (row.renumber f) (resetValue latch row.args) >>= _ =
        relabel _ _ (inLine row (resetValue latch row.args) >>= _)
      refine relabel_bind (inLine_renumber f row _) fun value => ?_
      cases more <;> rfl

/-- Only the ports of the model that is used matter. -/
theorem Subcircuit.ofArgs_congr
    (same : ∀ name,
      (findModel? models' name).map Model.ports = (findModel? models name).map Model.ports) :
    Subcircuit.ofArgs models' = Subcircuit.ofArgs models := by
  have bind_congr {target' target : Model} (ports : target'.ports = target.ports) (s : Subcircuit)
      (args : List String) : s.bind target' args = s.bind target args := by
    obtain ⟨inputs, outputs⟩ := Prod.mk.inj ports
    have direction (port : String) : target'.direction? port = target.direction? port := by
      unfold Model.direction?
      rw [inputs, outputs]
    induction args generalizing s with
    | nil => rfl
    | cons arg args ih =>
      unfold Subcircuit.bind
      simp only [direction, ih]
  funext args
  cases args with
  | nil => rfl
  | cons name args =>
    have found := same name
    unfold ofArgs
    dsimp only
    cases here : findModel? models name with
    | none =>
      rw [here, Option.map_none, Option.map_eq_none_iff] at found
      rw [found]
    | some target =>
      rw [here, Option.map_some, Option.map_eq_some_iff] at found
      obtain ⟨target', here', ports⟩ := found
      rw [here']
      exact bind_congr ports _ _

theorem Section.declaration_renumber (models : List Model) (s : Section) :
    (s.renumber f).declaration (models.map (Model.renumber f)) =
      (s.declaration models).relabel (Event.renumber f) (ReadError.renumber f)
        (Option.map (Declaration.renumber f)) := by
  have uses : Subcircuit.ofArgs (models.map (Model.renumber f)) = Subcircuit.ofArgs models := by
    apply Subcircuit.ofArgs_congr
    intro name
    rw [findModel?_renumber, Option.map_map]
    rfl
  obtain ⟨head, directive, rows⟩ := s
  have alone (declared : Option Declaration) :
      (Traced.ofExcept (noRows (rows.map (Line.renumber f))) >>= fun _ =>
        pure (declared.map (Declaration.renumber f))) =
      (Traced.ofExcept (noRows rows) >>= fun _ => pure declared).relabel (Event.renumber f)
        (ReadError.renumber f) (Option.map (Declaration.renumber f)) := by
    exact Traced.relabel_bind (Traced.relabel_ofExcept _ (noRows_renumber f rows)) fun _ => rfl
  have args : (head.renumber f).args = head.args := rfl
  unfold declaration renumber
  dsimp only
  cases directive with
  | names =>
    have table := Traced.relabel_ofExcept (Event.renumber f) (Table.ofSection_renumber f head rows)
    exact Traced.relabel_bind table fun _ => rfl
  | reset =>
    have reset := Traced.relabel_ofExcept (Event.renumber f) (Reset.ofSection_renumber f head rows)
    exact Traced.relabel_bind reset fun _ => rfl
  | latch =>
    exact Traced.relabel_bind (Traced.relabel_ofExcept _ (inLine_renumber f head _)) fun l =>
      alone (some (.latch l))
  | subckt =>
    rw [args, uses]
    exact Traced.relabel_bind (Traced.relabel_ofExcept _ (inLine_renumber f head _)) fun use =>
      alone (some (.subcircuit use))
  | property => exact alone (some (.property _))
  | other keyword =>
    have told : Traced.emit (.skipped keyword (f head.number)) = (Traced.emit (.skipped keyword
        head.number)).relabel (Event.renumber f) (ReadError.renumber f) id := rfl
    exact Traced.relabel_bind told fun _ => alone none
  | _ => exact alone none

theorem Model.declarations_renumber (models : List Model) (m : Model) :
    (m.renumber f).declarations (models.map (Model.renumber f)) =
      (m.declarations models).relabel (Event.renumber f) (ReadError.renumber f)
        (List.map (Declaration.renumber f)) := by
  unfold declarations
  simp only [renumber, sections_renumber]
  refine Traced.relabel_bind (Traced.relabel_ofExcept _ (noRows_renumber f _)) fun _ => ?_
  refine Traced.relabel_bind (Traced.relabel_mapM (Section.declaration_renumber f models) _) fun ds => ?_
  have kept : (ds.map (Option.map (Declaration.renumber f))).filterMap id =
      (ds.filterMap id).map (Declaration.renumber f) := by
    rw [List.map_filterMap, List.filterMap_map]
    rfl
  rw [kept]
  rfl

theorem ofDeclarations_renumber (ds : List Declaration) :
    Body.ofDeclarations (ds.map (Declaration.renumber f)) = (Body.ofDeclarations ds).renumber f := by
  simp only [Body.ofDeclarations, Body.renumber, List.filterMap_map, List.map_filterMap, Body.mk.injEq]
  refine ⟨?_, ?_, ?_, ?_, ?_⟩ <;>
    · apply List.filterMap_congr
      intro d _
      cases d <;> rfl

theorem Model.definition_renumber (models : List Model) (m : Model) :
    (m.renumber f).definition (models.map (Model.renumber f)) =
      (m.definition models).relabel (Event.renumber f) (ReadError.renumber f) (Definition.renumber f) := by
  unfold definition
  refine Traced.relabel_bind (m.declarations_renumber f models) fun ds => ?_
  rw [ofDeclarations_renumber]
  rfl

/-! ### Circuits -/

theorem resetLatches_renumber (resets : List Reset) (latches : List Latch) :
    resetLatches (resets.map (Reset.renumber f)) latches = resetLatches resets latches := by
  have last (signal : String) :
      lastReset? (resets.map (Reset.renumber f)) signal = lastReset? resets signal := by
    rw [lastReset?, lastReset?, ← List.map_reverse, List.find?_map, Option.map_map]
    rfl
  induction latches with
  | nil => rfl
  | cons l latches ih => rw [resetLatches, resetLatches, ih, last]

theorem cells_renumber (m : Model) (b : Body) : cells (m.renumber f) (b.renumber f) = cells m b := by
  rw [cells, cells, Body.renumber, resetLatches_renumber]
  rfl

theorem resets_renumber_eq_nil (b : Body) : (b.renumber f).resets = [] ↔ b.resets = [] :=
  List.map_eq_nil_iff

theorem Definition.built_renumber (d : Definition) : (d.renumber f).built = d.built := by
  unfold built modelGraph
  simp only [renumber, cells_renumber, resets_renumber_eq_nil]
  rfl

theorem Body.checkResets_renumber (b : Body) :
    (b.renumber f).checkResets = relabel (ReadError.renumber f) id b.checkResets := by
  have found : (b.renumber f).resets.find? (fun r => b.latches.all (·.output ≠ r.latch)) =
      (b.resets.find? fun r => b.latches.all (·.output ≠ r.latch)).map (Reset.renumber f) :=
    List.find?_map
  unfold checkResets
  rw [renumber] at found ⊢
  dsimp only at found ⊢
  rw [found]
  cases b.resets.find? fun r => b.latches.all (·.output ≠ r.latch) <;> rfl

theorem Definition.circuit_renumber (d : Definition) : (d.renumber f).circuit =
    d.circuit.relabel (Event.renumber f) (LoadError.renumber f) id := by
  have latch : modelLatch (d.renumber f).model (d.renumber f).body = modelLatch d.model d.body := by
    unfold modelLatch
    simp only [renumber, cells_renumber, resets_renumber_eq_nil]
  have lowered : (d.renumber f).lower = relabel (LoadError.renumber f) id d.lower := by
    rw [lower_eq, lower_eq, built_renumber, latch]
    refine relabel_bind (h := id) ?_ fun _ => rfl
    rw [renumber, d.body.checkResets_renumber]
    cases d.body.checkResets <;> rfl
  refine Traced.relabel_bind (Traced.relabel_ofExcept _ lowered) ?_
  rintro ⟨circuit, none | id⟩ <;> rfl

/-! ### Texts -/

def Contents.definitions (lines : List LogicalLine) : Load (List Definition) := do
  let lines ← .ofRead .empty (lines.mapM Line.ofLogical)
  .emit (.advanced .empty .preparsed)
  let models ← .ofRead .preparsed (Model.ofLines lines)
  .emit (.advanced .preparsed .interfacesScanned)
  (models.mapM (Model.definition models)).mapError (.rejected .interfacesScanned)

def Contents.ofDefinitions (ds : List Definition) : Load Contents := do
  let circuits ← ds.mapM Definition.circuit
  .emit (.advanced .interfacesScanned .parsed)
  return { circuits, properties := ds.flatMap fun d => d.body.properties }

theorem ofText_eq_definitions (text : String) : Contents.ofText text =
    Contents.definitions (LogicalLine.ofText text) >>= Contents.ofDefinitions := by
  simp only [Contents.definitions, bind_assoc]
  rfl

theorem ofRead_renumber {α β : Type} {h : α → β} {x : Except ReadError α} {x' : Except ReadError β}
    (reached : Stage) (same : x' = relabel (ReadError.renumber f) h x) :
    Load.ofRead reached x' =
      (Load.ofRead reached x).relabel (Event.renumber f) (LoadError.renumber f) h := by
  subst same
  cases x <;> rfl

theorem told_renumber (before after : Stage) : Traced.emit (.advanced before after) =
    (Traced.emit (.advanced before after)).relabel (Event.renumber f) (LoadError.renumber f) id := rfl

theorem Contents.definitions_renumber (lines : List LogicalLine) :
    Contents.definitions (lines.map (LogicalLine.renumber f)) =
      (Contents.definitions lines).relabel (Event.renumber f) (LoadError.renumber f)
        (List.map (Definition.renumber f)) := by
  have tokens := relabel_mapM (ofLogical_renumber f) lines
  refine Traced.relabel_bind (ofRead_renumber f _ tokens) fun lines => ?_
  refine Traced.relabel_bind (told_renumber f _ _) fun _ => ?_
  refine Traced.relabel_bind (ofRead_renumber f _ (Blif.ofLines_renumber f lines)) fun models => ?_
  refine Traced.relabel_bind (told_renumber f _ _) fun _ => ?_
  rw [Traced.relabel_mapM (Model.definition_renumber f models)]
  obtain ⟨events, e | ds⟩ := models.mapM (Model.definition models) <;> rfl

theorem Contents.ofDefinitions_renumber (ds : List Definition) :
    Contents.ofDefinitions (ds.map (Definition.renumber f)) =
      (Contents.ofDefinitions ds).relabel (Event.renumber f) (LoadError.renumber f) id := by
  refine Traced.relabel_bind (Traced.relabel_mapM (Definition.circuit_renumber f) ds) fun circuits => ?_
  refine Traced.relabel_bind (told_renumber f _ _) fun _ => ?_
  rw [List.map_id, List.flatMap_map]
  rfl

variable {f}

/-- A text is read as another one whose logical lines are the same but for their numbers. -/
theorem Contents.ofText_renumber {text text' : String}
    (same : LogicalLine.ofText text' = (LogicalLine.ofText text).map (LogicalLine.renumber f)) :
    Contents.ofText text' =
      (Contents.ofText text).relabel (Event.renumber f) (LoadError.renumber f) id := by
  rw [ofText_eq_definitions, ofText_eq_definitions, same]
  exact Traced.relabel_bind (Contents.definitions_renumber f _) (Contents.ofDefinitions_renumber f)

/-- What is read decides how a load ends, and no error after reading bears a line number. -/
theorem load_outcome_renumber {text text' : String}
    (same : (Contents.ofText text').outcome =
      (Contents.ofText text).outcome.mapError (LoadError.renumber f))
    (file : Option String) (id : DesignId) :
    (load text' file id).outcome = (load text file id).outcome.mapError (LoadError.renumber f) := by
  rw [load_outcome, load_outcome, same]
  cases read : (Contents.ofText text).outcome with
  | error e => rfl
  | ok c =>
    obtain ⟨m, answer, -, -, linked⟩ := link_outcome (c.design_fresh id (file.getD ""))
      (ofText_design_ne_nil read _ _) file c.properties
    have unnumbered : (link (c.design id (file.getD "")) file c.properties).outcome.mapError
        (LoadError.renumber f) = (link (c.design id (file.getD "")) file c.properties).outcome := by
      rw [linked]
      cases ((c.design id (file.getD "")).modules.forM fun m => m.check.outcome) with
      | error e => rfl
      | ok _ => cases answer <;> rfl
    exact unnumbered.symm

end Blif

end Netlist
