import Netlist.Proofs.PositionalScan

/-!
# Open tables

The positional reader takes a body line by line and keeps the position of the table that rows belong
to. Sorted by sections its steps are those of the plain reading of declarations: the table stands
last in its list as long as its rows are read, and a name of the table of names leads to the ports of
the declared model.
-/

namespace Netlist.Blif.Positional

variable {models : List Model} {m : Model} {k : Draft} {i : Nat} {rows : List Line} {head line : Line}

def rejected (e : ReadError) : Halt := .failed (.rejected .interfacesScanned e)

theorem ofRead_rejected (x : Except ReadError α) :
    ofRead .interfacesScanned x = (Traced.ofExcept x).mapError rejected := rfl

def OpenReset.closed (r : Reset) : OpenReset := ⟨r.line, r.latch, some r.value⟩

def Draft.filled (k : Draft) (b : Body) : Draft :=
  { k with
    tables := k.tables ++ b.tables
    latches := k.latches ++ b.latches
    resets := k.resets ++ b.resets.map OpenReset.closed
    subcircuits := k.subcircuits ++ b.subcircuits }

def append (a b : Body) : Body where
  tables := a.tables ++ b.tables
  latches := a.latches ++ b.latches
  resets := a.resets ++ b.resets
  subcircuits := a.subcircuits ++ b.subcircuits
  properties := a.properties ++ b.properties

theorem ofDeclarations_append (as bs : List Declaration) :
    Body.ofDeclarations (as ++ bs) = append (.ofDeclarations as) (.ofDeclarations bs) := by
  simp [Body.ofDeclarations, append]

theorem Draft.filled_filled (k : Draft) (a b : Body) :
    (k.filled a).filled b = k.filled (append a b) := by
  simp [filled, append]

namespace Reader

variable {r : Reader}

def extended (i : Nat) (r : Reader) (b : Body) : Reader :=
  { r with
    models := r.models.modify i (·.filled b)
    properties := r.properties ++ b.properties }

theorem extended_extended (r : Reader) (a b : Body) :
    (r.extended i a).extended i b = r.extended i (append a b) := by
  simp [extended, append, List.modify_modify_eq, Function.comp_def, Draft.filled_filled]

/-- The reader is at the bodies, the draft at `i` is `k`, and positions lead to the right models. -/
structure Ready (models : List Model) (i : Nat) (k : Draft) (r : Reader) : Prop where
  stage : r.stage = .interfacesScanned
  ports : r.models.map (fun k => (k.inputs, k.outputs)) = models.map fun m => (m.inputs, m.outputs)
  indexed : Indexed r.names models
  here : r.models[i]? = some k

theorem Ready.entry (ready : r.Ready models i k) : entry r.models i = pure k := by
  simp [Positional.entry, ready.here]

theorem map_set_of_eq {α β : Type} {l : List α} {f : α → β} {i : Nat} {a b : α} (here : l[i]? = some a)
    (same : f b = f a) : (l.set i b).map f = l.map f := by
  obtain ⟨inside, rfl⟩ := List.getElem?_eq_some_iff.mp here
  rw [List.map_set, same]
  apply List.ext_getElem
  · simp
  · intro j _ _
    by_cases at_i : i = j
    · subst at_i
      simp
    · simp [at_i]

theorem Ready.put (ready : r.Ready models i k) {k' : Draft} (inputs : k'.inputs = k.inputs)
    (outputs : k'.outputs = k.outputs) : (r.put i k').Ready models i k' where
  stage := ready.stage
  ports := (map_set_of_eq ready.here (by rw [inputs, outputs])).trans ready.ports
  indexed := ready.indexed
  here := by
    have inside := (List.getElem?_eq_some_iff.mp ready.here).1
    simp [Reader.put, inside]

theorem put_put (r : Reader) (i : Nat) (k k' : Draft) : (r.put i k).put i k' = r.put i k' := by
  simp [put]

theorem Ready.extended_models (ready : r.Ready models i k) (b : Body) :
    (r.extended i b).models = (r.put i (k.filled b)).models := by
  simp [Reader.put, extended, List.modify_eq_set_getElem?, ready.here]

/-- Replacing the draft by one with more declarations extends the reader. -/
theorem Ready.put_eq (ready : r.Ready models i k) {b : Body} {k' : Draft} (filled : k' = k.filled b)
    (plain : b.properties = []) : r.put i k' = r.extended i b := by
  subst filled
  have same := ready.extended_models b
  simp only [Reader.put, extended, plain, List.append_nil] at same ⊢
  rw [same]

theorem Ready.extended (ready : r.Ready models i k) (b : Body) :
    (r.extended i b).Ready models i (k.filled b) := by
  have put : (r.put i (k.filled b)).Ready models i (k.filled b) := ready.put rfl rfl
  have same := ready.extended_models b
  exact ⟨ready.stage, by rw [same]; exact put.ports, ready.indexed, by rw [same]; exact put.here⟩

def readSection (i : Nat) (r : Reader) (s : Section) : Run Reader := do
  let (r, table) ← r.readDirective i s.head s.directive
  let r ← s.rows.foldlM (fun r row => r.readRow i table row) r
  r.closeTable i table
  return r

/-- Reading line by line is reading by sections. -/
theorem readLines_eq (i : Nat) (lines : List Line) (r : Reader) (table : Option OpenTable) :
    readLines i lines r table = (do
      let r ← (sections lines).1.foldlM (fun r row => r.readRow i table row) r
      r.closeTable i table
      (sections lines).2.foldlM (readSection i) r) := by
  induction lines generalizing r table with
  | nil => simp [readLines, sections]
  | cons line lines ih =>
    cases directive : line.directive with
    | none => simp [readLines, sections, directive, ih]
    | some d => simp [readLines, sections, directive, ih, readSection]

/-- Rows that belong to no table are refused. -/
theorem readRows_none (i : Nat) (rows : List Line) (r : Reader) :
    rows.foldlM (fun r row => r.readRow i none row) r =
      ofRead r.stage (noRows rows) >>= fun _ => pure r := by
  cases rows with
  | nil => rfl
  | cons row rows => rfl

theorem Ready.closeTable_none (ready : r.Ready models i k) : r.closeTable i none = pure () := by
  simp [closeTable, ready.entry]

theorem Ready.closeTable_names (ready : r.Ready models i k) (t : Nat) :
    r.closeTable i (some (.names t)) = pure () := by
  simp [closeTable, ready.entry]

/-- A row of the last table goes to its end. -/
theorem Ready.readRow_names (ready : r.Ready models i k) (t : Table) (row : Line) :
    (r.put i { k with tables := k.tables ++ [t] }).readRow i (some (.names k.tables.length)) row =
      ofRead .interfacesScanned (inLine row (coverRow t.inputs t.output row.args)) >>= fun text =>
        pure (r.put i { k with tables := k.tables ++ [{ t with rows := t.rows ++ [text] }] }) := by
  have ready' : (r.put i { k with tables := k.tables ++ [t] }).Ready models i _ := ready.put rfl rfl
  simp only [readRow, ready'.entry, pure_bind, entry_append, set_append, put_put, ready'.stage]

theorem Ready.readRows_names (ready : r.Ready models i k) (t : Table) (rows : List Line) :
    rows.foldlM (fun r row => r.readRow i (some (.names k.tables.length)) row)
        (r.put i { k with tables := k.tables ++ [t] }) =
      ofRead .interfacesScanned
          (rows.mapM fun row => inLine row (coverRow t.inputs t.output row.args)) >>= fun new =>
        pure (r.put i { k with tables := k.tables ++ [{ t with rows := t.rows ++ new }] }) := by
  induction rows generalizing t with
  | nil =>
    have none : ([] : List Line).mapM (fun row => inLine row (coverRow t.inputs t.output row.args)) =
        .ok [] := rfl
    rw [none, ofRead_ok, pure_bind, List.append_nil]
    rfl
  | cons row rows ih =>
    rw [List.foldlM_cons, ready.readRow_names, List.mapM_cons, ofRead_bind, bind_assoc, bind_assoc]
    apply bind_congr
    intro text
    rw [pure_bind, ih, ofRead_bind, bind_assoc]
    apply bind_congr
    intro new
    have last : ofRead .interfacesScanned (pure (text :: new)) = pure (text :: new) := rfl
    rw [last, pure_bind, List.append_assoc, List.singleton_append]

/-- A reset without value takes a row for its value. -/
theorem Ready.readRow_reset (ready : r.Ready models i k) (number : Nat) (latch : String) (row : Line) :
    (r.put i { k with resets := k.resets ++ [⟨number, latch, none⟩] }).readRow i
        (some (.reset k.resets.length)) row =
      ofRead .interfacesScanned (inLine row (resetValue latch row.args)) >>= fun value =>
        pure (r.put i { k with resets := k.resets ++ [⟨number, latch, some value⟩] }) := by
  have ready' : (r.put i { k with resets := k.resets ++ [⟨number, latch, none⟩] }).Ready models i _ :=
    ready.put rfl rfl
  simp only [readRow, resetRow, ready'.entry, pure_bind, entry_append, set_append, put_put,
    ready'.stage, Option.isSome_none, Bool.false_eq_true, if_false]

/-- The row of a reset becomes its value, and no second row is taken. -/
theorem Ready.readRows_reset (ready : r.Ready models i k) {head : Line} {latch : String}
    (names : head.args = [latch]) (rows : List Line) :
    (rows.foldlM (fun r row => r.readRow i (some (.reset k.resets.length)) row)
        (r.put i { k with resets := k.resets ++ [⟨head.number, latch, none⟩] }) >>= fun r => do
      r.closeTable i (some (.reset k.resets.length))
      return r) =
      ofRead .interfacesScanned (Reset.ofSection head rows) >>= fun reset =>
        pure (r.put i { k with resets := k.resets ++ [.closed reset] }) := by
  have opened (value : Option LatchInit) :
      (r.put i { k with resets := k.resets ++ [⟨head.number, latch, value⟩] }).Ready models i
        { k with resets := k.resets ++ [⟨head.number, latch, value⟩] } := ready.put rfl rfl
  cases rows with
  | nil =>
    have unread : Reset.ofSection head [] = .error (.inLine head.number (.resetWithoutRow latch)) := by
      simp only [Reset.ofSection, names]
      rfl
    simp only [List.foldlM_nil, pure_bind, closeTable, (opened none).entry, entry_append,
      Option.isNone_none, if_true, refuse, (opened none).stage, unread]
    rfl
  | cons row more =>
    rw [List.foldlM_cons, ready.readRow_reset]
    cases more with
    | nil =>
      have read : Reset.ofSection head [row] = inLine row (resetValue latch row.args) >>= fun value =>
          .ok { line := head.number, latch, value } := by
        simp only [Reset.ofSection, names]
        rfl
      rw [read, ofRead_bind, bind_assoc, bind_assoc, bind_assoc]
      apply bind_congr
      intro value
      simp only [List.foldlM_nil, pure_bind, closeTable, (opened (some value)).entry, entry_append,
        Option.isNone_some, Bool.false_eq_true, if_false]
      rfl
    | cons second rest =>
      have read : Reset.ofSection head (row :: second :: rest) =
          inLine row (resetValue latch row.args) >>= fun _ =>
            .error (.inLine second.number (.resetSecondRow latch)) := by
        simp only [Reset.ofSection, names]
        rfl
      rw [read, ofRead_bind, bind_assoc, bind_assoc, bind_assoc]
      apply bind_congr
      intro value
      have refused : (r.put i { k with
          resets := k.resets ++ [⟨head.number, latch, some value⟩] }).readRow i
          (some (.reset k.resets.length)) second =
          ofRead .interfacesScanned (.error (.inLine second.number (.resetSecondRow latch))) := by
        simp only [readRow, resetRow, (opened (some value)).entry, pure_bind, entry_append,
          Option.isSome_some, if_true, refuse, (opened (some value)).stage]
        rfl
      rw [pure_bind, List.foldlM_cons, refused]
      rfl

/-- Bindings look at the ports of their model only. -/
theorem bind_of_ports {a b : Model} (inputs : a.inputs = b.inputs) (outputs : a.outputs = b.outputs)
    (s : Subcircuit) (args : List String) : Subcircuit.bind a s args = Subcircuit.bind b s args := by
  have directions (port : String) : a.direction? port = b.direction? port := by
    simp only [Model.direction?, inputs, outputs]
  induction args generalizing s with
  | nil => rfl
  | cons arg args ih =>
    unfold Subcircuit.bind
    apply bind_congr
    intro binding
    rw [directions]
    cases b.direction? binding.formal with
    | none => rfl
    | some direction =>
      cases direction with
      | input => exact ih _
      | output => exact ih _

/-- The position in the table of names leads to a draft with the ports of the model meant. -/
theorem Ready.target (ready : r.Ready models i k) {name : String} {t : Nat}
    (known : r.names.lookup name = some t) :
    ∃ draft target, Positional.entry r.models t = pure draft ∧ findModel? models name = some target ∧
      draft.inputs = target.inputs ∧ draft.outputs = target.outputs := by
  have first := ready.indexed name
  rw [known, eq_comm, List.findIdx?_eq_some_iff_getElem] at first
  obtain ⟨inside, -, -⟩ := first
  have found := ready.indexed.findModel? name
  have here := congrArg (·[t]?) ready.ports
  simp only [List.getElem?_map, List.getElem?_eq_getElem inside, Option.map_some,
    Option.map_eq_some_iff, Prod.mk.injEq] at here
  obtain ⟨draft, present, inputs, outputs⟩ := here
  refine ⟨draft, models[t], ?_, ?_, inputs, outputs⟩
  · simp [Positional.entry, present]
  · rw [found, known, Option.bind_some, List.getElem?_eq_getElem inside]

theorem Ready.subcircuit_eq (ready : r.Ready models i k) (line : Line) :
    r.subcircuit line =
      ofRead .interfacesScanned (inLine line (Subcircuit.ofArgs models line.args)) := by
  unfold subcircuit Subcircuit.ofArgs
  cases line.args with
  | nil =>
    simp only [refuse, ready.stage]
    rfl
  | cons model bindings =>
    cases known : r.names.lookup model with
    | none =>
      have absent := ready.indexed.findModel? model
      rw [known, Option.bind_none] at absent
      simp only [known, absent, refuse, ready.stage]
      rfl
    | some t =>
      obtain ⟨draft, target, at_t, found, inputs, outputs⟩ := ready.target known
      have same := bind_of_ports (a := Reader.ports draft) inputs outputs { model := model } bindings
      simp only [known, found, at_t, pure_bind, ready.stage, same]

/-- Behind a directive that opens no table no row is taken. -/
theorem Ready.readRows_alone (ready : r.Ready models i k) (rows : List Line) :
    (rows.foldlM (fun r row => r.readRow i none row) r >>= fun r => do
      r.closeTable i none
      return r) = ofRead .interfacesScanned (noRows rows) >>= fun _ => pure r := by
  rw [readRows_none, ready.stage, bind_assoc]
  apply bind_congr
  intro _
  rw [pure_bind, ready.closeTable_none, pure_bind]

theorem Ready.readSection_names (ready : r.Ready models i k) (head : Line) (rows : List Line) :
    readSection i r ⟨head, .names, rows⟩ =
      ofRead .interfacesScanned (Table.ofSection head rows) >>= fun t =>
        pure (r.extended i (.ofDeclarations [.table t])) := by
  have closed (t : Table) : r.put i { k with tables := k.tables ++ [t] } =
      r.extended i (.ofDeclarations [.table t]) :=
    ready.put_eq (by simp [Draft.filled, Body.ofDeclarations]) rfl
  simp only [readSection, readDirective, ready.entry, pure_bind, ready.stage, bind_assoc]
  cases last : head.args.getLast? with
  | none =>
    have refused (rows : List Line) :
        Table.ofSection head rows = .error (.inLine head.number .namesArguments) := by
      simp [Table.ofSection, last]
    rw [refused, refused]
    rfl
  | some output =>
    have read (rows : List Line) : Table.ofSection head rows =
        (rows.mapM fun row => inLine row (coverRow head.args.dropLast output row.args)) >>=
          fun rows => .ok ⟨head.args.dropLast, output, rows⟩ := by
      simp only [Table.ofSection, last]
      rfl
    have opened : Table.ofSection head [] = .ok ⟨head.args.dropLast, output, []⟩ := by
      rw [read]
      rfl
    rw [opened, ofRead_ok, pure_bind, read, ofRead_bind, bind_assoc,
      ready.readRows_names ⟨head.args.dropLast, output, []⟩ rows, bind_assoc]
    apply bind_congr
    intro rows
    rw [pure_bind, closed, (ready.extended _).closeTable_names, ofRead_ok, pure_bind, pure_bind]
    rfl

theorem Ready.readSection_reset (ready : r.Ready models i k) (head : Line) (rows : List Line) :
    readSection i r ⟨head, .reset, rows⟩ =
      ofRead .interfacesScanned (Reset.ofSection head rows) >>= fun reset =>
        pure (r.extended i (.ofDeclarations [.reset reset])) := by
  have closed (reset : Reset) : r.put i { k with resets := k.resets ++ [.closed reset] } =
      r.extended i (.ofDeclarations [.reset reset]) :=
    ready.put_eq (by simp [Draft.filled, Body.ofDeclarations]) rfl
  simp only [readSection, readDirective, ready.entry, pure_bind, bind_assoc]
  match names : head.args with
  | [latch] =>
    simp only [openReset, names, pure_bind]
    rw [ready.readRows_reset names rows]
    exact bind_congr fun reset => congrArg pure (closed reset)
  | [] =>
    simp only [openReset, Reset.ofSection, names, refuse, ready.stage]
    rfl
  | first :: second :: more =>
    simp only [openReset, Reset.ofSection, names, refuse, ready.stage]
    rfl

/-- Properties go to the reader and leave the drafts alone. -/
theorem extended_properties (r : Reader) (i : Nat) (properties : List String) :
    r.extended i { properties := properties } =
      { r with properties := r.properties ++ properties } := by
  have unchanged : (fun k : Draft => k.filled { properties := properties }) = id := by
    funext k
    simp [Draft.filled]
  rw [extended, unchanged, List.modify_id]

theorem extended_nil (r : Reader) (i : Nat) : r.extended i (.ofDeclarations []) = r := by
  have same := r.extended_properties i []
  rw [List.append_nil] at same
  exact same

/-- A directive without rows that declares what it reads. -/
theorem Ready.readSection_alone (ready : r.Ready models i k) {s : Section} {α : Type}
    {x : Except ReadError α} {f : α → Declaration}
    (directive : r.readDirective i s.head s.directive = ofRead .interfacesScanned x >>= fun a =>
      pure (r.extended i (.ofDeclarations [f a]), none))
    (read : s.declaration models = Traced.ofExcept x >>= fun a =>
      Traced.ofExcept (noRows s.rows) >>= fun _ => pure (some (f a))) :
    readSection i r s = (s.declaration models).mapError rejected >>= fun declared =>
      pure (r.extended i (.ofDeclarations declared.toList)) := by
  rw [readSection, directive, read]
  simp only [Traced.mapError_bind, Traced.mapError_pure, bind_assoc, pure_bind, ← ofRead_rejected]
  apply bind_congr
  intro a
  exact (ready.extended _).readRows_alone s.rows

/-- A directive without rows that declares nothing. -/
theorem Ready.readSection_idle (ready : r.Ready models i k) {s : Section}
    (directive : r.readDirective i s.head s.directive = pure (r, none))
    (read : s.declaration models = Traced.ofExcept (noRows s.rows) >>= fun _ => pure none) :
    readSection i r s = (s.declaration models).mapError rejected >>= fun declared =>
      pure (r.extended i (.ofDeclarations declared.toList)) := by
  rw [readSection, directive, read]
  simp only [Traced.mapError_bind, Traced.mapError_pure, bind_assoc, pure_bind, ← ofRead_rejected,
    Option.toList_none, extended_nil]
  exact ready.readRows_alone s.rows

/-- What a section declares is added to the draft. -/
theorem Ready.readSection_eq (ready : r.Ready models i k) (s : Section) :
    readSection i r s = (s.declaration models).mapError rejected >>= fun declared =>
      pure (r.extended i (.ofDeclarations declared.toList)) := by
  obtain ⟨head, directive, rows⟩ := s
  cases directive with
  | names =>
    rw [ready.readSection_names]
    simp only [Section.declaration, Traced.mapError_bind, ← ofRead_rejected, bind_assoc]
    rfl
  | reset =>
    rw [ready.readSection_reset]
    simp only [Section.declaration, Traced.mapError_bind, ← ofRead_rejected, bind_assoc]
    rfl
  | latch =>
    refine ready.readSection_alone (f := .latch) (x := inLine head (Latch.ofArgs head.args)) ?_ rfl
    have closed (l : Latch) : r.put i { k with latches := k.latches ++ [l] } =
        r.extended i (.ofDeclarations [.latch l]) :=
      ready.put_eq (by simp [Draft.filled, Body.ofDeclarations]) rfl
    simp only [readDirective, ready.entry, pure_bind, ready.stage, closed]
  | subckt =>
    refine ready.readSection_alone (f := .subcircuit)
      (x := inLine head (Subcircuit.ofArgs models head.args)) ?_ rfl
    have closed (s : Subcircuit) : r.put i { k with subcircuits := k.subcircuits ++ [s] } =
        r.extended i (.ofDeclarations [.subcircuit s]) :=
      ready.put_eq (by simp [Draft.filled, Body.ofDeclarations]) rfl
    simp only [readDirective, ready.entry, pure_bind, ready.subcircuit_eq, closed]
  | property =>
    refine ready.readSection_alone (f := .property) (x := .ok (" ".intercalate head.args)) ?_ rfl
    have same := r.extended_properties i [" ".intercalate head.args]
    simp only [readDirective, ready.entry, pure_bind, ofRead_ok]
    rw [← same]
    rfl
  | other keyword =>
    simp only [readSection, readDirective, Section.declaration, ready.entry, pure_bind, bind_assoc,
      Traced.mapError_bind, Traced.mapError_emit, Traced.mapError_pure, ← ofRead_rejected,
      Option.toList_none, extended_nil]
    apply bind_congr
    intro _
    exact ready.readRows_alone rows
  | _ => exact ready.readSection_idle (by simp [readDirective, ready.entry]) rfl

theorem Ready.readSections_eq (ready : r.Ready models i k) (ss : List Section) :
    ss.foldlM (readSection i) r =
      (ss.mapM (Section.declaration models)).mapError rejected >>= fun ds =>
        pure (r.extended i (.ofDeclarations (ds.filterMap id))) := by
  induction ss generalizing r k with
  | nil =>
    simp only [List.foldlM_nil, List.mapM_nil, Traced.mapError_pure, pure_bind, List.filterMap_nil,
      extended_nil]
  | cons s ss ih =>
    rw [List.foldlM_cons, ready.readSection_eq, List.mapM_cons]
    simp only [Traced.mapError_bind, bind_assoc, pure_bind, Traced.mapError_pure]
    apply bind_congr
    intro declared
    rw [ih (ready.extended _)]
    apply bind_congr
    intro ds
    have joined : (declared :: ds).filterMap id = declared.toList ++ ds.filterMap id := by
      cases declared <;> rfl
    rw [extended_extended, ← ofDeclarations_append, joined]

/-- The range of a draft is in bounds and holds the body of its model. -/
theorem slice_eq {lines : List Line} (ended : k.Ended lines m) :
    slice lines k.start k.stop = pure m.body := by
  have bounds : k.start ≤ k.stop ∧ k.stop ≤ lines.length := ⟨ended.ordered, ended.inside⟩
  rw [slice, if_pos bounds, ended.body]

/-- A body is read as its declarations. -/
theorem Ready.readBody_eq (ready : r.Ready models i k) (ended : k.Ended r.lines m) :
    r.readBody i = (m.definition models).mapError rejected >>= fun d =>
      pure (r.extended i d.body) := by
  rw [readBody, ready.entry, pure_bind, slice_eq ended, pure_bind, readLines_eq, readRows_none,
    ready.stage, bind_assoc, Model.definition, Model.declarations]
  simp only [Traced.mapError_bind, bind_assoc, pure_bind, Traced.mapError_pure, ← ofRead_rejected]
  apply bind_congr
  intro _
  rw [ready.closeTable_none, pure_bind, ready.readSections_eq]

end Reader

end Netlist.Blif.Positional
