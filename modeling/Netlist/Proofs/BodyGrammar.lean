import Netlist.Proofs.Arguments
import Netlist.Proofs.Ports

/-!
# The grammar of bodies

`Section.Declares` says, without reading anything, which sections a body may have and what each of
them declares. A body is read successfully exactly if it consists of such sections, and then its lists
hold their declarations, each list those of one kind, in order.
-/

namespace Netlist.Blif

/-- The directive line and its rows are well formed, and declare this. -/
inductive Section.Declares (models : List Model) : Section → Option Declaration → Prop where
  | table {head : Line} {rows : List Line} {inputs : List String} {output : String}
      (names : head.args = inputs ++ [output]) (fit : ∀ row ∈ rows, CoverRow inputs.length row.args) :
      Declares models ⟨head, .names, rows⟩
        (some (.table ⟨inputs, output, rows.map fun row => " ".intercalate row.args⟩))
  | reset {head row : Line} {latch : String} {value : LatchInit} (names : head.args = [latch])
      (set : ResetRow row.args value) :
      Declares models ⟨head, .reset, [row]⟩ (some (.reset ⟨head.number, latch, value⟩))
  | latch {head : Line} {l : Latch} (args : LatchArgs head.args l) :
      Declares models ⟨head, .latch, []⟩ (some (.latch l))
  | subcircuit {head : Line} {model : String} {args : List String} {target : Model}
      {bs : List Binding} (names : head.args = model :: args) (member : target ∈ models)
      (declared : target.declared = true) (named : target.name = model)
      (bound : List.Forall₂ Binding.Splits bs args)
      (ports : ∀ b ∈ bs, b.formal ∈ target.inputs ∨ b.formal ∈ target.outputs) :
      Declares models ⟨head, .subckt, []⟩ (some (.subcircuit (.ofBindings model target bs)))
  | property {head : Line} :
      Declares models ⟨head, .property, []⟩ (some (.property (" ".intercalate head.args)))
  | idle {head : Line} {directive : Directive}
      (other : directive ∉ [.names, .reset, .latch, .subckt, .property]) :
      Declares models ⟨head, directive, []⟩ none

def Section.lines (s : Section) : List Line := s.head :: s.rows

structure Section.Formed (s : Section) : Prop where
  head : s.head.directive = some s.directive
  rows : ∀ row ∈ s.rows, row.directive = none

/-- The lines are these sections, one after the other, and the sections declare this. -/
structure Declares (models : List Model) (body : List Line) (ss : List Section)
    (declared : List (Option Declaration)) : Prop where
  whole : body = ss.flatMap Section.lines
  formed : ∀ s ∈ ss, s.Formed
  declares : List.Forall₂ (Section.Declares models) ss declared

/-- Each list holds the declarations of its kind, and no others, in their order. -/
structure Body.Sorts (b : Body) (ds : List Declaration) : Prop where
  tables : b.tables.map .table = ds.filter (· matches .table _)
  latches : b.latches.map .latch = ds.filter (· matches .latch _)
  resets : b.resets.map .reset = ds.filter (· matches .reset _)
  subcircuits : b.subcircuits.map .subcircuit = ds.filter (· matches .subcircuit _)
  properties : b.properties.map .property = ds.filter (· matches .property _)

variable {models : List Model} {m : Model} {ss : List Section} {s : Section}
  {lines rows : List Line} {head : Line}

/-! ### Sections -/

theorem noRows_eq_ok {u : Unit} : noRows rows = .ok u ↔ rows = [] := by
  cases rows <;> simp [noRows]

theorem Table.ofSection_eq_ok {t : Table} : ofSection head rows = .ok t ↔
    ∃ inputs output, head.args = inputs ++ [output] ∧
      (∀ row ∈ rows, CoverRow inputs.length row.args) ∧
      t = ⟨inputs, output, rows.map fun row => " ".intercalate row.args⟩ := by
  have read (inputs : List String) (output : String) (texts : List String) :
      (rows.mapM fun row => inLine row (coverRow inputs output row.args)) = .ok texts ↔
        (∀ row ∈ rows, CoverRow inputs.length row.args) ∧
          texts = rows.map fun row => " ".intercalate row.args := by
    rw [Outcome.mapM_eq_ok]
    simp only [inLine_eq_ok, coverRow_eq_ok]
    constructor
    · intro each
      have same := List.forall₂_map_left_iff.mpr (each.imp fun _ _ both => both.2.symm)
      rw [List.forall₂_eq_eq_eq] at same
      refine ⟨fun row member => ?_, same.symm⟩
      obtain ⟨text, -, fits, -⟩ := each.exists_mem_left member
      exact fits
    · rintro ⟨fits, rfl⟩
      rw [List.forall₂_map_right_iff, List.forall₂_same]
      exact fun row member => ⟨fits row member, rfl⟩
  unfold ofSection
  split
  · next none =>
    have empty := List.getLast?_eq_none_iff.mp none
    simp [empty]
  · next output last =>
    have split : head.args = head.args.dropLast ++ [output] :=
      (List.dropLast_append_getLast? output last).symm
    constructor
    · intro built
      obtain ⟨texts, rows, whole⟩ := Outcome.bind_eq_ok.mp built
      obtain ⟨fits, rfl⟩ := (read _ _ _).mp rows
      obtain rfl := Except.ok.inj whole
      exact ⟨_, output, split, fits, rfl⟩
    · rintro ⟨inputs, output', names, fits, rfl⟩
      obtain ⟨same, rfl⟩ : head.args.dropLast = inputs ∧ output = output' := by
        rw [names] at last ⊢
        simpa using last.symm
      subst same
      exact Outcome.bind_eq_ok.mpr ⟨_, (read _ _ _).mpr ⟨fits, rfl⟩, rfl⟩

theorem Reset.ofSection_eq_ok {r : Reset} : ofSection head rows = .ok r ↔
    ∃ latch row value, head.args = [latch] ∧ rows = [row] ∧ ResetRow row.args value ∧
      r = ⟨head.number, latch, value⟩ := by
  unfold ofSection
  split
  · next latch names =>
    cases rows with
    | nil => simp [throw, throwThe, MonadExceptOf.throw]
    | cons row more =>
      constructor
      · intro built
        obtain ⟨value, set, rest⟩ := Outcome.bind_eq_ok.mp built
        dsimp only at rest
        split at rest
        · cases rest
        next single =>
        obtain rfl := Except.ok.inj rest
        have alone : more = [] := by
          cases more with
          | nil => rfl
          | cons second others => exact (single second others rfl).elim
        exact ⟨latch, row, value, names, by rw [alone], resetValue_eq_ok.mp (inLine_eq_ok.mp set), rfl⟩
      · rintro ⟨latch', row', value, names', single, set, rfl⟩
        obtain ⟨rfl, rfl⟩ := List.cons.inj single
        obtain rfl : latch = latch' := by simpa [names] using names'
        exact Outcome.bind_eq_ok.mpr ⟨value, inLine_eq_ok.mpr (resetValue_eq_ok.mpr set), rfl⟩
  · next other =>
    constructor
    · intro impossible
      cases impossible
    · rintro ⟨latch, row, value, names, -⟩
      exact (other latch names).elim

/-- What a section declares when it is read is what the grammar says. -/
theorem Section.declaration_eq_ok (named : Scan.Named models) {declared : Option Declaration} :
    (s.declaration models).outcome = .ok declared ↔ s.Declares models declared := by
  obtain ⟨head, directive, rows⟩ := s
  constructor
  · intro read
    cases directive with
    | names =>
      simp only [declaration, Traced.outcome_bind, Outcome.bind_eq_ok, Traced.outcome_ofExcept] at read
      obtain ⟨t, built, whole⟩ := read
      obtain rfl := Except.ok.inj whole
      obtain ⟨inputs, output, names, fits, rfl⟩ := Table.ofSection_eq_ok.mp built
      exact .table names fits
    | reset =>
      simp only [declaration, Traced.outcome_bind, Outcome.bind_eq_ok, Traced.outcome_ofExcept] at read
      obtain ⟨r, built, whole⟩ := read
      obtain rfl := Except.ok.inj whole
      obtain ⟨latch, row, value, names, rfl, set, rfl⟩ := Reset.ofSection_eq_ok.mp built
      exact .reset names set
    | latch =>
      simp only [declaration, Traced.outcome_bind, Outcome.bind_eq_ok, Traced.outcome_ofExcept,
        inLine_eq_ok, Latch.ofArgs_eq_ok, noRows_eq_ok] at read
      obtain ⟨l, args, _, rfl, whole⟩ := read
      obtain rfl := Except.ok.inj whole
      exact .latch args
    | subckt =>
      simp only [declaration, Traced.outcome_bind, Outcome.bind_eq_ok, Traced.outcome_ofExcept,
        inLine_eq_ok, Subcircuit.ofArgs_eq_ok named, noRows_eq_ok] at read
      obtain ⟨_, ⟨model, rest, target, bs, names, member, declared, name, bound, ports, rfl⟩, _, rfl,
        whole⟩ := read
      obtain rfl := Except.ok.inj whole
      exact .subcircuit names member declared name bound ports
    | property =>
      simp only [declaration, Traced.outcome_bind, Outcome.bind_eq_ok, Traced.outcome_ofExcept,
        noRows_eq_ok] at read
      obtain ⟨_, rfl, whole⟩ := read
      obtain rfl := Except.ok.inj whole
      exact .property
    | other keyword =>
      simp only [declaration, Traced.outcome_bind, Outcome.bind_eq_ok, Traced.outcome_ofExcept,
        Traced.outcome_emit, noRows_eq_ok] at read
      obtain ⟨_, -, _, rfl, whole⟩ := read
      obtain rfl := Except.ok.inj whole
      exact .idle (by simp)
    | _ =>
      simp only [declaration, Traced.outcome_bind, Outcome.bind_eq_ok, Traced.outcome_ofExcept,
        noRows_eq_ok] at read
      obtain ⟨_, rfl, whole⟩ := read
      obtain rfl := Except.ok.inj whole
      exact .idle (by simp)
  · intro grammar
    cases grammar with
    | @table _ _ inputs output names fits =>
      have built := Table.ofSection_eq_ok.mpr ⟨inputs, output, names, fits, rfl⟩
      simp only [declaration, Traced.outcome_bind, Outcome.bind_eq_ok, Traced.outcome_ofExcept]
      exact ⟨_, built, rfl⟩
    | @reset _ row latch value names set =>
      have built := Reset.ofSection_eq_ok.mpr ⟨latch, row, value, names, rfl, set, rfl⟩
      simp only [declaration, Traced.outcome_bind, Outcome.bind_eq_ok, Traced.outcome_ofExcept]
      exact ⟨_, built, rfl⟩
    | latch args =>
      have built := Latch.ofArgs_eq_ok.mpr args
      simp only [declaration, Traced.outcome_bind, Outcome.bind_eq_ok, Traced.outcome_ofExcept]
      exact ⟨_, inLine_eq_ok.mpr built, (), rfl, rfl⟩
    | subcircuit names member declared name bound ports =>
      have built := (Subcircuit.ofArgs_eq_ok named).mpr
        ⟨_, _, _, _, names, member, declared, name, bound, ports, rfl⟩
      simp only [declaration, Traced.outcome_bind, Outcome.bind_eq_ok, Traced.outcome_ofExcept]
      exact ⟨_, inLine_eq_ok.mpr built, (), rfl, rfl⟩
    | property => rfl
    | idle other =>
      cases directive with
      | names | reset | latch | subckt | property => simp at other
      | _ => rfl

/-! ### Lists -/

theorem Body.ofDeclarations_sorts (ds : List Declaration) : (ofDeclarations ds).Sorts ds := by
  constructor
  all_goals
    simp only [ofDeclarations]
    rw [List.map_filterMap, ← List.filterMap_eq_filter]
    congr 1
    funext d
    cases d <;> rfl

/-- The declarations leave no choice. -/
theorem Body.Sorts.unique {b b' : Body} {ds : List Declaration} (sorts : b.Sorts ds) (sorts' : b'.Sorts ds) :
    b = b' := by
  have tables := sorts.tables.trans sorts'.tables.symm
  have latches := sorts.latches.trans sorts'.latches.symm
  have resets := sorts.resets.trans sorts'.resets.symm
  have subcircuits := sorts.subcircuits.trans sorts'.subcircuits.symm
  have properties := sorts.properties.trans sorts'.properties.symm
  rw [List.map_inj_right fun _ _ => by simp] at tables latches resets subcircuits properties
  obtain ⟨_, _, _, _, _⟩ := b
  simp_all

theorem Body.sorts_iff {b : Body} {ds : List Declaration} : b.Sorts ds ↔ b = .ofDeclarations ds := by
  constructor
  · exact fun sorts => sorts.unique (ofDeclarations_sorts ds)
  · rintro rfl
    exact ofDeclarations_sorts ds

/-! ### Bodies -/

theorem sections_divide (lines : List Line) :
    lines = (sections lines).1 ++ (sections lines).2.flatMap Section.lines ∧
      (∀ row ∈ (sections lines).1, row.directive = none) ∧ ∀ s ∈ (sections lines).2, s.Formed := by
  induction lines with
  | nil => simp [sections]
  | cons line lines ih =>
    obtain ⟨whole, rows, formed⟩ := ih
    rw [sections]
    cases directive : line.directive with
    | none =>
      refine ⟨?_, List.forall_mem_cons.mpr ⟨directive, rows⟩, formed⟩
      rw [List.cons_append, ← whole]
    | some d =>
      have first : Section.Formed ⟨line, d, (sections lines).1⟩ := ⟨directive, rows⟩
      refine ⟨?_, by simp, List.forall_mem_cons.mpr ⟨first, formed⟩⟩
      rw [List.nil_append, List.flatMap_cons, Section.lines, List.cons_append, ← whole]

theorem sections_rows {ss : List Section} (rest : sections lines = ([], ss))
    (plain : ∀ row ∈ rows, row.directive = none) : sections (rows ++ lines) = (rows, ss) := by
  induction rows with
  | nil => exact rest
  | cons row rows ih =>
    obtain ⟨here, later⟩ := List.forall_mem_cons.mp plain
    rw [List.cons_append, sections, ih later, here]

/-- A list of lines is a sequence of sections in one way at most. -/
theorem sections_flatMap (formed : ∀ s ∈ ss, s.Formed) :
    sections (ss.flatMap Section.lines) = ([], ss) := by
  induction ss with
  | nil => rfl
  | cons s ss ih =>
    obtain ⟨here, later⟩ := List.forall_mem_cons.mp formed
    rw [List.flatMap_cons, Section.lines, List.cons_append, sections, sections_rows (ih later) here.rows,
      here.head]

/-- The declarations of a body are those of its sections, in order. -/
theorem declarations_eq_ok (named : Scan.Named models) {ds : List Declaration} :
    (m.declarations models).outcome = .ok ds ↔
      ∃ ss declared, Declares models m.body ss declared ∧ ds = declared.filterMap id := by
  simp only [Model.declarations, Traced.outcome_bind, Outcome.bind_eq_ok, Traced.outcome_ofExcept,
    noRows_eq_ok, Traced.outcome_mapM, Outcome.mapM_eq_ok, Section.declaration_eq_ok named,
    Traced.outcome_pure, Except.ok.injEq]
  constructor
  · rintro ⟨_, none, declared, declares, rfl⟩
    obtain ⟨whole, -, formed⟩ := sections_divide m.body
    rw [none, List.nil_append] at whole
    exact ⟨_, declared, ⟨whole, formed, declares⟩, rfl⟩
  · rintro ⟨ss, declared, ⟨whole, formed, declares⟩, rfl⟩
    rw [whole, sections_flatMap formed]
    exact ⟨(), rfl, declared, declares, rfl⟩

/-- Lines declare one thing at most. -/
theorem Declares.unique (named : Scan.Named models) {ss' : List Section}
    {declared declared' : List (Option Declaration)} (first : Declares models lines ss declared)
    (second : Declares models lines ss' declared') : ss = ss' ∧ declared = declared' := by
  have found := congrArg sections (first.whole.symm.trans second.whole)
  rw [sections_flatMap first.formed, sections_flatMap second.formed] at found
  obtain rfl : ss = ss' := (Prod.mk.inj found).2
  have outcome {all : List (Option Declaration)}
      (declares : List.Forall₂ (Section.Declares models) ss all) :
      (ss.mapM fun s => (s.declaration models).outcome) = .ok all :=
    Outcome.mapM_eq_ok.mpr (declares.imp fun _ _ => (Section.declaration_eq_ok named).mpr)
  exact ⟨rfl, Except.ok.inj ((outcome first.declares).symm.trans (outcome second.declares))⟩

/-- The models that a name can stand for are those that a line of the text opens with it. -/
theorem exists_declared_iff (scanned : Model.ofLines lines = .ok models) {name : String} :
    (∃ target ∈ models, target.declared = true ∧ target.name = name) ↔
      ∃ line ∈ lines, line.directive = some .model ∧ line.args = [name] := by
  obtain ⟨blocks, ⟨-, valid, -, rfl⟩, rfl⟩ := ofLines_eq_ok.mp scanned
  have names : (∃ target ∈ blocks.flatMap Block.models, target.declared = true ∧ target.name = name) ↔
      name ∈ blocks.map Block.name := by
    rw [← declaredNames_blocks]
    simp [declaredNames, and_assoc]
  rw [names, List.mem_map]
  constructor
  · rintro ⟨b, member, rfl⟩
    have inside : b.model.head ∈ b.lines := by simp [Block.lines, Block.parts, Part.lines]
    exact ⟨b.model.head, List.mem_flatMap.mpr ⟨b, member, inside⟩, (valid b member).opens,
      (valid b member).named⟩
  · rintro ⟨line, inside, directive, args⟩
    obtain ⟨b, member, inBlock⟩ := List.mem_flatMap.mp inside
    have good := valid b member
    refine ⟨b, member, ?_⟩
    have opens : line = b.model.head := by
      rcases List.mem_append.mp inBlock with inPart | atEnd
      · obtain ⟨p, part, inPart⟩ := List.mem_flatMap.mp inPart
        rcases List.mem_cons.mp inPart with rfl | inBody
        · rcases List.mem_cons.mp part with rfl | exdc
          · rfl
          · cases directive.symm.trans (good.exdcs p exdc)
        · exact absurd directive (good.inner p part line inBody).1
      · obtain rfl := List.mem_singleton.mp atEnd
        cases directive.symm.trans good.closes
    rw [opens] at args
    exact (List.cons.inj (good.named.symm.trans args)).1

/-- A body is read exactly if it is a sequence of well-formed sections. Then each list of the model holds
what the sections of its kind declare, in order. Its subcircuits may use the models of all `.model` lines
of the text. -/
theorem definition_exact (scanned : Model.ofLines lines = .ok models) (m : Model) :
    ((∃ d, (m.definition models).outcome = .ok d) ↔ ∃ ss declared, Declares models m.body ss declared) ∧
      (∀ d, (m.definition models).outcome = .ok d ↔
        ∃ ss declared, Declares models m.body ss declared ∧
          d.model = m ∧ d.body.Sorts (declared.filterMap id)) ∧
      ∀ name, (∃ target ∈ models, target.declared = true ∧ target.name = name) ↔
        ∃ line ∈ lines, line.directive = some .model ∧ line.args = [name] := by
  have each (d : Definition) : (m.definition models).outcome = .ok d ↔
      ∃ ss declared, Declares models m.body ss declared ∧
        d.model = m ∧ d.body.Sorts (declared.filterMap id) := by
    simp only [definition_eq_ok, declarations_eq_ok (ofLines_named scanned), Body.sorts_iff]
    constructor
    · rintro ⟨_, ⟨ss, declared, declares, rfl⟩, rfl⟩
      exact ⟨ss, declared, declares, rfl, rfl⟩
    · rintro ⟨ss, declared, declares, model, body⟩
      obtain ⟨_, _⟩ := d
      subst model body
      exact ⟨_, ⟨ss, declared, declares, rfl⟩, rfl⟩
  refine ⟨?_, each, fun name => exists_declared_iff scanned⟩
  constructor
  · rintro ⟨d, read⟩
    obtain ⟨ss, declared, declares, -⟩ := (each d).mp read
    exact ⟨ss, declared, declares⟩
  · rintro ⟨ss, declared, declares⟩
    exact ⟨⟨m, _⟩, (each _).mpr ⟨ss, declared, declares, rfl, Body.ofDeclarations_sorts _⟩⟩

def counterLines : List Line :=
  [⟨1, some .model, ["counter"]⟩, ⟨2, some .inputs, ["tick"]⟩, ⟨3, some .outputs, ["q"]⟩,
    ⟨4, some .latch, ["d", "q", "re", "clk", "2"]⟩, ⟨5, some .reset, ["q"]⟩, ⟨6, none, ["0"]⟩,
    ⟨7, some .names, ["tick", "q", "s"]⟩, ⟨8, none, ["1-", "1"]⟩, ⟨9, none, ["-1", "1"]⟩,
    ⟨10, some .subckt, ["buffer", "x=s", "y=d"]⟩, ⟨11, some .endModel, []⟩,
    ⟨12, some .model, ["buffer"]⟩, ⟨13, some .inputs, ["x"]⟩, ⟨14, some .outputs, ["y"]⟩,
    ⟨15, some .names, ["x", "y"]⟩, ⟨16, none, ["1", "1"]⟩, ⟨17, some .endModel, []⟩]

theorem definition_exact_counter : ∃ models, Model.ofLines counterLines = .ok models ∧
    ∃ m ∈ models, m.name = "counter" ∧ ∃ d, (m.definition models).outcome = .ok d ∧
      d.body.tables = [⟨["tick", "q"], "s", ["1- 1", "-1 1"]⟩] ∧
      d.body.latches = [⟨"d", "q", .dontCare⟩] ∧ d.body.resets = [⟨5, "q", .zero⟩] ∧
      d.body.subcircuits = [⟨"buffer", [⟨"x", "s"⟩], [⟨"y", "d"⟩]⟩] ∧ d.body.properties = [] ∧
      ∃ ss declared, Declares models m.body ss declared ∧ d.body.Sorts (declared.filterMap id) := by
  let body : Body := ⟨[⟨["tick", "q"], "s", ["1- 1", "-1 1"]⟩], [⟨"d", "q", .dontCare⟩],
    [⟨5, "q", .zero⟩], [⟨"buffer", [⟨"x", "s"⟩], [⟨"y", "d"⟩]⟩], []⟩
  obtain ⟨models, scanned, checked⟩ := Outcome.exists_ok_of_any (x := Model.ofLines counterLines)
    (p := fun models => ∃ m ∈ models, m.name = "counter" ∧
      (m.definition models).outcome.toOption.any fun d => d.body = body) (by decide +kernel)
  obtain ⟨m, member, name, succeeds⟩ := of_decide_eq_true checked
  obtain ⟨d, read, lists⟩ := Outcome.exists_ok_of_any succeeds
  have lists : d.body = body := of_decide_eq_true lists
  obtain ⟨ss, declared, declares, -, sorts⟩ := ((definition_exact scanned m).2.1 d).mp read
  exact ⟨models, scanned, m, member, name, d, read, by rw [lists], by rw [lists], by rw [lists],
    by rw [lists], by rw [lists], ss, declared, declares, sorts⟩

end Netlist.Blif
