import Netlist.Proofs.Faults
import Netlist.Proofs.LineEdits
import Netlist.Proofs.ModelContents
import Netlist.Proofs.QuotedLines

/-!
# What an `.exdc` line stands for

An `.exdc` line says in short that the open model ends and that a model named `EXDC` begins, which has
the ports declared so far. The scan of the longer text runs beside that of the shorter one. The models
that it finds are the same but for one, which is declared and begins with its ports, and nothing in an
accepted text can tell the two apart.
-/

namespace Netlist.Blif

variable {s t s' : Scan} {m m' : Model} {models models' ended : List Model} {line : Line}
  {lines before after : List Line}

def Line.NamesExdc (line : Line) : Prop := line.directive = some .model ∧ line.args = [exdcName]

instance : DecidablePred Line.NamesExdc := fun line =>
  inferInstanceAs (Decidable (line.directive = some .model ∧ line.args = [exdcName]))

/-- The lines that an `.exdc` line stands for in the given model. -/
def Model.exdcLines (m : Model) : List Line :=
  [⟨0, some .endModel, []⟩, ⟨0, some .model, [exdcName]⟩, ⟨0, some .inputs, m.inputs⟩,
    ⟨0, some .outputs, m.outputs⟩]

/-- The second model is the first, or is declared and begins with lines for the ports that the first,
a don't-care description, has from the model around it. -/
inductive Model.SpelledAs : Model → Model → Prop
  | same (m : Model) : SpelledAs m m
  | longer {m : Model} {inputs outputs : Line} (exdc : m.name = exdcName)
      (first : inputs.directive = some .inputs) (second : outputs.directive = some .outputs) :
      SpelledAs m { m with declared := true, body := inputs :: outputs :: m.body }

namespace Model.SpelledAs

theorem openExdc (spelled : m.SpelledAs m') (number : Nat) : m.openExdc number = m'.openExdc number := by
  cases spelled <;> rfl

theorem addLine (spelled : m.SpelledAs m') (line : Line) : (m.addLine line).SpelledAs (m'.addLine line) := by
  cases spelled with
  | same => exact .same _
  | longer exdc first second =>
    have named : (m.addLine line).name = exdcName := (m.addLine_name line).trans exdc
    have all := SpelledAs.longer named first second
    simpa only [Model.addLine_eq, List.cons_append] using all

end Model.SpelledAs

/-- A name other than that of don't-care descriptions means models with the same ports. -/
theorem findModel?_spelled (spelled : List.Forall₂ Model.SpelledAs models models') {name : String}
    (other : name ≠ exdcName) :
    (findModel? models name).map Model.ports = (findModel? models' name).map Model.ports := by
  induction spelled with
  | nil => rfl
  | @cons m m' models models' first _ ih =>
    unfold findModel? at ih ⊢
    cases first with
    | same =>
      rw [List.find?_cons, List.find?_cons]
      split
      · rfl
      · exact ih
    | longer exdc =>
      have apart : exdcName ≠ name := other.symm
      simpa [List.find?_cons, exdc, apart] using ih

/-! ### The scan -/

structure Scan.SpelledAs (s s' : Scan) : Prop where
  ended : List.Forall₂ Model.SpelledAs s.ended s'.ended
  current : Option.Rel Model.SpelledAs s.current s'.current

theorem Scan.Step.spelled (step : Step line s t) (spelled : s.SpelledAs s') (other : ¬line.NamesExdc) :
    ∃ t', s'.addLine line = .ok t' ∧ t.SpelledAs t' := by
  obtain ⟨ended', current'⟩ := s'
  obtain ⟨ended, current⟩ := spelled
  cases step with
  | @opens _ name directive args new =>
    cases current
    have differ : name ≠ exdcName := by
      rintro rfl
      exact other ⟨directive, args⟩
    have same := findModel?_spelled ended differ
    rw [new, Option.map_none, eq_comm, Option.map_eq_none_iff] at same
    refine ⟨⟨ended', some { name, header := line.number, declared := true }⟩, ?_, ended, .some (.same _)⟩
    simp [addLine, directive, openModel, args, same]
  | @opensExdc _ m directive =>
    cases current with
    | @some _ m' both =>
      refine ⟨⟨ended' ++ [m'], some (m'.openExdc line.number)⟩, ?_, ?_, .some ?_⟩
      · simp [addLine, directive]
      · exact List.rel_append ended (.cons both .nil)
      · rw [both.openExdc]
        exact .same _
  | @ends _ m directive =>
    cases current with
    | @some _ m' both =>
      refine ⟨⟨ended' ++ [m'], none⟩, ?_, ?_, .none⟩
      · simp [addLine, directive]
      · exact List.rel_append ended (.cons both .nil)
  | @takes _ m inner =>
    cases current with
    | @some _ m' both => exact ⟨_, addLine_of_inner inner, ended, .some (both.addLine line)⟩

theorem Scan.addLines_spelled (spelled : s.SpelledAs s') (other : ∀ line ∈ lines, ¬line.NamesExdc)
    (taken : s.addLines lines = .ok t) : ∃ t', s'.addLines lines = .ok t' ∧ t.SpelledAs t' := by
  induction lines generalizing s s' with
  | nil =>
    obtain rfl := Except.ok.inj taken
    exact ⟨s', rfl, spelled⟩
  | cons line lines ih =>
    obtain ⟨here, later⟩ := List.forall_mem_cons.mp other
    unfold addLines at taken
    split at taken
    · next mid first =>
      obtain ⟨mid', first', spelled⟩ := (addLine_step first).spelled spelled here
      rw [addLines_cons first']
      exact ih spelled later taken
    · cases taken

/-- Without a line that says so, no model is known by the name of don't-care descriptions. -/
theorem Scan.addLines_unnamed (other : ∀ line ∈ lines, ¬line.NamesExdc)
    (unnamed : exdcName ∉ declaredNames s.models) (taken : s.addLines lines = .ok t) :
    exdcName ∉ declaredNames t.models := by
  induction lines generalizing s with
  | nil =>
    obtain rfl := Except.ok.inj taken
    exact unnamed
  | cons line lines ih =>
    obtain ⟨here, later⟩ := List.forall_mem_cons.mp other
    unfold addLines at taken
    split at taken
    · next mid first =>
      refine ih later ?_ taken
      cases addLine_step first with
      | @opens ended name directive args =>
        have differ : exdcName ≠ name := by
          rintro rfl
          exact here ⟨directive, args⟩
        simpa [models, declaredNames_append, declaredNames, differ] using unnamed
      | opensExdc => simpa [models, declaredNames_append, declaredNames, Model.openExdc] using unnamed
      | ends => simpa [models] using unnamed
      | takes =>
        simpa [models, declaredNames_append, declaredNames, List.filter_cons] using unnamed
    · cases taken

theorem ofLines_unnamed (other : ∀ line ∈ lines, ¬line.NamesExdc)
    (scanned : Model.ofLines lines = .ok models) : exdcName ∉ declaredNames models := by
  obtain ⟨s, taken, finished⟩ := Outcome.bind_eq_ok.mp scanned
  obtain ⟨rfl, -⟩ := Scan.finish_eq_ok finished
  have start : exdcName ∉ declaredNames ({} : Scan).models := by simp [Scan.models, declaredNames]
  simpa [Scan.models] using Scan.addLines_unnamed other start taken

/-- From where a model is open to where the lines that an `.exdc` line stands for have been read. -/
theorem Scan.addLines_exdcLines (unnamed : exdcName ∉ declaredNames (⟨ended, some m⟩ : Scan).models) :
    (⟨ended, some m⟩ : Scan).addLines m.exdcLines = .ok ⟨ended ++ [m], some
      { m.openExdc 0 with
        declared := true
        body := [⟨0, some .inputs, m.inputs⟩, ⟨0, some .outputs, m.outputs⟩] }⟩ := by
  have free : findModel? (ended ++ [m]) exdcName = none := findModel?_eq_none_iff.mpr unnamed
  simp [Model.exdcLines, addLines, addLine, openModel, free, Model.addLine, Model.openExdc]

/-- The scan of the longer lines finds the models of the shorter ones, one of them spelled out. -/
theorem ofLines_spelled (opens : line.directive = some .exdc) (number : line.number = 0)
    (other : ∀ l ∈ before ++ line :: after, ¬l.NamesExdc)
    (scanned : Model.ofLines (before ++ line :: after) = .ok models) :
    ∃ ended m, ({} : Scan).addLines before = .ok ⟨ended, some m⟩ ∧
      ∃ models', Model.ofLines (before ++ m.exdcLines ++ after) = .ok models' ∧
        List.Forall₂ Model.SpelledAs models models' := by
  obtain ⟨early, later⟩ := List.forall_mem_append.mp other
  obtain ⟨s, taken, finished⟩ := Outcome.bind_eq_ok.mp scanned
  obtain ⟨rfl, some⟩ := Scan.finish_eq_ok finished
  rw [Scan.addLines_append] at taken
  obtain ⟨t, reached, taken⟩ := Outcome.bind_eq_ok.mp taken
  have unnamed := Scan.addLines_unnamed early (by simp [Scan.models, declaredNames]) reached
  unfold Scan.addLines at taken
  split at taken
  case h_2 => cases taken
  next u first =>
  cases Scan.addLine_step first with
  | opens directive => cases opens.symm.trans directive
  | ends directive => cases opens.symm.trans directive
  | takes inner => exact absurd opens inner.2.1
  | @opensExdc ended m _ =>
    refine ⟨ended, m, reached, ?_⟩
    have apart : Scan.SpelledAs ⟨ended ++ [m], Option.some (m.openExdc line.number)⟩
        ⟨ended ++ [m], Option.some { m.openExdc 0 with
          declared := true
          body := [⟨0, Option.some .inputs, m.inputs⟩, ⟨0, Option.some .outputs, m.outputs⟩] }⟩ := by
      rw [number]
      exact ⟨List.forall₂_same.mpr fun m _ => .same m, .some (.longer rfl rfl rfl)⟩
    obtain ⟨⟨models', current⟩, taken', ended', open'⟩ :=
      Scan.addLines_spelled apart (List.forall_mem_cons.mp later).2 taken
    cases open'
    refine ⟨models', ?_, ended'⟩
    have whole : ({} : Scan).addLines (before ++ m.exdcLines ++ after) = .ok ⟨models', none⟩ := by
      rw [List.append_assoc, Scan.addLines_append, reached]
      refine (Scan.addLines_append _ _ _).trans ?_
      rw [Scan.addLines_exdcLines unnamed]
      exact taken'
    have some' : models' ≠ [] := by
      rintro rfl
      exact some (List.forall₂_nil_right_iff.mp ended')
    refine Outcome.bind_eq_ok.mpr ⟨_, whole, ?_⟩
    simp [Scan.finish, some']

/-! ### The contents -/

theorem Declares.samePorts {ss : List Section} {declared : List (Option Declaration)}
    (declares : Declares models lines ss declared) (named : Scan.Named models)
    (kept : ∀ name target, findModel? models name = some target →
      (findModel? models' name).map Model.ports = some target.ports) : SamePorts models models' lines := by
  intro line member directive name args
  rw [declares.whole] at member
  obtain ⟨s, inside, member⟩ := List.mem_flatMap.mp member
  have formed := declares.formed s inside
  rcases List.mem_cons.mp member with rfl | row
  · obtain ⟨d, -, meant⟩ := declares.declares.exists_mem_left inside
    obtain uses : s.directive = .subckt := Option.some.inj (formed.head.symm.trans directive)
    cases meant with
    | @subcircuit head model _ target _ names known declared named' =>
      obtain rfl : model = name := by simpa [names] using args
      have found := named.findModel?_eq_some_iff.mpr ⟨known, declared, named'⟩
      rw [found, kept _ _ found]
      rfl
    | @idle _ d other =>
      obtain rfl : d = .subckt := uses
      simp at other
    | _ => cases uses
  · cases (formed.rows line row).symm.trans directive

theorem content?_longer {inputs outputs : Line} (named : Scan.Named models)
    (first : inputs.directive = some .inputs) (second : outputs.directive = some .outputs)
    {content : Circuit × List String} (contains : m.content? models = some content) :
    ({ m with declared := true, body := inputs :: outputs :: m.body } : Model).content? models =
      some content := by
  obtain ⟨d, read, checked, rfl⟩ := content?_eq_some.mp contains
  obtain ⟨ds, declarations, rfl⟩ := definition_eq_ok.mp read
  obtain ⟨ss, declared, ⟨whole, formed, declares⟩, rfl⟩ := (declarations_eq_ok named).mp declarations
  have longer : Declares models (inputs :: outputs :: m.body)
      (⟨inputs, .inputs, []⟩ :: ⟨outputs, .outputs, []⟩ :: ss) (none :: none :: declared) :=
    { whole := by rw [whole]; rfl
      formed := List.forall_mem_cons.mpr ⟨⟨first, by simp⟩,
        List.forall_mem_cons.mpr ⟨⟨second, by simp⟩, formed⟩⟩
      declares := .cons (.idle (by simp)) (.cons (.idle (by simp)) declares) }
  have read' := (declarations_eq_ok named
    (m := { m with declared := true, body := inputs :: outputs :: m.body })).mpr
    ⟨_, _, longer, rfl⟩
  exact content?_eq_some.mpr ⟨_, definition_eq_ok.mpr ⟨_, read', rfl⟩, checked, rfl⟩

variable {contents : List (Circuit × List String)}

/-- What is spelled out contains what it is short for. -/
theorem contents_spelled (named : Scan.Named models) (named' : Scan.Named models')
    (spelled : List.Forall₂ Model.SpelledAs models models')
    (unnamed : exdcName ∉ declaredNames models)
    (each : models.map (·.content? models) = contents.map some) :
    models'.map (·.content? models') = contents.map some := by
  have kept (name : String) (target : Model) (found : findModel? models name = some target) :
      (findModel? models' name).map Model.ports = some target.ports := by
    rw [← findModel?_spelled spelled, found]
    · rfl
    · rintro rfl
      exact absurd (findModel?_eq_none_iff.mpr unnamed) (by simp [found])
  have one {m m' : Model} {content : Circuit × List String} (spelled : m.SpelledAs m')
      (contains : m.content? models = some content) : m'.content? models' = some content := by
    obtain ⟨d, read, -, -⟩ := content?_eq_some.mp contains
    obtain ⟨_, declarations, -⟩ := definition_eq_ok.mp read
    obtain ⟨ss, declared, declares, -⟩ := (declarations_eq_ok named).mp declarations
    have moved := content?_of_plain named named' rfl (declares.samePorts named kept) contains
    cases spelled with
    | same => exact moved
    | longer _ first second => exact content?_longer named' first second moved
  -- The models are all of these; what they contain is compared one by one.
  have walk {ms ms' : List Model} (spelled : List.Forall₂ Model.SpelledAs ms ms')
      {contents : List (Circuit × List String)} (each : ms.map (·.content? models) = contents.map some) :
      ms'.map (·.content? models') = contents.map some := by
    induction spelled generalizing contents with
    | nil => exact each
    | cons first _ ih =>
      obtain ⟨content, contents, rfl, here, later⟩ := List.map_eq_cons_iff.mp each.symm
      rw [List.map_cons, one first here.symm, ih later.symm]
      rfl
  exact walk spelled each

/-! ### Texts -/

theorem token?_eq_some {t : List Char} : token? t = some line ↔ Line.ofLogical ⟨0, t⟩ = .ok line := by
  unfold token?
  cases Line.ofLogical ⟨0, t⟩ with
  | ok l => simp [Except.toOption]
  | error e => simp [Except.toOption]

theorem token?_number {t : List Char} (said : token? t = some line) : line.number = 0 := by
  have read := token?_eq_some.mp said
  unfold Line.ofLogical at read
  dsimp only at read
  split at read
  · obtain rfl := Except.ok.inj read
    rfl
  · cases read

/-- Between these lines, the text has lines that say what the `.exdc` line stands for in the model. -/
def SpelledOut (before after : List (List Char)) (m : Model) (text : String) : Prop :=
  ∃ spelled, spelled.map token? = m.exdcLines.map some ∧ lineTexts text = before ++ spelled ++ after

/-- All ports come from lines. -/
theorem Scan.addLines_ports {p : String → Prop} (args : ∀ line ∈ lines, ∀ a ∈ line.args, p a)
    (ports : ∀ m ∈ s.models, ∀ port ∈ m.inputs ++ m.outputs, p port)
    (taken : s.addLines lines = .ok t) : ∀ m ∈ t.models, ∀ port ∈ m.inputs ++ m.outputs, p port := by
  induction lines generalizing s with
  | nil =>
    obtain rfl := Except.ok.inj taken
    exact ports
  | cons line lines ih =>
    obtain ⟨here, later⟩ := List.forall_mem_cons.mp args
    unfold addLines at taken
    split at taken
    · next mid first =>
      refine ih later ?_ taken
      cases addLine_step first with
      | opens => simpa [models, or_imp, forall_and] using ports
      | opensExdc => simpa [models, or_imp, forall_and, Model.openExdc] using ports
      | ends => simpa [models] using ports
      | @takes ended m =>
        have added : ∀ port ∈ (m.addLine line).inputs ++ (m.addLine line).outputs,
            port ∈ m.inputs ++ m.outputs ∨ port ∈ line.args := by
          intro port member
          rw [m.addLine_eq] at member
          grind
        rw [models, List.forall_mem_append] at ports ⊢
        refine ⟨ports.1, ?_⟩
        simp only [Option.toList_some, List.forall_mem_singleton] at ports ⊢
        exact fun port member => (added port member).elim (ports.2 port) (here port)
    · cases taken

def Model.exdcEntries (m : Model) (inputs : Quotable m.inputs) (outputs : Quotable m.outputs) :
    List Entry :=
  [⟨some "end", [], by simp [isKeywordChar], nofun, nofun⟩,
    ⟨some "model", [exdcName], by simp [isKeywordChar], by simp [Quotable, exdcName], nofun⟩,
    ⟨some "inputs", m.inputs, by simp [isKeywordChar], inputs, nofun⟩,
    ⟨some "outputs", m.outputs, by simp [isKeywordChar], outputs, nofun⟩]

/-- The lines that an `.exdc` line stands for can be written in its place. -/
theorem exists_spelledOut {text : String} {short : List Char} {before after : List (List Char)}
    (whole : lineTexts text = before ++ short :: after)
    (reached : ({} : Scan).addLines (before.filterMap token?) = .ok ⟨ended, some m⟩) :
    ∃ text', SpelledOut before after m text' := by
  have args : ∀ line ∈ before.filterMap token?, Quotable line.args := by
    intro line member
    obtain ⟨t, inside, said⟩ := List.mem_filterMap.mp member
    have unbroken := lineTexts_unbroken text t (by rw [whole]; simp [inside])
    exact quotable_of_ofLogical unbroken (token?_eq_some.mp said)
  have ports := Scan.addLines_ports args (by simp [Scan.models]) reached m (by simp [Scan.models])
  obtain ⟨inputs, outputs⟩ : Quotable m.inputs ∧ Quotable m.outputs := List.forall_mem_append.mp ports
  have verbatim : ∀ t ∈ (m.exdcEntries inputs outputs).map fun e => e.written.toList, Verbatim t :=
    List.forall_mem_map.mpr fun e _ => e.verbatim
  obtain ⟨text', replaced⟩ := exists_replaced whole (by simp [Model.exdcEntries]) verbatim
  refine ⟨text', _, ?_, replaced⟩
  have token (e : Entry) : token? e.written.toList = some (e.line 0) :=
    token?_eq_some.mpr (e.ofLogical_written 0)
  simp only [List.map_map, Function.comp_def, token]
  rfl

/-- An `.exdc` line is short for the end of the open model and the beginning of one that is named `EXDC`
and has the ports declared so far. A text with the longer lines is accepted like the shorter text, and
it is loaded like it, with the same faults. -/
theorem load_spelledOut {text : String} {c : Contents} {lines : List Line}
    {before after : List (List Char)} {short : List Char}
    (accepted : (Contents.ofText text).outcome = .ok c) (tokens : Line.ofText text = .ok lines)
    (unnamed : ∀ line ∈ lines, ¬line.NamesExdc) (whole : lineTexts text = before ++ short :: after)
    (opens : ∃ line, token? short = some line ∧ line.directive = some .exdc) :
    ∃ ended m, ({} : Scan).addLines (before.filterMap token?) = .ok ⟨ended, some m⟩ ∧
      (∃ text', SpelledOut before after m text') ∧
      ∀ text', SpelledOut before after m text' →
        (Contents.ofText text').outcome = .ok c ∧
        ∀ file id, (load text' file id).outcome = (load text file id).outcome ∧
          faults (load text' file id).events = faults (load text file id).events := by
  have uncalled : ∀ line ∈ lines.map Line.plain, ¬line.NamesExdc := List.forall_mem_map.mpr unnamed
  obtain ⟨said', models, contents, said, scanned, each, rfl⟩ := ofText_tokens_content.mp accepted
  obtain rfl : said' = lines.map Line.plain := by
    apply List.map_injective_iff.mpr fun _ _ => Option.some.inj
    rw [← said, ofText_tokens tokens]
  obtain ⟨line, is, exdc⟩ := opens
  rw [whole] at said
  obtain ⟨told, divided⟩ := map_eq_map_some_iff.mp said
  rw [List.filterMap_append, List.filterMap_cons_some is] at divided
  rw [divided] at scanned uncalled
  obtain ⟨ended, m, reached, models', scanned', spelled⟩ :=
    ofLines_spelled exdc (token?_number is) uncalled scanned
  refine ⟨ended, m, reached, exists_spelledOut whole reached, ?_⟩
  rintro text' ⟨four, means, whole'⟩
  have told' : (lineTexts text').map token? =
      (before.filterMap token? ++ m.exdcLines ++ after.filterMap token?).map some := by
    obtain ⟨early, late⟩ := List.forall_mem_append.mp told
    have said := map_eq_map_some_iff.mpr ⟨early, rfl⟩
    have said' := map_eq_map_some_iff.mpr ⟨(List.forall_mem_cons.mp late).2, rfl⟩
    rw [whole', List.map_append, List.map_append, said, means, said', List.map_append, List.map_append]
  have each' := contents_spelled (ofLines_named scanned) (ofLines_named scanned') spelled
    (ofLines_unnamed uncalled scanned) each
  have accepted' := ofText_tokens_content.mpr ⟨_, models', contents, told', scanned', each', rfl⟩
  refine ⟨accepted', fun file id => ?_⟩
  obtain ⟨outcome, faults⟩ := load_of_contents accepted file id
  obtain ⟨outcome', faults'⟩ := load_of_contents accepted' file id
  exact ⟨outcome'.trans outcome.symm, faults'.trans faults.symm⟩

/-- A section within a section, which starts from the ports of both. -/
def nestedSections : String :=
  ".model top\n.inputs a\n.outputs y\n.names a y\n1 1\n.exdc\n.inputs b\n.names a b y\n11 1\n" ++
  ".exdc\n.names b y\n0 1\n.end\n"

def innerSpelledOut : String :=
  ".model top\n.inputs a\n.outputs y\n.names a y\n1 1\n.exdc\n.inputs b\n.names a b y\n11 1\n" ++
  ".end\n.model EXDC\n.inputs a b\n.outputs \"y\"\n.names b y\n0 1\n.end\n"

theorem load_spelledOut_inner :
    (load innerSpelledOut none ⟨0⟩).outcome = (load nestedSections none ⟨0⟩).outcome ∧
      faults (load innerSpelledOut none ⟨0⟩).events = faults (load nestedSections none ⟨0⟩).events := by
  let before : List String := [".model top", ".inputs a", ".outputs y", ".names a y", "1 1", ".exdc",
    ".inputs b", ".names a b y", "11 1"]
  let after : List String := [".names b y", "0 1", ".end"]
  obtain ⟨c, accepted, -⟩ := Outcome.exists_ok_of_any (x := (Contents.ofText nestedSections).outcome)
    (p := fun _ => true) (by decide +kernel)
  obtain ⟨lines, tokens, unnamed⟩ := Outcome.exists_ok_of_any (x := Line.ofText nestedSections)
    (p := fun lines => ∀ line ∈ lines, ¬line.NamesExdc) (by decide +kernel)
  have whole : lineTexts nestedSections =
      before.map String.toList ++ ".exdc".toList :: after.map String.toList := by decide +kernel
  obtain ⟨ended, m, reached, -, same⟩ := load_spelledOut accepted tokens (of_decide_eq_true unnamed) whole
    ⟨⟨0, some .exdc, []⟩, by decide +kernel, rfl⟩
  obtain ⟨s, reached', ports⟩ := Outcome.exists_ok_of_any
    (x := ({} : Scan).addLines ((before.map String.toList).filterMap token?))
    (p := fun s => s.current.any fun m => m.inputs = ["a", "b"] ∧ m.outputs = ["y"]) (by decide +kernel)
  obtain rfl := Except.ok.inj (reached.symm.trans reached')
  obtain ⟨inputs, outputs⟩ := of_decide_eq_true ports
  refine (same innerSpelledOut ⟨[".end", ".model EXDC", ".inputs a b", ".outputs \"y\""].map String.toList,
    ?_, by decide +kernel⟩).2 none ⟨0⟩
  rw [Model.exdcLines, inputs, outputs]
  decide +kernel

end Netlist.Blif
