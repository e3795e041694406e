import Netlist.Proofs.Faults
import Netlist.Proofs.Renumbering

/-!
# Skipped lines

A line whose directive has no meaning here is skipped with a warning. It completes the table above it,
but so does any line of a directive. So a model may hold such lines before each line of a directive, and
all that they change is the log.
-/

namespace Netlist

namespace Traced

variable {ε δ α β : Type} {told more added : List Event} {x x' x'' : Traced ε α}

/-- The second computation ends as the first one and tells what that tells, and the events `told`
besides. -/
structure Adds (told : List Event) (x x' : Traced ε α) : Prop where
  outcome : x'.outcome = x.outcome
  kept : x.events.Sublist x'.events
  whole : x'.events.Perm (told ++ x.events)

namespace Adds

theorem refl (x : Traced ε α) : Adds [] x x := ⟨rfl, .refl _, .refl _⟩

theorem trans (first : Adds told x x') (second : Adds more x' x'') : Adds (more ++ told) x x'' where
  outcome := second.outcome.trans first.outcome
  kept := first.kept.trans second.kept
  whole := by
    rw [List.append_assoc]
    exact second.whole.trans (first.whole.append_left more)

theorem bind (adds : Adds told x x') (f : α → Traced ε β) : Adds told (x >>= f) (x' >>= f) := by
  cases ended : x.outcome with
  | ok a =>
    rw [bind_of_ok ended, bind_of_ok (adds.outcome.trans ended)]
    refine ⟨rfl, adds.kept.append_right _, ?_⟩
    rw [← List.append_assoc]
    exact adds.whole.append_right _
  | error e =>
    rw [bind_of_error ended, bind_of_error (adds.outcome.trans ended)]
    exact ⟨rfl, adds.kept, adds.whole⟩

end Adds

/-- The second computation ends as the first one and tells some of the events `added` besides, all of
them if it ends well. -/
def Gains (added : List Event) (x x' : Traced ε α) : Prop :=
  ∃ told, told.Sublist added ∧ Adds told x x' ∧ ∀ a, x.outcome = .ok a → told = added

namespace Gains

theorem refl (x : Traced ε α) : Gains [] x x := ⟨[], .refl _, .refl x, fun _ _ => rfl⟩

theorem trans (first : Gains added x x') (second : Gains more x' x'') : Gains (more ++ added) x x'' := by
  obtain ⟨told, part, adds, all⟩ := first
  obtain ⟨told', part', adds', all'⟩ := second
  refine ⟨told' ++ told, part'.append part, adds.trans adds', fun a ended => ?_⟩
  rw [all a ended, all' a (adds.outcome.trans ended)]

theorem here (event : Event) (x : Traced ε α) : Gains [event] x (emit event >>= fun _ => x) :=
  ⟨[event], .refl _, ⟨rfl, List.sublist_cons_self event x.events, .refl _⟩, fun _ _ => rfl⟩

theorem bind (gains : Gains added x x') (f : α → Traced ε β) : Gains added (x >>= f) (x' >>= f) := by
  obtain ⟨told, part, adds, all⟩ := gains
  refine ⟨told, part, adds.bind f, fun b ended => ?_⟩
  rw [outcome_bind] at ended
  obtain ⟨a, ended, -⟩ := Outcome.bind_eq_ok.mp ended
  exact all a ended

theorem behind (x : Traced ε α) {f f' : α → Traced ε β} (next : ∀ a, Gains added (f a) (f' a)) :
    Gains added (x >>= f) (x >>= f') := by
  cases ended : x.outcome with
  | ok a =>
    obtain ⟨told, part, adds, all⟩ := next a
    rw [bind_of_ok ended, bind_of_ok ended]
    refine ⟨told, part, ⟨adds.outcome, adds.kept.append_left _, ?_⟩, all⟩
    exact (adds.whole.append_left _).trans (List.perm_append_comm_assoc _ _ _)
  | error e =>
    -- The events come too late.
    rw [bind_of_error ended, bind_of_error ended]
    exact ⟨[], List.nil_sublist _, .refl _, nofun⟩

theorem mapError (gains : Gains added x x') (f : ε → δ) :
    Gains added (x.mapError f) (x'.mapError f) := by
  obtain ⟨told, part, adds, all⟩ := gains
  refine ⟨told, part, ⟨congrArg (Except.mapError f) adds.outcome, adds.kept, adds.whole⟩, ?_⟩
  intro a ended
  exact all a (Outcome.mapError_eq_ok.mp ended)

theorem ofExcept {γ : Type} {R : α → β → Prop} {x : Except ε α} {x' : Except ε β}
    {f : α → Traced ε γ} {f' : β → Traced ε γ} (alike : Outcome.Alike R x x')
    (next : ∀ {a b}, R a b → Gains added (f a) (f' b)) :
    Gains added (Traced.ofExcept x >>= f) (Traced.ofExcept x' >>= f') := by
  cases alike with
  | @ok a b related =>
    rw [bind_of_ok (outcome_ofExcept _), bind_of_ok (outcome_ofExcept _)]
    exact next related
  | error e =>
    rw [bind_of_error (outcome_ofExcept _), bind_of_error (outcome_ofExcept _)]
    exact ⟨[], List.nil_sublist _, .refl _, nofun⟩

end Gains

end Traced

namespace Blif

open Outcome

/-- The directive that a line starts with, whether or not its arguments can be read. -/
def LogicalLine.directive? (line : LogicalLine) : Option Directive :=
  (splitKeyword (line.text.dropWhile isSeparator)).1.map fun k => .ofKeyword (String.ofList k)

def opensAfter (isOpen : Bool) : Option Directive → Bool
  | some .model => true
  | some .endModel => false
  | _ => isOpen

def modelOpen (directives : List (Option Directive)) : Bool := directives.foldl opensAfter false

/-- Lines with more lines among them, each with a directive that has no meaning here, put into an open
model before a line of a directive. The lines put in are listed with their keywords. -/
inductive Extended (lines : List LogicalLine) :
    List (LogicalLine × String) → List LogicalLine → Prop where
  | refl : Extended lines [] lines
  | insert {added : List (LogicalLine × String)} {before after : List LogicalLine}
      {extra next : LogicalLine} {line : Line} {keyword : String}
      (extended : Extended lines added (before ++ next :: after))
      (inside : modelOpen (before.map LogicalLine.directive?)) (directive : next.directive?.isSome)
      (reads : Line.ofLogical extra = .ok line) (unknown : line.directive = some (.other keyword)) :
      Extended lines ((extra, keyword) :: added) (before ++ extra :: next :: after)

variable {s t : Scan} {m : Model} {models models' ended : List Model} {line extra next : Line}
  {lines before after : List Line} {keyword : String}

/-! ### The scan -/

theorem Scan.addLines_eq_bind (s : Scan) (line : Line) (lines : List Line) :
    s.addLines (line :: lines) = inLine line (s.addLine line) >>= fun t => t.addLines lines := by
  rw [addLines]
  cases s.addLine line <;> rfl

theorem Scan.Step.isOpen (step : Scan.Step line s t) :
    t.current.isSome = opensAfter s.current.isSome line.directive := by
  cases step with
  | opens directive => rw [directive]; rfl
  | opensExdc directive => rw [directive]; rfl
  | ends directive => rw [directive]; rfl
  | takes inner =>
    obtain ⟨notModel, -, notEnd⟩ := inner
    unfold opensAfter
    split <;> simp_all

theorem Scan.addLines_isOpen (taken : s.addLines lines = .ok t) :
    t.current.isSome = (lines.map Line.directive).foldl opensAfter s.current.isSome := by
  induction lines generalizing s with
  | nil =>
    obtain rfl := Except.ok.inj taken
    rfl
  | cons line lines ih =>
    unfold addLines at taken
    split at taken
    · next mid first =>
      rw [List.map_cons, List.foldl_cons, ← (addLine_step first).isOpen]
      exact ih taken
    · cases taken

/-- One of the models has one line more, before a line of a directive or at the end of its body. -/
inductive Lengthened (extra : Line) : List Model → List Model → Prop where
  | intro {m : Model} {before after : List Line} (earlier later : List Model)
      (body : m.body = before ++ after) (directive : ∀ l ∈ after.head?, l.directive.isSome) :
      Lengthened extra (earlier ++ m :: later)
        (earlier ++ { m with body := before ++ extra :: after } :: later)

theorem Lengthened.append (lengthened : Lengthened extra models models') (ms : List Model) :
    Lengthened extra (models ++ ms) (models' ++ ms) := by
  cases lengthened with
  | intro earlier later body directive =>
    rw [List.append_assoc, List.append_assoc]
    exact .intro earlier (later ++ ms) body directive

theorem Lengthened.ports (lengthened : Lengthened extra models models') (name : String) :
    (findModel? models' name).map Model.ports = (findModel? models name).map Model.ports := by
  cases lengthened with
  | @intro m before after earlier later =>
    unfold findModel?
    rw [List.find?_append, List.find?_append, List.find?_cons, List.find?_cons]
    dsimp only
    cases List.find? _ earlier with
    | some => rfl
    | none => cases m.declared && decide (m.name = name) <;> rfl

/-- The two scans stand at the same place, and in the second one a model has one line more. In the open
model, a line of a directive has come behind it. -/
inductive Scan.Lengthened (extra : Line) : Scan → Scan → Prop where
  | inside {ended : List Model} {m : Model} {before after : List Line} (body : m.body = before ++ after)
      (directive : ∃ l ∈ after.head?, l.directive.isSome) :
      Lengthened extra ⟨ended, some m⟩ ⟨ended, some { m with body := before ++ extra :: after }⟩
  | past {ended ended' : List Model} (current : Option Model)
      (lengthened : Blif.Lengthened extra ended ended') :
      Lengthened extra ⟨ended, current⟩ ⟨ended', current⟩

namespace Scan.Lengthened

/-- What the open model takes behind the line put in begins with a line of a directive. -/
theorem of_open (ended : List Model) (body : m.body = before ++ after)
    (directive : ∃ l ∈ (after ++ [line]).head?, l.directive.isSome) :
    Alike (Scan.Lengthened extra) ((⟨ended, some m⟩ : Scan).addLine line)
      ((⟨ended, some { m with body := before ++ extra :: after }⟩ : Scan).addLine line) := by
  have ends : Blif.Lengthened extra (ended ++ [m])
      (ended ++ [{ m with body := before ++ extra :: after }]) := by
    refine .intro ended [] body fun l first => ?_
    obtain ⟨l', first', directive⟩ := directive
    rw [List.head?_append, first] at first'
    obtain rfl := Option.some.inj first'
    exact directive
  rw [addLine_open, addLine_open]
  split
  · exact .error _
  split
  · exact .ok (.past _ ends)
  split
  · exact .ok (.past _ ends)
  · have longer := @Scan.Lengthened.inside extra ended (m.addLine line) before (after ++ [line])
      (by simp [Model.addLine_eq, body]) directive
    simpa [Model.addLine_eq] using Alike.ok (ε := Defect) longer

theorem addLine (lengthened : s.Lengthened extra t) (line : Line) :
    Alike (Scan.Lengthened extra) (s.addLine line) (t.addLine line) := by
  cases lengthened with
  | @inside ended m before after body directive =>
    obtain ⟨l, first, directive⟩ := directive
    exact of_open ended body ⟨l, List.mem_head?_append_of_mem_head? first, directive⟩
  | @past ended ended' current lengthened =>
    cases current with
    | some m =>
      rw [addLine_open, addLine_open]
      split
      · exact .error _
      split
      · exact .ok (.past _ (lengthened.append [m]))
      split
      · exact .ok (.past _ (lengthened.append [m]))
      · exact .ok (.past _ lengthened)
    | none =>
      have taken (name : String) : (findModel? ended' name).isSome = (findModel? ended name).isSome := by
        have same := congrArg Option.isSome (lengthened.ports name)
        rwa [Option.isSome_map, Option.isSome_map] at same
      obtain ⟨number, directive, args⟩ := line
      cases directive with
      | none => exact .error _
      | some d =>
        cases d with
        | model =>
          match args with
          | [] | _ :: _ :: _ => exact .error _
          | [name] =>
            change Alike _ (if (findModel? ended name).isSome then _ else _)
              (if (findModel? ended' name).isSome then _ else _)
            rw [taken]
            split
            · exact .error _
            · exact .ok (.past _ lengthened)
        | _ => exact .error _

theorem addLines (lengthened : s.Lengthened extra t) (lines : List Line) :
    Alike (Scan.Lengthened extra) (s.addLines lines) (t.addLines lines) := by
  induction lines generalizing s t with
  | nil => exact .ok lengthened
  | cons line lines ih =>
    rw [addLines_eq_bind, addLines_eq_bind]
    exact ((lengthened.addLine line).mapError _).bind ih

theorem finish (lengthened : s.Lengthened extra t) :
    Alike (Blif.Lengthened extra) s.finish t.finish := by
  cases lengthened with
  | inside => exact .error _
  | @past ended ended' current lengthened =>
    cases current with
    | some m => exact .error _
    | none =>
      have some : ended ≠ [] ∧ ended' ≠ [] := by cases lengthened with | intro => simp
      simp only [Scan.finish, some.1, some.2, if_false]
      exact .ok lengthened

end Scan.Lengthened

theorem Scan.addLines_lengthened (ended : List Model) (m : Model)
    (unknown : extra.directive = some (.other keyword)) (directive : next.directive.isSome)
    (after : List Line) :
    Alike (Scan.Lengthened extra) ((⟨ended, some m⟩ : Scan).addLines (next :: after))
      ((⟨ended, some m⟩ : Scan).addLines (extra :: next :: after)) := by
  have inner : extra.Inner := by simp [Line.Inner, unknown]
  have taken : m.addLine extra = { m with body := m.body ++ [extra] } := by
    simp [Model.addLine_eq, unknown]
  have first : Alike (Scan.Lengthened extra) _ _ :=
    Scan.Lengthened.of_open ended (List.append_nil m.body).symm ⟨next, rfl, directive⟩
  rw [addLines_cons (addLine_of_inner inner), taken, addLines_eq_bind, addLines_eq_bind]
  exact (first.mapError _).bind fun lengthened => lengthened.addLines after

theorem ofLines_lengthened (inside : modelOpen (before.map Line.directive))
    (unknown : extra.directive = some (.other keyword)) (directive : next.directive.isSome) :
    Alike (Lengthened extra) (Model.ofLines (before ++ next :: after))
      (Model.ofLines (before ++ extra :: next :: after)) := by
  rw [Model.ofLines, Model.ofLines, Scan.addLines_append, Scan.addLines_append]
  cases reached : ({} : Scan).addLines before with
  | error e => exact .error e
  | ok s =>
    obtain ⟨ended, current⟩ := s
    have isOpen : current.isSome := (Scan.addLines_isOpen reached).trans inside
    obtain ⟨m, rfl⟩ := Option.isSome_iff_exists.mp isOpen
    have longer := Scan.addLines_lengthened ended m unknown directive after
    exact longer.bind fun lengthened => lengthened.finish

/-! ### Bodies -/

theorem sections_append (directive : ∀ l ∈ after.head?, l.directive.isSome) :
    sections (before ++ after) = ((sections before).1, (sections before).2 ++ (sections after).2) := by
  induction before with
  | nil =>
    cases after with
    | nil => rfl
    | cons line after =>
      obtain ⟨d, is⟩ := Option.isSome_iff_exists.mp (directive line rfl)
      simp [sections, is]
  | cons line before ih =>
    rw [List.cons_append, sections, ih, sections]
    cases line.directive <;> rfl

theorem sections_lengthened (unknown : extra.directive = some (.other keyword))
    (directive : ∀ l ∈ after.head?, l.directive.isSome) :
    sections (before ++ extra :: after) =
      ((sections before).1, (sections before).2 ++ ⟨extra, .other keyword, []⟩ :: (sections after).2) := by
  have own : sections (extra :: after) = ([], ⟨extra, .other keyword, []⟩ :: (sections after).2) := by
    have none : (sections ([] ++ after)).1 = [] := congrArg Prod.fst (sections_append directive)
    rw [List.nil_append] at none
    rw [sections, unknown]
    simp [none]
  rw [sections_append (by simp [unknown]), own]

/-- A line of an unknown directive without rows below it declares nothing. -/
theorem Section.declaration_other (models : List Model) (extra : Line) (keyword : String) :
    (⟨extra, .other keyword, []⟩ : Section).declaration models =
      .emit (.skipped keyword extra.number) >>= fun _ => pure none := rfl

theorem Model.declarations_lengthened (models : List Model) (body : m.body = before ++ after)
    (unknown : extra.directive = some (.other keyword))
    (directive : ∀ l ∈ after.head?, l.directive.isSome) :
    (m.declarations models).Gains [.skipped keyword extra.number]
      (({ m with body := before ++ extra :: after } : Model).declarations models) := by
  unfold declarations
  simp only [body, sections_append directive, sections_lengthened unknown directive, List.mapM_append,
    List.mapM_cons, Section.declaration_other, bind_assoc, pure_bind]
  refine .behind _ fun _ => .behind _ fun ds => ?_
  have skipped (ds' : List (Option Declaration)) :
      (ds ++ none :: ds').filterMap id = (ds ++ ds').filterMap id := by simp
  simp only [skipped]
  exact .here _ _

/-- The definition without the lines that it was read from, which its circuit does not show. -/
def Definition.bare (d : Definition) : Definition := { d with model := { d.model with body := [] } }

theorem ofDefinitions_bare (ds : List Definition) :
    Contents.ofDefinitions (ds.map Definition.bare) = Contents.ofDefinitions ds := by
  have circuits : (ds.map Definition.bare).mapM Definition.circuit = ds.mapM Definition.circuit := by
    rw [List.mapM_map]
    rfl
  rw [Contents.ofDefinitions, Contents.ofDefinitions, circuits, List.flatMap_map]
  rfl

theorem Lengthened.definition_eq (lengthened : Lengthened extra models models') :
    Model.definition models' = Model.definition models := by
  have uses : Subcircuit.ofArgs models' = Subcircuit.ofArgs models :=
    Subcircuit.ofArgs_congr lengthened.ports
  funext m
  unfold Model.definition Model.declarations Section.declaration
  rw [uses]

theorem Lengthened.definitions (lengthened : Lengthened extra models models') (known : List Model)
    (unknown : extra.directive = some (.other keyword)) :
    (List.map Definition.bare <$> models.mapM (Model.definition known)).Gains
      [.skipped keyword extra.number]
      (List.map Definition.bare <$> models'.mapM (Model.definition known)) := by
  cases lengthened with
  | intro earlier later body directive =>
    simp only [List.mapM_append, List.mapM_cons, map_bind, map_pure, bind_assoc, pure_bind,
      List.map_append, List.map_cons]
    refine .behind _ fun ds => ?_
    rw [Model.definition, Model.definition, bind_assoc, bind_assoc]
    exact (Model.declarations_lengthened known body unknown directive).bind _

/-! ### Texts -/

theorem ofLogical_head {l : LogicalLine} (reads : Line.ofLogical l = .ok line) :
    line.directive = l.directive? ∧ line.number = l.number := by
  unfold Line.ofLogical at reads
  dsimp only at reads
  split at reads
  · obtain rfl := Except.ok.inj reads
    exact ⟨rfl, rfl⟩
  · cases reads

theorem map_directive {lines : List LogicalLine} {tokens : List Line}
    (read : lines.mapM Line.ofLogical = .ok tokens) :
    tokens.map Line.directive = lines.map LogicalLine.directive? := by
  have each := mapM_eq_ok.mp read
  clear read
  induction each with
  | nil => rfl
  | cons here _ ih => rw [List.map_cons, List.map_cons, ih, (ofLogical_head here).1]

section

variable {before after : List LogicalLine} {extra next : LogicalLine}

/-- The new line is among those of the shorter text, if these can be read. -/
theorem tokens_lengthened (before after : List LogicalLine) (next : LogicalLine)
    (reads : Line.ofLogical extra = .ok line) :
    Alike (fun lines lines' => ∃ above here below,
        before.mapM Line.ofLogical = .ok above ∧ Line.ofLogical next = .ok here ∧
        lines = above ++ here :: below ∧ lines' = above ++ line :: here :: below)
      ((before ++ next :: after).mapM Line.ofLogical)
      ((before ++ extra :: next :: after).mapM Line.ofLogical) := by
  simp only [List.mapM_append, List.mapM_cons, reads]
  cases before.mapM Line.ofLogical with
  | error e => exact .error e
  | ok above =>
    cases Line.ofLogical next with
    | error e => exact .error e
    | ok here =>
      cases after.mapM Line.ofLogical with
      | error e => exact .error e
      | ok below => exact .ok ⟨above, here, below, rfl, rfl, rfl, rfl⟩

theorem definitions_lengthened (inside : modelOpen (before.map LogicalLine.directive?))
    (directive : next.directive?.isSome) (reads : Line.ofLogical extra = .ok line)
    (unknown : line.directive = some (.other keyword)) :
    (List.map Definition.bare <$> Contents.definitions (before ++ next :: after)).Gains
      [.skipped keyword extra.number]
      (List.map Definition.bare <$> Contents.definitions (before ++ extra :: next :: after)) := by
  simp only [Contents.definitions, map_bind]
  refine .ofExcept ((tokens_lengthened before after next reads).mapError _) ?_
  rintro _ _ ⟨above, here, below, read, readNext, rfl, rfl⟩
  have isOpen : modelOpen (above.map Line.directive) := by rwa [map_directive read]
  refine .behind _ fun _ => ?_
  have directive' : here.directive.isSome := by rwa [(ofLogical_head readNext).1]
  refine .ofExcept ((ofLines_lengthened isOpen unknown directive').mapError _) ?_
  intro models models' lengthened
  refine .behind _ fun _ => ?_
  rw [lengthened.definition_eq, ← (ofLogical_head reads).2, Traced.map_mapError, Traced.map_mapError]
  exact (lengthened.definitions models unknown).mapError _

end

def LogicalLine.warning : LogicalLine × String → Event
  | (line, keyword) => .skipped keyword line.number

theorem Extended.gains {lines lines' : List LogicalLine} {added : List (LogicalLine × String)}
    (extended : Extended lines added lines') :
    (List.map Definition.bare <$> Contents.definitions lines).Gains (added.map LogicalLine.warning)
      (List.map Definition.bare <$> Contents.definitions lines') := by
  induction extended with
  | refl => exact .refl _
  | insert _ inside directive reads unknown ih =>
    exact ih.trans (definitions_lengthened inside directive reads unknown)

theorem ofDefinitions_map_bare (x : Load (List Definition)) :
    (List.map Definition.bare <$> x) >>= Contents.ofDefinitions = x >>= Contents.ofDefinitions := by
  rw [bind_map_left]
  exact bind_congr ofDefinitions_bare

/-- The bodies of all models of the text are read to the end. -/
def BodiesRead (text : String) : Prop :=
  ∃ ds, (Contents.definitions (LogicalLine.ofText text)).outcome = .ok ds

variable {text text' : String} {f : Nat → Nat} {added : List (LogicalLine × String)}

theorem ofText_extended
    (extended : Extended ((LogicalLine.ofText text).map (LogicalLine.renumber f)) added
      (LogicalLine.ofText text')) :
    ∃ reached, reached.Sublist added ∧ (BodiesRead text → reached = added) ∧
      ((Contents.ofText text).relabel (Event.renumber f) (LoadError.renumber f) id).Adds
        (reached.map LogicalLine.warning) (Contents.ofText text') := by
  obtain ⟨told, part, adds, all⟩ := extended.gains
  obtain ⟨reached, inside, rfl⟩ := List.sublist_map_iff.mp part
  -- The shorter text with the numbers that its lines have in the longer one.
  have same : (Contents.ofText text).relabel (Event.renumber f) (LoadError.renumber f) id =
      List.map Definition.bare <$>
        Contents.definitions ((LogicalLine.ofText text).map (.renumber f)) >>=
          Contents.ofDefinitions := by
    rw [ofDefinitions_map_bare, ofText_eq_definitions]
    exact (Traced.relabel_bind (Contents.definitions_renumber f _)
      (Contents.ofDefinitions_renumber f)).symm
  rw [same, ofText_eq_definitions text', ← ofDefinitions_map_bare (Contents.definitions _)]
  refine ⟨reached, inside, ?_, adds.bind _⟩
  rintro ⟨ds, read⟩
  have renumbered : (Contents.definitions ((LogicalLine.ofText text).map (.renumber f))).outcome =
      .ok (ds.map (Definition.renumber f)) := by
    rw [Contents.definitions_renumber]
    exact congrArg (relabel _ _) read
  have bare : (List.map Definition.bare <$>
      Contents.definitions ((LogicalLine.ofText text).map (.renumber f))).outcome =
        .ok ((ds.map (Definition.renumber f)).map Definition.bare) := by
    rw [map_eq_pure_bind, Traced.bind_of_ok renumbered]
    rfl
  exact inside.eq_of_length (by simpa using congrArg List.length (all _ bare))

/-- Lines that are skipped change the log only. A text with such lines in its models, each before a line
of a directive, is loaded as the text without them, but for the line number of an error, and the same
faults are reported. The log of reading has a warning for each of the lines besides, if the bodies of all
models can be read, and otherwise for some of them; the rest of the log is the same. -/
theorem load_skips
    (extended : Extended ((LogicalLine.ofText text).map (LogicalLine.renumber f)) added
      (LogicalLine.ofText text'))
    (file : Option String) (id : DesignId) :
    (load text' file id).outcome = (load text file id).outcome.mapError (LoadError.renumber f) ∧
    (∀ n, (load text file id).outcome = .ok n →
      faults (load text' file id).events = faults (load text file id).events) ∧
    (∀ e, (load text file id).outcome = .error e → ∃ warned,
      faults (load text file id).events = warned ++ [e.message] ∧
      faults (load text' file id).events = warned ++ [(e.renumber f).message]) ∧
    ∃ read read' linked reached,
      (load text file id).events = read ++ linked ++ ending (load text file id).outcome ∧
      (load text' file id).events = read' ++ linked ++ ending (load text' file id).outcome ∧
      (read.map (Event.renumber f)).Sublist read' ∧
      read'.Perm (reached.map LogicalLine.warning ++ read.map (Event.renumber f)) ∧
      reached.Sublist added ∧ (BodiesRead text → reached = added) := by
  obtain ⟨reached, part, all, outcome, kept, whole⟩ := ofText_extended extended
  have read : (Contents.ofText text').outcome =
      (Contents.ofText text).outcome.mapError (LoadError.renumber f) := by
    rw [outcome, ← relabel_id]
    rfl
  have ends := load_outcome_renumber read file id
  have linked := linkLog_mapError (Contents.ofText text).outcome (LoadError.renumber f) file id
  rw [← read] at linked
  refine ⟨ends, ?_, ?_, ?_⟩
  · intro n loaded
    rw [load_faults_eq, load_faults_eq, linked, ends, loaded]
    rfl
  · intro e failed
    have failed' : (load text' file id).outcome = .error (e.renumber f) := by
      rw [ends, failed]
      rfl
    rw [load_faults_eq, load_faults_eq, linked, faults_ending failed, faults_ending failed']
    exact ⟨_, rfl, rfl⟩
  · refine ⟨_, _, _, reached, load_events text file id, ?_, kept, whole, part, all⟩
    rw [load_events, linked]

def resetBeforeExdc : String :=
  ".model top\n.inputs a\n.outputs y\n.latch a y\n.reset y\n1\n.exdc\n.end\n"

def skippedBehindReset : String :=
  ".model top\n.inputs a\n.outputs y\n.latch a y\n.reset y\n1\n.area 5\n.exdc\n" ++
  ".clock \"c 1\"\n.delay\n.end\n"

theorem load_skips_behindReset : ∃ n read read' linked,
    (load resetBeforeExdc none ⟨0⟩).outcome = .ok n ∧
    (load skippedBehindReset none ⟨0⟩).outcome = .ok n ∧
    (load resetBeforeExdc none ⟨0⟩).events = read ++ linked ∧
    (load skippedBehindReset none ⟨0⟩).events = read' ++ linked ∧
    read'.Perm ([.skipped "delay" 10, .skipped "clock" 9, .skipped "area" 7] ++
      read.map (Event.renumber fun n => if n < 7 then n else if n = 7 then 8 else 11)) := by
  let top : List LogicalLine := [⟨1, ".model top".toList⟩, ⟨2, ".inputs a".toList⟩,
    ⟨3, ".outputs y".toList⟩, ⟨4, ".latch a y".toList⟩, ⟨5, ".reset y".toList⟩, ⟨6, ['1']⟩]
  let area : LogicalLine := ⟨7, ".area 5".toList⟩
  let exdc : LogicalLine := ⟨8, ".exdc".toList⟩
  let clock : LogicalLine := ⟨9, ".clock \"c 1\"".toList⟩
  let delay : LogicalLine := ⟨10, ".delay".toList⟩
  let last : LogicalLine := ⟨11, ".end".toList⟩
  have unknown {l : LogicalLine} {keyword : String} (checked : (Line.ofLogical l).toOption.any
      fun line => decide (line.directive = some (.other keyword))) :
      ∃ line, Line.ofLogical l = .ok line ∧ line.directive = some (.other keyword) := by
    obtain ⟨line, reads, is⟩ := exists_ok_of_any checked
    exact ⟨line, reads, of_decide_eq_true is⟩
  obtain ⟨_, areaReads, isArea⟩ := @unknown area "area" (by decide +kernel)
  obtain ⟨_, clockReads, isClock⟩ := @unknown clock "clock" (by decide +kernel)
  obtain ⟨_, delayReads, isDelay⟩ := @unknown delay "delay" (by decide +kernel)
  have first : Extended (top ++ [exdc, last]) [(area, "area")] (top ++ [area, exdc, last]) :=
    .insert .refl (by decide +kernel) (by decide +kernel) areaReads isArea
  have second : Extended (top ++ [exdc, last]) [(clock, "clock"), (area, "area")]
      ((top ++ [area, exdc]) ++ [clock, last]) :=
    .insert first (by decide +kernel) (by decide +kernel) clockReads isClock
  have third : Extended (top ++ [exdc, last]) [(delay, "delay"), (clock, "clock"), (area, "area")]
      ((top ++ [area, exdc, clock]) ++ [delay, last]) :=
    .insert second (by decide +kernel) (by decide +kernel) delayReads isDelay
  have lines : (LogicalLine.ofText resetBeforeExdc).map
      (LogicalLine.renumber fun n => if n < 7 then n else if n = 7 then 8 else 11) =
        top ++ [exdc, last] := by
    decide +kernel
  have lines' : LogicalLine.ofText skippedBehindReset =
      (top ++ [area, exdc, clock]) ++ [delay, last] := by
    decide +kernel
  rw [← lines, ← lines'] at third
  obtain ⟨outcome, -, -, read, read', linked, reached, log, log', -, whole, -, all⟩ :=
    load_skips third none ⟨0⟩
  obtain ⟨ds, bodies, -⟩ := exists_ok_of_any
    (x := (Contents.definitions (LogicalLine.ofText resetBeforeExdc)).outcome) (p := fun _ => true)
    (by decide +kernel)
  obtain ⟨n, loaded, -⟩ := exists_ok_of_any (x := (load resetBeforeExdc none ⟨0⟩).outcome)
    (p := fun _ => true) (by decide +kernel)
  rw [loaded] at outcome log
  rw [outcome] at log'
  obtain rfl := all ⟨ds, bodies⟩
  refine ⟨n, read, read', linked, loaded, outcome, ?_, ?_, whole⟩
  · rw [log, ending, List.append_nil]
  · rw [log', Except.mapError, ending, List.append_nil]

end Blif

end Netlist
