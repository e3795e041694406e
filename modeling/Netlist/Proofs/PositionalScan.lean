import Netlist.Proofs.PositionalTokens
import Netlist.Proofs.Scan

/-!
# Ranges of bodies

While lines are scanned the drafts of the positional reader follow the models of the scan. A draft
has the name and the ports of its model, and the range from its start to its stop, or to the line at
hand while the model is open, holds the lines of the model's body. The table of names leads to the
first declared model of each name.
-/

namespace Netlist.Blif.Positional

variable {lines : List Line} {line : Line} {index : Nat} {k : Draft} {m : Model} {ms : List Model}
  {names : List (String × Nat)}

structure Draft.Unread (k : Draft) : Prop where
  tables : k.tables = []
  latches : k.latches = []
  resets : k.resets = []
  subcircuits : k.subcircuits = []
  circuit : k.circuit = none

/-- The draft is that of a model whose body consists of the lines from the start up to `stop`. -/
structure Draft.Shows (lines : List Line) (stop : Nat) (k : Draft) (m : Model) : Prop where
  name : k.name = m.name
  header : k.header = m.header
  inputs : k.inputs = m.inputs
  outputs : k.outputs = m.outputs
  blackbox : k.blackbox = m.blackbox
  unread : k.Unread
  ordered : k.start ≤ stop
  inside : stop ≤ lines.length
  body : (lines.drop k.start).take (stop - k.start) = m.body

def Draft.Ended (lines : List Line) (k : Draft) (m : Model) : Prop := k.Shows lines k.stop m

/-- The range of a body grows by the line at hand. -/
theorem body_grow {start : Nat} {body : List Line} (ordered : start ≤ index)
    (here : lines[index]? = some line) (shown : (lines.drop start).take (index - start) = body) :
    (lines.drop start).take (index + 1 - start) = body ++ [line] := by
  have size : index + 1 - start = index - start + 1 := by omega
  have next : (lines.drop start)[index - start]? = some line := by
    rw [List.getElem?_drop, Nat.add_sub_cancel' ordered, here]
  rw [size, List.take_add_one, shown, next]
  rfl

theorem Draft.Shows.grow (shows : k.Shows lines index m) (here : lines[index]? = some line) :
    k.Shows lines (index + 1) { m with body := m.body ++ [line] } where
  name := shows.name
  header := shows.header
  inputs := shows.inputs
  outputs := shows.outputs
  blackbox := shows.blackbox
  unread := shows.unread
  ordered := Nat.le_succ_of_le shows.ordered
  inside := (List.getElem?_eq_some_iff.mp here).1
  body := body_grow shows.ordered here shows.body

/-- The drafts follow the models of a scan that has come to line `index`. -/
inductive Follows (lines : List Line) (index : Nat) : Scan → List Draft → Option Nat → Prop where
  | closed {drafts : List Draft} {ended : List Model}
      (shown : List.Forall₂ (Draft.Ended lines) drafts ended) :
      Follows lines index ⟨ended, none⟩ drafts none
  | opened {drafts : List Draft} {ended : List Model} {k : Draft} {m : Model}
      (shown : List.Forall₂ (Draft.Ended lines) drafts ended) (shows : k.Shows lines index m) :
      Follows lines index ⟨ended, some m⟩ (drafts ++ [k]) (some drafts.length)

/-- The table of names gives the position of the first declared model of a name. -/
def Indexed (names : List (String × Nat)) (ms : List Model) : Prop :=
  ∀ name, names.lookup name = ms.findIdx? fun m => m.declared && m.name = name

theorem indexed_nil : Indexed [] [] := fun _ => rfl

theorem Indexed.replaceLast (indexed : Indexed names (ms ++ [m])) {m' : Model}
    (name : m'.name = m.name) (declared : m'.declared = m.declared) : Indexed names (ms ++ [m']) := by
  intro other
  rw [indexed other, List.findIdx?_append, List.findIdx?_append]
  simp [List.findIdx?_cons, name, declared]

theorem Indexed.undeclared (indexed : Indexed names ms) (undeclared : m.declared = false) :
    Indexed names (ms ++ [m]) := by
  intro name
  rw [indexed name, List.findIdx?_append]
  simp [List.findIdx?_cons, undeclared]

theorem Indexed.declared (indexed : Indexed names ms) (declared : m.declared = true)
    (new : findModel? ms m.name = none) : Indexed (names ++ [(m.name, ms.length)]) (ms ++ [m]) := by
  intro name
  have absent : ms.findIdx? (fun k => k.declared && k.name = m.name) = none := by
    rw [List.findIdx?_eq_none_iff]
    intro k member
    simpa using List.find?_eq_none.mp new k member
  rw [List.lookup_append, indexed name, List.findIdx?_append]
  by_cases same : m.name = name
  · subst same
    simp [absent, List.findIdx?_cons, declared]
  · have other : (name == m.name) = false := by simpa using Ne.symm same
    simp [List.lookup_cons, List.findIdx?_cons, other, same]

/-- A name is in the table exactly if it is that of a declared model. -/
theorem Indexed.isSome (indexed : Indexed names ms) (name : String) :
    (names.lookup name).isSome = (findModel? ms name).isSome := by
  rw [indexed name, findModel?, List.findIdx?_isSome, List.isSome_find?]

/-- The table leads to the model that others mean by a name. -/
theorem Indexed.findModel? (indexed : Indexed names ms) (name : String) :
    findModel? ms name = (names.lookup name).bind (ms[·]?) := by
  rw [indexed name, Blif.findModel?, List.find?_eq_bind_findIdx?_getElem?]

theorem entry_append {α : Type} (l : List α) (a : α) : entry (l ++ [a]) l.length = pure a := by
  simp [entry]

theorem set_append {α : Type} (l : List α) (a b : α) : (l ++ [a]).set l.length b = l ++ [b] := by
  simp

namespace Reader

variable {r : Reader} {s : Scan}

def rescanned (r : Reader) (models : List Draft) (names : List (String × Nat)) (current : Option Nat) :
    Reader :=
  { r with models := models, names := names, current := current }

/-- The two scans agree on a line: both refuse it for the same defect, or both go on. -/
inductive StepsAlike (lines : List Line) (index : Nat) (line : Line) (s : Scan) (r : Reader) : Prop where
  | refused (defect : Defect) (scan : s.addLine line = .error defect)
      (reader : r.scanLine index line = r.refuse line.number defect)
  | taken (t : Scan) (models : List Draft) (names : List (String × Nat)) (current : Option Nat)
      (scan : s.addLine line = .ok t)
      (reader : r.scanLine index line = pure (r.rescanned models names current))
      (follows : Follows lines (index + 1) t models current) (indexed : Indexed names t.models)

/-- Outside of a model only a `.model` line is taken. -/
theorem scanLine_closed {drafts : List Draft} {ended : List Model}
    (shown : List.Forall₂ (Draft.Ended lines) drafts ended) (here : lines[index]? = some line)
    (indexed : Indexed r.names ended) (models : r.models = drafts) (closed : r.current = none) :
    StepsAlike lines index line ⟨ended, none⟩ r := by
  cases directive : line.directive with
  | none =>
    apply StepsAlike.refused .rowOutsideModel
    · simp [Scan.addLine, directive]
    · simp [scanLine, directive, closed]
  | some d =>
    by_cases isModel : d = .model
    · subst isModel
      have scan : (⟨ended, none⟩ : Scan).addLine line = (⟨ended, none⟩ : Scan).openModel line := by
        simp [Scan.addLine, directive]
      have reader : r.scanLine index line = r.openModel index line := by
        simp [scanLine, directive]
      rcases args : line.args with _ | ⟨name, _ | ⟨second, more⟩⟩
      · apply StepsAlike.refused .modelArguments
        · simp [scan, Scan.openModel, args]
        · simp [reader, openModel, args, closed]
      · -- one name, which opens a model if it is new
        have known := indexed.isSome name
        by_cases twice : (findModel? ended name).isSome
        · apply StepsAlike.refused (.modelTwice name)
          · simp [scan, Scan.openModel, args, twice]
          · simp [reader, openModel, args, closed, known, twice]
        · have new : findModel? ended name = none := by simpa using twice
          refine .taken _ _ _ _ (by simp [scan, Scan.openModel, args, new]; rfl)
            (by simp [reader, openModel, args, closed, known, new]; rfl) ?_ ?_
          · rw [models]
            refine .opened shown ⟨rfl, rfl, rfl, rfl, rfl, ⟨rfl, rfl, rfl, rfl, rfl⟩, ?_, ?_, ?_⟩
            · exact Nat.le_refl _
            · exact (List.getElem?_eq_some_iff.mp here).1
            · simp
          · rw [models, shown.length_eq]
            exact indexed.declared (m := { name := name, header := line.number, declared := true })
              rfl new
      · apply StepsAlike.refused .modelArguments
        · simp [scan, Scan.openModel, args]
        · simp [reader, openModel, args, closed]
    · apply StepsAlike.refused .directiveOutsideModel
      · cases d <;> simp_all [Scan.addLine]
      · cases d <;> simp_all [scanLine]

/-- Within a model every line is taken that does not open another one. -/
theorem scanLine_opened {drafts : List Draft} {ended : List Model}
    (shown : List.Forall₂ (Draft.Ended lines) drafts ended) (shows : k.Shows lines index m)
    (here : lines[index]? = some line) (indexed : Indexed r.names (ended ++ [m]))
    (models : r.models = drafts ++ [k]) (opened : r.current = some drafts.length) :
    StepsAlike lines index line ⟨ended, some m⟩ r := by
  have at_last : entry r.models drafts.length = pure k := by
    rw [models]
    exact entry_append drafts k
  have put_last (k' : Draft) : (r.put drafts.length k').models = drafts ++ [k'] := by
    simp only [put, models]
    exact set_append drafts k k'
  have grown := shows.grow here
  -- A line of the body goes to the draft that is open, and may change its ports.
  have takes (k' : Draft) (m' : Model)
      (scan : (⟨ended, some m⟩ : Scan).addLine line = .ok ⟨ended, some m'⟩)
      (reader : r.scanLine index line =
        pure (r.rescanned (drafts ++ [k']) r.names (some drafts.length)))
      (shows : k'.Shows lines (index + 1) m') (name : m'.name = m.name)
      (declared : m'.declared = m.declared) : StepsAlike lines index line ⟨ended, some m⟩ r :=
    .taken _ _ _ _ scan reader (.opened shown shows) (indexed.replaceLast name declared)
  have unchanged : r = r.rescanned (drafts ++ [k]) r.names (some drafts.length) := by
    rw [← models, ← opened]
    rfl
  have changed (k' : Draft) : r.put drafts.length k' =
      r.rescanned (drafts ++ [k']) r.names (some drafts.length) := by
    rw [← put_last, ← opened]
    rfl
  cases directive : line.directive with
  | none =>
    refine takes k { m with body := m.body ++ [line] } ?_ ?_ grown rfl rfl
    · simp [Scan.addLine, directive, Model.addLine]
    · simp only [scanLine, directive, opened, Option.isNone_some, Bool.false_eq_true, if_false]
      exact congrArg _ unchanged
  | some d =>
    cases d with
    | model =>
      refine .refused (.notTerminated m.name) ?_ ?_
      · simp [Scan.addLine, directive, Scan.openModel]
      · simp [scanLine, directive, openModel, opened, at_last, shows.name]
    | inputs =>
      refine takes { k with inputs := k.inputs ++ line.args }
        { m with body := m.body ++ [line], inputs := m.inputs ++ line.args } ?_ ?_ ?_ rfl rfl
      · simp [Scan.addLine, directive, Model.addLine]
      · simp only [scanLine, directive, opened, at_last, pure_bind]
        exact congrArg _ (changed _)
      · exact { grown with inputs := by simp [shows.inputs], unread := { grown.unread with } }
    | outputs =>
      refine takes { k with outputs := k.outputs ++ line.args }
        { m with body := m.body ++ [line], outputs := m.outputs ++ line.args } ?_ ?_ ?_ rfl rfl
      · simp [Scan.addLine, directive, Model.addLine]
      · simp only [scanLine, directive, opened, at_last, pure_bind]
        exact congrArg _ (changed _)
      · exact { grown with outputs := by simp [shows.outputs], unread := { grown.unread with } }
    | blackbox =>
      refine takes { k with blackbox := true }
        { m with body := m.body ++ [line], blackbox := true } ?_ ?_ ?_ rfl rfl
      · simp [Scan.addLine, directive, Model.addLine]
      · simp only [scanLine, directive, opened, at_last, pure_bind]
        exact congrArg _ (changed _)
      · exact { grown with blackbox := rfl, unread := { grown.unread with } }
    | exdc =>
      have stopped : Draft.Ended lines { k with stop := index } m :=
        { shows with unread := { shows.unread with } }
      have ended' := List.rel_append shown (.cons stopped .nil)
      refine .taken _ _ _ _ (by simp [Scan.addLine, directive]; rfl)
        (by simp only [scanLine, directive, opened, at_last, pure_bind]; rfl) ?_ ?_
      · rw [put_last]
        refine .opened ended' ⟨rfl, rfl, shows.inputs, shows.outputs, rfl, ⟨rfl, rfl, rfl, rfl, rfl⟩,
          ?_, ?_, ?_⟩
        · exact Nat.le_refl _
        · exact (List.getElem?_eq_some_iff.mp here).1
        · simp [Model.openExdc]
      · exact indexed.undeclared rfl
    | endModel =>
      have stopped : Draft.Ended lines { k with stop := index } m :=
        { shows with unread := { shows.unread with } }
      have ended' := List.rel_append shown (.cons stopped .nil)
      refine .taken _ _ _ _ (by simp [Scan.addLine, directive]; rfl)
        (by simp only [scanLine, directive, opened, at_last, pure_bind]; rfl) ?_ ?_
      · rw [put_last]
        exact .closed ended'
      · have same : Scan.models ⟨ended ++ [m], none⟩ = ended ++ [m] := by simp [Scan.models]
        rw [same]
        exact indexed
    | _ =>
      refine takes k { m with body := m.body ++ [line] } ?_ ?_ grown rfl rfl
      · simp [Scan.addLine, directive, Model.addLine]
      · simp only [scanLine, directive, opened, at_last, pure_bind]
        exact congrArg _ unchanged

theorem scanLine_follows (follows : Follows lines index s r.models r.current)
    (indexed : Indexed r.names s.models) (here : lines[index]? = some line) :
    StepsAlike lines index line s r := by
  generalize models : r.models = drafts at follows
  generalize current : r.current = position at follows
  cases follows with
  | @closed drafts ended shown =>
    have indexed : Indexed r.names ended := by simpa [Scan.models] using indexed
    exact scanLine_closed shown here indexed models current
  | opened shown shows => exact scanLine_opened shown shows here indexed models current

/-- The scans agree on the rest of the lines too. -/
theorem scanLines_follows {done : List Line} (todo : List Line) (whole : lines = done ++ todo)
    (follows : Follows lines done.length s r.models r.current) (indexed : Indexed r.names s.models) :
    (∃ e, s.addLines todo = .error e ∧ scanLines done.length todo r = ofRead r.stage (.error e)) ∨
      ∃ t models names current, s.addLines todo = .ok t ∧
        scanLines done.length todo r = pure (r.rescanned models names current) ∧
        Follows lines lines.length t models current ∧ Indexed names t.models := by
  induction todo generalizing s r done with
  | nil =>
    refine .inr ⟨s, r.models, r.names, r.current, rfl, rfl, ?_, indexed⟩
    rw [whole, List.append_nil] at follows ⊢
    exact follows
  | cons line todo ih =>
    have here : lines[done.length]? = some line := by simp [whole]
    cases scanLine_follows follows indexed here with
    | refused defect scan reader =>
      refine .inl ⟨.inLine line.number defect, by simp [Scan.addLines, scan], ?_⟩
      rw [scanLines, reader]
      rfl
    | taken t models names current scan reader follows indexed =>
      have shorter : lines = (done ++ [line]) ++ todo := by simp [whole]
      have size : (done ++ [line]).length = done.length + 1 := by simp
      have rest := ih (r := r.rescanned models names current) shorter (by rw [size]; exact follows) indexed
      have scanned : s.addLines (line :: todo) = t.addLines todo := by simp [Scan.addLines, scan]
      rw [scanned, scanLines, reader, pure_bind, ← size]
      exact rest

def preparsed (lines : List Line) : Reader := { stage := .preparsed, lines := lines }

def scanned (lines : List Line) (drafts : List Draft) (names : List (String × Nat)) : Reader :=
  { stage := .interfacesScanned, lines := lines, models := drafts, names := names }

/-- The ranges and positions found are right for the models of the scan. -/
theorem readInterfaces_eq (lines : List Line) :
    (∃ e, Model.ofLines lines = .error e ∧
        (preparsed lines).readInterfaces = ofRead .preparsed (.error e)) ∨
      ∃ ms drafts names, Model.ofLines lines = .ok ms ∧
        (preparsed lines).readInterfaces =
          (Traced.emit (.advanced .preparsed .interfacesScanned) >>= fun _ =>
            pure (scanned lines drafts names)) ∧
        List.Forall₂ (Draft.Ended lines) drafts ms ∧ Indexed names ms := by
  have start : Follows lines ([] : List Line).length {} (preparsed lines).models
      (preparsed lines).current := .closed .nil
  have whole : lines = [] ++ lines := rfl
  have scan := scanLines_follows lines whole start indexed_nil
  have unfolded : (preparsed lines).readInterfaces = scanLines 0 lines (preparsed lines) >>= endScan := rfl
  rw [unfolded]
  rcases scan with ⟨e, refused, reader⟩ | ⟨t, drafts, names, current, taken, reader, follows, indexed⟩
  · refine .inl ⟨e, by simp [Model.ofLines, refused, Bind.bind, Except.bind], ?_⟩
    have reader : scanLines 0 lines (preparsed lines) = ofRead .preparsed (.error e) := reader
    rw [reader]
    rfl
  · have reader : scanLines 0 lines (preparsed lines) =
        pure ((preparsed lines).rescanned drafts names current) := reader
    have finish : Model.ofLines lines = t.finish := by
      simp [Model.ofLines, taken, Bind.bind, Except.bind]
    rw [finish, reader, pure_bind]
    cases follows with
    | opened shown shows =>
      refine .inl ⟨_, by simp [Scan.finish]; rfl, ?_⟩
      simp [endScan, rescanned, entry_append, shows.name, shows.header, refuse, preparsed]
    | @closed drafts ended shown =>
      by_cases empty : ended = []
      · subst empty
        cases shown
        exact .inl ⟨.noModels, rfl, rfl⟩
      · refine .inr ⟨ended, drafts, names, by simp [Scan.finish, empty], ?_, shown, ?_⟩
        · have some : drafts ≠ [] := by
            intro none
            subst none
            cases shown
            exact empty rfl
          simp [endScan, rescanned, some, advance, preparsed, scanned]
        · simpa [Scan.models] using indexed

end Reader

end Netlist.Blif.Positional
