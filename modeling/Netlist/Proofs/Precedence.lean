import Netlist.Proofs.Linking
import Netlist.Proofs.Lowering
import Netlist.Proofs.OpenStrings
import Netlist.Proofs.OrdinaryEvents
import Netlist.Proofs.Problems

/-!
# Which of several failures is reported

A text may break any number of rules. The rules come in an order: strings, interfaces, bodies, resets,
circuits, cycles. The first broken one is reported, at the first place that breaks it, and it matters
neither for this nor for the log what later rules say.
-/

namespace Netlist

def Stage.order : List Stage := [.empty, .preparsed, .interfacesScanned, .parsed]

def Stage.upTo (s : Stage) : List Stage := order.take (order.idxOf s + 1)

def advances (stages : List Stage) : List Event := stages.zipWith .advanced stages.tail

/-- What a log says of the stages. -/
def stageLog (events : List Event) : List Event := events.filter Event.isStage

theorem stageLog_append (before after : List Event) :
    stageLog (before ++ after) = stageLog before ++ stageLog after :=
  List.filter_append before after

theorem Traced.Tells.stageLog_eq_nil {ε α : Type} {x : Traced ε α}
    (stageless : x.Tells (·.isStage = false)) : stageLog x.events = [] := by
  rw [stageLog, List.filter_eq_nil_iff]
  intro e member
  simp [stageless e member]

namespace Blif

open Traced

/-! ### Reading -/

def Reset.Known (r : Reset) (b : Body) : Prop := ∃ l ∈ b.latches, l.output = r.latch

/-- Reading refuses a text, after the given stage: for the first broken rule, at the first place that
breaks it. -/
inductive Refused (text : String) : Stage → ReadError → Prop
  | openString {before after : List LogicalLine} {line : LogicalLine}
      (divided : LogicalLine.ofText text = before ++ line :: after)
      (earlier : ∀ l ∈ before, Even l.quotes) (here : Odd line.quotes) :
      Refused text .empty (.inLine line.number (.malformed (expectedAt line.text)))
  | interfaces {lines : List Line} {e : ReadError} (read : Line.ofText text = .ok lines)
      (here : Model.ofLines lines = .error e) : Refused text .preparsed e
  | body {lines : List Line} {models before after : List Model} {m : Model} {e : ReadError}
      (read : Line.ofText text = .ok lines) (scanned : Model.ofLines lines = .ok models)
      (divided : models = before ++ m :: after)
      (earlier : ∀ m ∈ before, ∃ d, (m.definition models).outcome = .ok d)
      (here : (m.definition models).outcome = .error e) : Refused text .interfacesScanned e
  | reset {lines : List Line} {models : List Model} {definitions before after : List Definition}
      {d : Definition} {resets later : List Reset} {r : Reset}
      (read : Line.ofText text = .ok lines) (scanned : Model.ofLines lines = .ok models)
      (bodies : List.Forall₂ (fun m d => (m.definition models).outcome = .ok d) models definitions)
      (divided : definitions = before ++ d :: after)
      (earlier : ∀ d ∈ before, ∀ r ∈ d.body.resets, r.Known d.body)
      (declared : d.body.resets = resets ++ r :: later)
      (above : ∀ r ∈ resets, r.Known d.body) (here : ¬r.Known d.body) :
      Refused text .interfacesScanned (.inLine r.line (.notALatch r.latch))

theorem Body.checkResets_eq_error {b : Body} {e : ReadError} : b.checkResets = .error e ↔
    ∃ before r after, b.resets = before ++ r :: after ∧ (∀ r ∈ before, r.Known b) ∧ ¬r.Known b ∧
      e = .inLine r.line (.notALatch r.latch) := by
  have unknown (r : Reset) : b.latches.all (·.output ≠ r.latch) = true ↔ ¬r.Known b := by
    simp [Reset.Known]
  have known (r : Reset) : (!b.latches.all (·.output ≠ r.latch)) = true ↔ r.Known b := by
    simp [Reset.Known]
  have first {r : Reset} : b.resets.find? (fun r => b.latches.all (·.output ≠ r.latch)) = some r ↔
      ¬r.Known b ∧ ∃ before after, b.resets = before ++ r :: after ∧ ∀ r ∈ before, r.Known b := by
    simp only [List.find?_eq_some_iff_append, unknown, known]
  unfold checkResets
  constructor
  · intro failed
    split at failed
    next r found =>
      obtain ⟨here, before, after, divided, earlier⟩ := first.mp found
      exact ⟨before, r, after, divided, earlier, here, (Except.error.inj failed).symm⟩
    next => cases failed
  · rintro ⟨before, r, after, divided, earlier, here, rfl⟩
    rw [first.mpr ⟨here, before, after, divided, earlier⟩]

theorem circuits_eq_error {ds : List Definition} {e : LoadError} :
    (ds.mapM fun d => d.circuit.outcome) = .error e ↔
      ∃ before d after error, ds = before ++ d :: after ∧
        (∀ d ∈ before, d.body.checkResets = .ok ()) ∧ d.body.checkResets = .error error ∧
        e = .rejected .interfacesScanned error := by
  have accepted (d : Definition) :
      (∃ c, d.circuit.outcome = .ok c) ↔ d.body.checkResets = .ok () := by
    rw [d.outcome_circuit]
    cases d.body.checkResets <;> simp [Except.mapError, Bind.bind, Except.bind]
  have refused (d : Definition) : d.circuit.outcome = .error e ↔
      ∃ error, d.body.checkResets = .error error ∧ e = .rejected .interfacesScanned error := by
    rw [d.outcome_circuit]
    cases d.body.checkResets <;> simp [Except.mapError, Bind.bind, Except.bind, eq_comm]
  simp only [Outcome.mapM_eq_error_iff, accepted, refused]
  constructor
  · rintro ⟨before, d, after, divided, earlier, error, here, is⟩
    exact ⟨before, d, after, error, divided, earlier, here, is⟩
  · rintro ⟨before, d, after, error, divided, earlier, here, is⟩
    exact ⟨before, d, after, divided, earlier, error, here, is⟩

theorem ofText_eq_error {text : String} {stage : Stage} {e : ReadError} :
    (Contents.ofText text).outcome = .error (.rejected stage e) ↔ Refused text stage e := by
  simp only [Contents.ofText, outcome_bind, outcome_emit, Load.ofRead, outcome_ofExcept,
    outcome_mapError, Outcome.bind_eq_error, Outcome.mapError_eq_ok, Outcome.mapError_eq_error,
    outcome_pure, circuits_eq_error, LoadError.rejected.injEq, reduceCtorEq, false_or, true_and,
    and_false, or_false, exists_const, outcome_mapM, Outcome.mapM_eq_ok]
  constructor
  · rintro (⟨_, read, rfl, rfl⟩ | ⟨lines, read, ⟨_, scanned, rfl, rfl⟩ | ⟨models, scanned,
      ⟨_, bodies, rfl, rfl⟩ |
      ⟨definitions, bodies, before, d, after, _, divided, earlier, refused, rfl, rfl⟩⟩⟩)
    · obtain ⟨before, line, after, divided, earlier, here, rfl⟩ := Line.ofText_eq_error.mp read
      exact .openString divided earlier here
    · exact .interfaces read scanned
    · obtain ⟨before, m, after, divided, earlier, here⟩ := Outcome.mapM_eq_error_iff.mp bodies
      exact .body read scanned divided earlier here
    · obtain ⟨resets, r, later, declared, above, here, rfl⟩ := Body.checkResets_eq_error.mp refused
      exact .reset read scanned bodies divided (fun d member => checkResets_eq_ok.mp (earlier d member))
        declared above here
  · intro refused
    cases refused with
    | openString divided earlier here =>
      exact .inl ⟨_, Line.ofText_eq_error.mpr ⟨_, _, _, divided, earlier, here, rfl⟩, rfl, rfl⟩
    | interfaces read here => exact .inr ⟨_, read, .inl ⟨_, here, rfl, rfl⟩⟩
    | body read scanned divided earlier here =>
      have failed := Outcome.mapM_eq_error_iff.mpr ⟨_, _, _, divided, earlier, here⟩
      exact .inr ⟨_, read, .inr ⟨_, scanned, .inl ⟨_, failed, rfl, rfl⟩⟩⟩
    | reset read scanned bodies divided earlier declared above here =>
      have failed := Body.checkResets_eq_error.mpr ⟨_, _, _, declared, above, here, rfl⟩
      exact .inr ⟨_, read, .inr ⟨_, scanned, .inr ⟨_, bodies, _, _, _, _, divided,
        fun d member => checkResets_eq_ok.mpr (earlier d member), failed, rfl, rfl⟩⟩⟩

/-! ### Linking -/

theorem checks_eq_ok {cs : List Circuit} :
    (cs.forM fun c => c.check.outcome) = .ok () ↔ ∀ c ∈ cs, c.graph.problems = [] := by
  simp only [Outcome.forM_eq_ok, check_eq_ok]

theorem checks_eq_error {cs : List Circuit} {e : Inconsistency} :
    (cs.forM fun c => c.check.outcome) = .error e ↔ ∃ before c after, cs = before ++ c :: after ∧
      (∀ c ∈ before, c.graph.problems = []) ∧ c.graph.problems ≠ [] ∧
      e = ⟨c.name, c.graph.problems.map (·.message c.graph)⟩ := by
  simp only [Outcome.forM_eq_bind_mapM, Outcome.bind_eq_error, reduceCtorEq, and_false, exists_false,
    or_false, Outcome.mapM_eq_error_iff, Circuit.check_eq_error]
  have accepted (c : Circuit) : (∃ u, c.check.outcome = .ok u) ↔ c.graph.problems = [] := by
    rw [← check_eq_ok]
    exact ⟨fun ⟨_, ok⟩ => ok, fun ok => ⟨_, ok⟩⟩
  simp only [accepted]

/-- How a load ends, each rule on the condition that the ones before it hold. -/
inductive Ends (text : String) (file : Option String) (id : DesignId) : Except LoadError Network → Prop
  | refused {stage : Stage} {e : ReadError} (here : Refused text stage e) :
      Ends text file id (.error (.rejected stage e))
  | inconsistent {contents : Contents} {before after : List Circuit} {c : Circuit}
      (read : (Contents.ofText text).outcome = .ok contents)
      (divided : contents.circuits = before ++ c :: after)
      (earlier : ∀ c ∈ before, c.graph.problems = []) (here : c.graph.problems ≠ []) :
      Ends text file id (.error (.inconsistent ⟨c.name, c.graph.problems.map (·.message c.graph)⟩))
  | cyclic {contents : Contents} {d : Design Network} {cycle : Cycle}
      (read : (Contents.ofText text).outcome = .ok contents)
      (consistent : ∀ c ∈ contents.circuits, c.graph.problems = [])
      (prepared : d = (contents.design id (file.getD "")).prepared)
      (here : d.checkAcyclic d.rootPosition = .ok (.error cycle)) :
      Ends text file id (.error (.cyclic cycle))
  | loaded {contents : Contents} {d : Design Network} {root : Network}
      (read : (Contents.ofText text).outcome = .ok contents)
      (consistent : ∀ c ∈ contents.circuits, c.graph.problems = [])
      (prepared : d = (contents.design id (file.getD "")).prepared)
      (acyclic : d.checkAcyclic d.rootPosition = .ok (.ok ()))
      (here : d.modules[d.rootPosition]? = some root) :
      Ends text file id (.ok (taken d d.rootPosition root file contents.properties))

/-- The outcome of a load whose text is read. -/
theorem load_of_read {text : String} {contents : Contents}
    (read : (Contents.ofText text).outcome = .ok contents) (file : Option String) (id : DesignId) :
    ∃ d root answer, d = (contents.design id (file.getD "")).prepared ∧
      d.modules[d.rootPosition]? = some root ∧ d.checkAcyclic d.rootPosition = .ok answer ∧
      (load text file id).outcome =
        ((contents.circuits.forM fun c => c.check.outcome).mapError .inconsistent >>= fun _ =>
          answer.mapError .cyclic >>= fun _ =>
            .ok (taken d d.rootPosition root file contents.properties)) := by
  obtain ⟨root, answer, here, searched, linked⟩ := link_outcome (contents.design_fresh id (file.getD ""))
    (ofText_design_ne_nil read _ _) file contents.properties
  have checks : ((contents.design id (file.getD "")).modules.forM fun m => m.check.outcome) =
      contents.circuits.forM fun c => c.check.outcome := by
    rw [← contents.design_circuits id (file.getD "")]
    exact Eq.symm List.forM_map
  refine ⟨_, root, answer, rfl, here, searched, ?_⟩
  rw [load_outcome, read, ← checks, ← linked]
  rfl

/-- What is reported is what the first broken rule says. -/
theorem load_ends {text : String} {file : Option String} {id : DesignId} {r : Except LoadError Network} :
    (load text file id).outcome = r ↔ Ends text file id r := by
  constructor
  · rintro rfl
    cases read : (Contents.ofText text).outcome with
    | error e =>
      obtain ⟨stage, e, rfl⟩ := Refuses.ofText text e read
      rw [load_outcome, read]
      exact .refused (ofText_eq_error.mp read)
    | ok contents =>
      obtain ⟨d, root, answer, prepared, here, searched, ended⟩ := load_of_read read file id
      rw [ended]
      cases checked : (contents.circuits.forM fun c => c.check.outcome) with
      | error e =>
        obtain ⟨before, c, after, divided, earlier, here, rfl⟩ := checks_eq_error.mp checked
        exact .inconsistent read divided earlier here
      | ok _ =>
        have consistent := checks_eq_ok.mp checked
        cases answer with
        | error cycle => exact .cyclic read consistent prepared searched
        | ok _ => exact .loaded read consistent prepared searched here
  · intro ends
    cases ends with
    | refused here =>
      rw [load_outcome, ofText_eq_error.mpr here]
      rfl
    | inconsistent read divided earlier here =>
      obtain ⟨_, _, _, -, -, -, ended⟩ := load_of_read read file id
      rw [ended, checks_eq_error.mpr ⟨_, _, _, divided, earlier, here, rfl⟩]
      rfl
    | cyclic read consistent prepared here =>
      obtain ⟨d, root, answer, rfl, -, searched, ended⟩ := load_of_read read file id
      subst prepared
      obtain rfl := Except.ok.inj (searched.symm.trans here)
      rw [ended, checks_eq_ok.mpr consistent]
      rfl
    | loaded read consistent prepared acyclic here =>
      obtain ⟨d, root, answer, rfl, found, searched, ended⟩ := load_of_read read file id
      subst prepared
      obtain rfl := Except.ok.inj (searched.symm.trans acyclic)
      obtain rfl := Option.some.inj (found.symm.trans here)
      rw [ended, checks_eq_ok.mpr consistent]
      rfl

/-! ### The log of the stages -/

def LoadError.reached : LoadError → Stage
  | rejected stage _ => stage
  | _ => .parsed

def reached {α : Type} : Except LoadError α → Stage
  | .ok _ => .parsed
  | .error e => e.reached

/-- What the log says of the stages if a load ends in this way. -/
def stagesTold {α : Type} (r : Except LoadError α) : List Event :=
  advances (reached r).upTo ++
    match r with
    | .error (.rejected stage _) => [.failed stage]
    | _ => []

/-- What is logged after a stage leads from it to the stage that is reached. -/
def ContinuesFrom {α : Type} (stage : Stage) (x : Load α) : Prop :=
  advances stage.upTo ++ stageLog x.events = advances (reached x.outcome).upTo

namespace ContinuesFrom

variable {α β : Type} {stage next : Stage}

/-- A part that says nothing of the stages gets no further. -/
theorem bind {x : Load α} {f : α → Load β} (stageless : x.Tells (·.isStage = false))
    (failed : ∀ e, x.outcome = .error e → e.reached = stage) (rest : ∀ a, ContinuesFrom stage (f a)) :
    ContinuesFrom stage (x >>= f) := by
  have none := stageless.stageLog_eq_nil
  cases ended : x.outcome with
  | ok a =>
    rw [bind_of_ok ended, ContinuesFrom, stageLog_append, none, List.nil_append]
    exact rest a
  | error e =>
    rw [bind_of_error ended, ContinuesFrom, none, List.append_nil, reached, failed e ended]

theorem advance {f : Unit → Load β}
    (successive : advances stage.upTo ++ [.advanced stage next] = advances next.upTo)
    (rest : ContinuesFrom next (f ())) : ContinuesFrom stage (emit (.advanced stage next) >>= f) := by
  rw [ContinuesFrom, ← successive, List.append_assoc] at rest
  rw [bind_of_ok (outcome_emit _), ContinuesFrom, stageLog_append]
  exact rest

theorem refused {x : Traced ReadError α} {e : LoadError}
    (failed : (x.mapError (.rejected stage)).outcome = .error e) : e.reached = stage := by
  obtain ⟨_, -, rfl⟩ := Outcome.mapError_eq_error.mp failed
  rfl

theorem ofText (text : String) : ContinuesFrom .empty (Contents.ofText text) := by
  have stageless {ε γ : Type} {x : Traced ε γ} (ordinary : x.Tells Event.Ordinary) :
      x.Tells (·.isStage = false) :=
    ordinary.mono fun _ => And.right
  refine .bind (.ofExcept _) (fun _ => refused (x := .ofExcept _)) fun lines => .advance rfl ?_
  refine .bind (.ofExcept _) (fun _ => refused (x := .ofExcept _)) fun models => .advance rfl ?_
  refine .bind (.mapError (.mapM (fun m => stageless (definition_ordinary models m)) _) _)
    (fun _ => refused) fun ds => ?_
  refine .bind (.mapM (fun d => stageless (circuit_ordinary d)) _) ?_ fun circuits => .advance rfl rfl
  intro e failed
  obtain ⟨_, _, _, _, -, -, -, rfl⟩ := circuits_eq_error.mp ((outcome_mapM _ _).symm.trans failed)
  rfl

end ContinuesFrom

theorem ContinuesFrom.load (text : String) (file : Option String) (id : DesignId) :
    ContinuesFrom .empty
      (Contents.ofText text >>= fun c => link (c.design id (file.getD "")) file c.properties) := by
  have told := ofText text
  unfold ContinuesFrom at told ⊢
  cases read : (Contents.ofText text).outcome with
  | error e =>
    rw [bind_of_error read]
    exact told.trans (by rw [read]; rfl)
  | ok contents =>
    obtain ⟨d, root, answer, -, -, -, ended⟩ := load_of_read read file id
    rw [load_outcome, ← outcome_bind] at ended
    -- No failure to link a design takes back that its text was read.
    have linked : reached (Contents.ofText text >>= fun c =>
        link (c.design id (file.getD "")) file c.properties).outcome = .parsed := by
      rw [ended]
      cases (contents.circuits.forM fun c => c.check.outcome) with
      | error e => rfl
      | ok _ => cases answer <;> rfl
    rw [linked, bind_of_ok read, stageLog_append, (link_stageless _ _ _).stageLog_eq_nil,
      List.append_nil, told, read]
    rfl

theorem stageLog_report {α : Type} {x : Load α} (told : ContinuesFrom .empty x) :
    stageLog x.report.events = stagesTold x.outcome := by
  have told : stageLog x.events = advances (reached x.outcome).upTo := told
  rw [Load.report_eq, stageLog_append, told]
  cases x.outcome with
  | ok a => simp [stagesTold, ending, stageLog]
  | error e => cases e <;> rfl

/-- A load reports the first rule that the text breaks, at the first place that breaks it, whatever
else is wrong with the text. The log tells of the stages up to the one that was reached, and of the
failure after it if the text was refused. -/
theorem load_precedence (text : String) (file : Option String) (id : DesignId) :
    (∀ r, (load text file id).outcome = r ↔ Ends text file id r) ∧
    stageLog (load text file id).events = stagesTold (load text file id).outcome := by
  refine ⟨fun r => load_ends, ?_⟩
  rw [load_outcome, ← outcome_bind]
  exact stageLog_report (.load text file id)

/-- A signal of the root has two drivers, and a cycle lies below the root. -/
def drivenTwiceAboveCycle : String :=
  ".model top\n.inputs a\n.outputs y\n.names a y\n1 1\n.names a y\n1 1\n.subckt b\n.end\n" ++
  ".model b\n.subckt c\n.end\n.model c\n.subckt b\n.end\n"

/-- The search below the root would find the cycle, but the drivers are reported. -/
theorem load_precedence_drivenTwiceAboveCycle : ∃ contents d,
    (Contents.ofText drivenTwiceAboveCycle).outcome = .ok contents ∧
    d = (contents.design ⟨0⟩ "").prepared ∧
    d.checkAcyclic d.rootPosition = .ok (.error ⟨"top", "b"⟩) ∧
    (load drivenTwiceAboveCycle none ⟨0⟩).outcome =
      .error (.inconsistent ⟨"top", ["net \"y\" has multiple drivers: node #4, node #5"]⟩) ∧
    stageLog (load drivenTwiceAboveCycle none ⟨0⟩).events =
      [.advanced .empty .preparsed, .advanced .preparsed .interfacesScanned,
        .advanced .interfacesScanned .parsed] := by
  obtain ⟨contents, read, checked⟩ := Outcome.exists_ok_of_any
    (x := (Contents.ofText drivenTwiceAboveCycle).outcome)
    (p := fun contents => ∃ c ∈ contents.circuits.head?, c.name = "top" ∧
      c.graph.problems.map (·.message c.graph) = ["net \"y\" has multiple drivers: node #4, node #5"] ∧
      ((contents.design ⟨0⟩ "").prepared.checkAcyclic (contents.design ⟨0⟩ "").prepared.rootPosition
        ).toOption.any fun answer => Outcome.error? answer = some ⟨"top", "b"⟩)
    (by decide +kernel)
  obtain ⟨c, first, name, problems, searched⟩ := of_decide_eq_true checked
  obtain ⟨after, divided⟩ := List.head?_eq_some_iff.mp first
  obtain ⟨answer, search, found⟩ := Outcome.exists_ok_of_any searched
  rw [Outcome.error?_eq_some.mp (of_decide_eq_true found)] at search
  have broken : c.graph.problems ≠ [] := by
    intro none
    rw [none] at problems
    cases problems
  have split : contents.circuits = [] ++ c :: after := divided
  have ends : Ends drivenTwiceAboveCycle none ⟨0⟩ _ :=
    .inconsistent read split (List.forall_mem_nil _) broken
  have failed := ((load_precedence drivenTwiceAboveCycle none ⟨0⟩).1 _).mpr ends
  have log := (load_precedence drivenTwiceAboveCycle none ⟨0⟩).2
  rw [failed] at log
  rw [name, problems] at failed
  exact ⟨contents, _, read, rfl, search, failed, log⟩

-- The reset of the first model, which names no latch, is not reported.
example : faults (load ".model a\n.reset q\n0\n.end\n.model b\n.latch x\n.end\n" none ⟨0⟩).events =
    ["line 6: .latch takes 2 to 5 arguments"] := by decide +kernel

end Blif

end Netlist
