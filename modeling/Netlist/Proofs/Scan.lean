import Netlist.Blif.Model
import Netlist.Proofs.Outcome
import Mathlib.Data.List.Pairwise

/-!
# What the scan can do with a line

A line opens a model, opens a don't-care description within the open model, ends the open model, or
is taken into it. Through all of this the declared models keep names of their own, and the others
keep the name of don't-care descriptions.
-/

namespace Netlist.Blif

variable {s t : Scan} {line : Line} {lines : List Line} {ms : List Model}

@[simp] theorem Model.addLine_name (m : Model) (line : Line) : (m.addLine line).name = m.name := by
  unfold Model.addLine
  split <;> rfl

@[simp] theorem Model.addLine_declared (m : Model) (line : Line) :
    (m.addLine line).declared = m.declared := by
  unfold Model.addLine
  split <;> rfl

/-- The line is neither the first nor the last of a model, nor does it open a don't-care description. -/
def Line.Inner (line : Line) : Prop :=
  line.directive ≠ some .model ∧ line.directive ≠ some .exdc ∧ line.directive ≠ some .endModel

namespace Scan

inductive Step (line : Line) : Scan → Scan → Prop where
  | opens {ended : List Model} {name : String} (directive : line.directive = some .model)
      (args : line.args = [name]) (new : findModel? ended name = none) :
      Step line ⟨ended, none⟩ ⟨ended, some { name := name, header := line.number, declared := true }⟩
  | opensExdc {ended : List Model} {m : Model} (directive : line.directive = some .exdc) :
      Step line ⟨ended, some m⟩ ⟨ended ++ [m], some (m.openExdc line.number)⟩
  | ends {ended : List Model} {m : Model} (directive : line.directive = some .endModel) :
      Step line ⟨ended, some m⟩ ⟨ended ++ [m], none⟩
  | takes {ended : List Model} {m : Model} (inner : line.Inner) :
      Step line ⟨ended, some m⟩ ⟨ended, some (m.addLine line)⟩

theorem openModel_step (directive : line.directive = some .model)
    (opened : s.openModel line = .ok t) : Step line s t := by
  obtain ⟨ended, current⟩ := s
  unfold openModel at opened
  split at opened
  · cases opened
  · next name none args =>
    split at opened
    · cases opened
    · next new =>
      obtain rfl := Except.ok.inj opened
      obtain rfl : current = Option.none := none
      exact .opens directive args (by simpa using new)
  · cases opened

theorem addLine_of_inner {ended : List Model} {m : Model} (inner : line.Inner) :
    (⟨ended, some m⟩ : Scan).addLine line = .ok ⟨ended, some (m.addLine line)⟩ := by
  obtain ⟨notModel, notExdc, notEnd⟩ := inner
  unfold addLine
  split <;> simp_all

/-- What becomes of a line while a model is open. -/
theorem addLine_open (ended : List Model) (m : Model) (line : Line) :
    (⟨ended, some m⟩ : Scan).addLine line =
      if line.directive = some .model then .error (.notTerminated m.name)
      else if line.directive = some .exdc then .ok ⟨ended ++ [m], some (m.openExdc line.number)⟩
      else if line.directive = some .endModel then .ok ⟨ended ++ [m], none⟩
      else .ok ⟨ended, some (m.addLine line)⟩ := by
  split
  · next isModel => simp only [addLine, isModel, openModel]
  split
  · next isExdc => simp only [addLine, isExdc]
  split
  · next isEnd => simp only [addLine, isEnd]
  · next isModel isExdc isEnd => exact addLine_of_inner ⟨isModel, isExdc, isEnd⟩

theorem addLine_step (taken : s.addLine line = .ok t) : Step line s t := by
  obtain ⟨ended, current⟩ := s
  cases current with
  | none =>
    cases directive : line.directive with
    | none => simp [addLine, directive] at taken
    | some d =>
      cases d with
      | model => exact openModel_step directive (by simpa [addLine, directive] using taken)
      | _ => simp [addLine, directive] at taken
  | some m =>
    rw [addLine_open] at taken
    split at taken
    · cases taken
    next isModel =>
    split at taken
    · next isExdc =>
      obtain rfl := Except.ok.inj taken
      exact .opensExdc isExdc
    next isExdc =>
    split at taken
    · next isEnd =>
      obtain rfl := Except.ok.inj taken
      exact .ends isEnd
    · next isEnd =>
      obtain rfl := Except.ok.inj taken
      exact .takes ⟨isModel, isExdc, isEnd⟩

def models (s : Scan) : List Model := s.ended ++ s.current.toList

structure Named (ms : List Model) : Prop where
  undeclared : ∀ m ∈ ms, m.declared = false → m.name = exdcName
  distinct : ms.Pairwise fun a b => a.declared = true → b.declared = true → a.name ≠ b.name

theorem named_nil : Named [] := ⟨by simp, .nil⟩

/-- A model may join if it is called as a don't-care description, or bears a name that is still free. -/
theorem Named.append {ms : List Model} {m : Model} (named : Named ms)
    (undeclared : m.declared = false → m.name = exdcName)
    (new : m.declared = true → findModel? ms m.name = none) : Named (ms ++ [m]) where
  undeclared := by
    intro k member
    rcases List.mem_append.mp member with old | last
    · exact named.undeclared k old
    · obtain rfl := List.mem_singleton.mp last
      exact undeclared
  distinct := by
    rw [List.pairwise_append]
    refine ⟨named.distinct, List.pairwise_singleton _ _, ?_⟩
    intro k old l last declared declaredLast same
    obtain rfl := List.mem_singleton.mp last
    have free := List.find?_eq_none.mp (new declaredLast) k old
    simp [declared, same] at free

/-- Only the name of a model and how it was opened matter. -/
theorem Named.replaceLast {ms : List Model} {m k : Model} (named : Named (ms ++ [m]))
    (name : k.name = m.name) (declared : k.declared = m.declared) : Named (ms ++ [k]) where
  undeclared := by
    intro l member
    rcases List.mem_append.mp member with old | last
    · exact named.undeclared l (List.mem_append_left _ old)
    · obtain rfl := List.mem_singleton.mp last
      rw [name, declared]
      exact named.undeclared m (by simp)
  distinct := by
    have distinct := List.pairwise_append.mp named.distinct
    rw [List.pairwise_append]
    refine ⟨distinct.1, List.pairwise_singleton _ _, ?_⟩
    intro l old k' last
    obtain rfl := List.mem_singleton.mp last
    rw [name, declared]
    exact distinct.2.2 l old m (by simp)

theorem Step.named (step : Step line s t) (named : Named s.models) : Named t.models := by
  cases step with
  | @opens ended name _ _ new =>
    have ended : Named ended := by simpa [models] using named
    apply ended.append
    · intro impossible; cases impossible
    · intro _; exact new
  | @opensExdc ended m _ =>
    apply Named.append
    · exact named
    · intro _; rfl
    · intro impossible; cases impossible
  | ends _ => simpa [models] using named
  | takes _ => exact Named.replaceLast named (Model.addLine_name ..) (Model.addLine_declared ..)

theorem addLines_named (named : Named s.models) (scanned : s.addLines lines = .ok t) :
    Named t.models := by
  induction lines generalizing s with
  | nil =>
    obtain rfl := Except.ok.inj scanned
    exact named
  | cons line rest ih =>
    unfold addLines at scanned
    split at scanned
    · next mid first =>
      have step := addLine_step first
      exact ih (step.named named) scanned
    · cases scanned

theorem finish_eq_ok (finished : s.finish = .ok ms) : s = ⟨ms, none⟩ ∧ ms ≠ [] := by
  obtain ⟨ended, current⟩ := s
  unfold finish at finished
  split at finished
  · cases finished
  · next none =>
    split at finished
    · cases finished
    · next some =>
      obtain rfl := Except.ok.inj finished
      obtain rfl : current = Option.none := none
      exact ⟨rfl, some⟩

end Scan

theorem ofLines_named (scanned : Model.ofLines lines = .ok ms) : Scan.Named ms := by
  obtain ⟨s, taken, finished⟩ := Outcome.bind_eq_ok.mp scanned
  obtain ⟨rfl, -⟩ := Scan.finish_eq_ok finished
  have start : Scan.Named ({} : Scan).models := Scan.named_nil
  simpa [Scan.models] using Scan.addLines_named start taken

theorem ofLines_ne_nil (scanned : Model.ofLines lines = .ok ms) : ms ≠ [] := by
  obtain ⟨s, -, finished⟩ := Outcome.bind_eq_ok.mp scanned
  exact (Scan.finish_eq_ok finished).2

/-- The model that others mean by a name is the only declared one that bears it. -/
theorem findModel?_eq_some {target : Model} {name : String} (found : findModel? ms name = some target) :
    target ∈ ms ∧ target.declared = true ∧ target.name = name := by
  have named := List.find?_some found
  simp only [Bool.and_eq_true, decide_eq_true_eq] at named
  exact ⟨List.mem_of_find?_eq_some found, named⟩

theorem Scan.Named.eq_of_declared (named : Named ms) {a b : Model} (first : a ∈ ms)
    (second : b ∈ ms) (declaredFirst : a.declared = true) (declaredSecond : b.declared = true)
    (same : a.name = b.name) : a = b := by
  by_contra different
  have symmetric : Std.Symm fun a b : Model =>
      a.declared = true → b.declared = true → a.name ≠ b.name :=
    ⟨fun a b apart declaredB declaredA eq => apart declaredA declaredB eq.symm⟩
  have apart := named.distinct.forall first second different
  exact apart declaredFirst declaredSecond same

end Netlist.Blif
