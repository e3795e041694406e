import Netlist.Blif.Declaration
import Netlist.Proofs.Blocks
import Mathlib.Data.List.TakeWhile

/-!
# Arguments of the directives

Which arguments rows, latches and uses of models may have is said here without reading anything, one
relation for each kind. A reader succeeds exactly on the arguments that its relation admits, with the
value that the relation gives.
-/

namespace Netlist.Blif

def IsBit (value : String) : Prop := value = "0" ∨ value = "1"

inductive CoverRow : Nat → List String → Prop where
  | constant {value : String} (bit : IsBit value) : CoverRow 0 [value]
  | product {width : Nat} {literals value : String} (some : 0 < width)
      (size : literals.length = width) (known : ∀ c ∈ literals.toList, c ∈ ['0', '1', '-'])
      (bit : IsBit value) : CoverRow width [literals, value]

inductive ResetRow : List String → LatchInit → Prop where
  | zero : ResetRow ["0"] .zero
  | one : ResetRow ["1"] .one

inductive InitDigit : String → LatchInit → Prop where
  | zero : InitDigit "0" .zero
  | one : InitDigit "1" .one
  | dontCare : InitDigit "2" .dontCare
  | unknown : InitDigit "3" .unknown

def IsLatchType (type : String) : Prop :=
  type = "fe" ∨ type = "re" ∨ type = "ah" ∨ type = "al" ∨ type = "as"

/-- A latch whose line names no initial value starts from the unknown one. -/
inductive LatchArgs : List String → Latch → Prop where
  | plain {input output : String} : LatchArgs [input, output] ⟨input, output, .unknown⟩
  | init {input output digit : String} {init : LatchInit} (value : InitDigit digit init) :
      LatchArgs [input, output, digit] ⟨input, output, init⟩
  | typed {input output type control : String} (known : IsLatchType type) :
      LatchArgs [input, output, type, control] ⟨input, output, .unknown⟩
  | typedInit {input output type control digit : String} {init : LatchInit}
      (known : IsLatchType type) (value : InitDigit digit init) :
      LatchArgs [input, output, type, control, digit] ⟨input, output, init⟩

/-- The first equals sign of the argument stands between the two parts. -/
structure Binding.Splits (b : Binding) (arg : String) : Prop where
  whole : arg = b.formal ++ "=" ++ b.actual
  first : '=' ∉ b.formal.toList
  formal : b.formal ≠ ""
  actual : b.actual ≠ ""

def Subcircuit.ofBindings (model : String) (target : Model) (bs : List Binding) : Subcircuit where
  model := model
  inputs := bs.filter (·.formal ∈ target.inputs)
  outputs := bs.filter (·.formal ∉ target.inputs)

variable {models : List Model} {target : Model} {args : List String}

/-! ### Rows and latches -/

theorem checkOutputValue_eq_ok {value : String} : checkOutputValue value = .ok () ↔ IsBit value := by
  unfold checkOutputValue IsBit
  split <;> simp_all

theorem utf8ByteSize_of_narrow {cs : List Char} (narrow : ∀ c ∈ cs, c.utf8Size = 1) :
    (String.ofList cs).utf8ByteSize = cs.length := by
  induction cs with
  | nil => rfl
  | cons c cs ih =>
    obtain ⟨here, later⟩ := List.forall_mem_cons.mp narrow
    have split : String.ofList (c :: cs) = String.singleton c ++ String.ofList cs := by simp
    rw [split, String.utf8ByteSize_append, String.utf8ByteSize_singleton, here, ih later,
      List.length_cons, Nat.add_comm]

/-- The literals of a row take one byte each. -/
theorem utf8ByteSize_literals {literals : String}
    (known : ∀ c ∈ literals.toList, c ∈ ['0', '1', '-']) : literals.utf8ByteSize = literals.length := by
  have narrow : ∀ c ∈ literals.toList, c.utf8Size = 1 := by
    intro c member
    have := known c member
    simp only [List.mem_cons, List.not_mem_nil, or_false] at this
    rcases this with rfl | rfl | rfl <;> rfl
  have size := utf8ByteSize_of_narrow narrow
  rwa [String.ofList_toList, String.length_toList] at size

theorem find?_literal_eq_none {cs : List Char} :
    cs.find? (· ∉ ['0', '1', '-']) = none ↔ ∀ c ∈ cs, c ∈ ['0', '1', '-'] := by
  rw [List.find?_eq_none]
  simp only [decide_eq_true_eq, not_not]

theorem coverRow_eq_ok {inputs : List String} {output text : String} :
    coverRow inputs output args = .ok text ↔
      CoverRow inputs.length args ∧ text = " ".intercalate args := by
  unfold coverRow
  generalize inputs.length = width
  split
  · next value =>
    constructor
    · intro read
      obtain ⟨_, bit, whole⟩ := Outcome.bind_eq_ok.mp read
      exact ⟨.constant (checkOutputValue_eq_ok.mp bit), (Except.ok.inj whole).symm⟩
    · rintro ⟨row, rfl⟩
      cases row with
      | constant bit => exact Outcome.bind_eq_ok.mpr ⟨(), checkOutputValue_eq_ok.mpr bit, rfl⟩
  · next width literals value =>
    constructor
    · intro read
      dsimp only at read
      split at read
      · cases read
      next size =>
      split at read
      · cases read
      next none =>
      obtain ⟨_, bit, whole⟩ := Outcome.bind_eq_ok.mp read
      have known := find?_literal_eq_none.mp (Option.eq_none_iff_forall_ne_some.mpr none)
      refine ⟨.product (Nat.succ_pos width) ?_ known (checkOutputValue_eq_ok.mp bit),
        (Except.ok.inj whole).symm⟩
      rw [← utf8ByteSize_literals known]
      exact not_not.mp size
    · rintro ⟨row, rfl⟩
      cases row with
      | product some size known bit =>
        have bytes : literals.utf8ByteSize = width + 1 := (utf8ByteSize_literals known).trans size
        have none := find?_literal_eq_none.mpr known
        dsimp only
        rw [if_neg (not_not.mpr bytes), none]
        exact Outcome.bind_eq_ok.mpr ⟨(), checkOutputValue_eq_ok.mpr bit, rfl⟩
  · next noConstant noProduct =>
    constructor
    · intro read
      cases read
    · rintro ⟨row, -⟩
      cases row with
      | constant bit => exact (noConstant _ rfl rfl).elim
      | @product width literals value some _ _ _ =>
        obtain ⟨w, rfl⟩ := Nat.exists_eq_succ_of_ne_zero (Nat.ne_zero_of_lt some)
        exact (noProduct w literals value rfl rfl).elim

theorem inLine_eq_ok {α : Type} {line : Line} {x : Except Defect α} {a : α} :
    inLine line x = .ok a ↔ x = .ok a := Outcome.mapError_eq_ok

theorem resetValue_eq_ok {latch : String} {value : LatchInit} :
    resetValue latch args = .ok value ↔ ResetRow args value := by
  constructor
  · intro read
    unfold resetValue at read
    split at read
    · obtain rfl := Except.ok.inj read
      exact .zero
    · obtain rfl := Except.ok.inj read
      exact .one
    · cases read
  · intro row
    cases row <;> rfl

theorem latchInit_eq_ok {digit : String} {init : LatchInit} :
    latchInit digit = .ok init ↔ InitDigit digit init := by
  constructor
  · intro read
    unfold latchInit LatchInit.ofDigit? at read
    split at read
    · next found =>
      obtain rfl := Except.ok.inj read
      split at found <;> cases found
      · exact .zero
      · exact .one
      · exact .dontCare
      · exact .unknown
    · cases read
  · intro value
    cases value <;> rfl

theorem checkLatchType_eq_ok {type : String} : checkLatchType type = .ok () ↔ IsLatchType type := by
  unfold checkLatchType IsLatchType
  split <;> simp_all [latchTypes]

theorem Latch.ofArgs_eq_ok {l : Latch} : ofArgs args = .ok l ↔ LatchArgs args l := by
  constructor
  · intro read
    unfold ofArgs at read
    split at read
    · obtain rfl := Except.ok.inj read
      exact .plain
    · obtain ⟨init, value, whole⟩ := Outcome.bind_eq_ok.mp read
      obtain rfl := Except.ok.inj whole
      exact .init (latchInit_eq_ok.mp value)
    · obtain ⟨_, known, whole⟩ := Outcome.bind_eq_ok.mp read
      obtain rfl := Except.ok.inj whole
      exact .typed (checkLatchType_eq_ok.mp known)
    · obtain ⟨_, known, rest⟩ := Outcome.bind_eq_ok.mp read
      obtain ⟨init, value, whole⟩ := Outcome.bind_eq_ok.mp rest
      obtain rfl := Except.ok.inj whole
      exact .typedInit (checkLatchType_eq_ok.mp known) (latchInit_eq_ok.mp value)
    · cases read
  · intro declared
    cases declared with
    | plain => rfl
    | init value => exact Outcome.bind_eq_ok.mpr ⟨_, latchInit_eq_ok.mpr value, rfl⟩
    | typed known => exact Outcome.bind_eq_ok.mpr ⟨(), checkLatchType_eq_ok.mpr known, rfl⟩
    | typedInit known value =>
      exact Outcome.bind_eq_ok.mpr ⟨(), checkLatchType_eq_ok.mpr known,
        Outcome.bind_eq_ok.mpr ⟨_, latchInit_eq_ok.mpr value, rfl⟩⟩

/-! ### Bindings -/

theorem parts_of_mark {formal actual : List Char} (first : '=' ∉ formal) :
    (formal ++ '=' :: actual).takeWhile (· ≠ '=') = formal ∧
      (formal ++ '=' :: actual).dropWhile (· ≠ '=') = '=' :: actual := by
  have other : ∀ c ∈ formal, (c ≠ '=' : Bool) := by
    intro c member
    rw [decide_eq_true_eq]
    rintro rfl
    exact first member
  rw [List.takeWhile_append_of_pos other, List.dropWhile_append_of_pos other]
  simp

theorem Binding.ofArg_eq_ok {arg : String} {b : Binding} : ofArg arg = .ok b ↔ b.Splits arg := by
  constructor
  · intro read
    unfold ofArg at read
    dsimp only at read
    split at read
    · next mark c actual rest =>
      split at read
      · cases read
      next some =>
      obtain rfl := Except.ok.inj read
      have isMark := List.head?_dropWhile_not (· ≠ '=') arg.toList
      rw [rest] at isMark
      obtain rfl : mark = '=' := by simpa using isMark
      have whole := List.takeWhile_append_dropWhile (p := (· ≠ '=')) (l := arg.toList)
      rw [rest] at whole
      refine ⟨?_, ?_, ?_, ?_⟩
      · rw [← String.toList_inj]
        simpa using whole.symm
      · rw [String.toList_ofList]
        intro member
        simpa using List.mem_takeWhile_imp member
      · intro empty
        exact some (by simpa using congrArg String.toList empty)
      · intro empty
        simpa using congrArg String.toList empty
    · cases read
  · rintro ⟨whole, first, formal, actual⟩
    have chars : arg.toList = b.formal.toList ++ '=' :: b.actual.toList := by
      rw [whole]
      simp
    obtain ⟨before, behind⟩ := @parts_of_mark _ b.actual.toList first
    have someActual : b.actual.toList ≠ [] := by simpa using actual
    obtain ⟨c, rest, split⟩ := List.exists_cons_of_ne_nil someActual
    have someFormal : b.formal.toList.isEmpty = false := by simpa using formal
    unfold ofArg
    dsimp only
    rw [chars, before, behind, split]
    simp only [someFormal, Bool.false_eq_true, if_false, ← split, String.ofList_toList]

def Subcircuit.extend (s : Subcircuit) (target : Model) (bs : List Binding) : Subcircuit :=
  { s with
    inputs := s.inputs ++ bs.filter (·.formal ∈ target.inputs)
    outputs := s.outputs ++ bs.filter (·.formal ∉ target.inputs) }

theorem Subcircuit.extend_nil (s : Subcircuit) (target : Model) : s.extend target [] = s := by
  simp [extend]

theorem Subcircuit.bind_cons {s t : Subcircuit} {arg : String} :
    s.bind target (arg :: args) = .ok t ↔
      ∃ b : Binding, b.Splits arg ∧ (b.formal ∈ target.inputs ∨ b.formal ∈ target.outputs) ∧
        (s.extend target [b]).bind target args = .ok t := by
  conv_lhs => unfold bind
  rw [Outcome.bind_eq_ok]
  refine exists_congr fun b => ?_
  rw [Binding.ofArg_eq_ok]
  refine and_congr_right fun _ => ?_
  by_cases input : b.formal ∈ target.inputs
  · simp [Model.direction?, input, extend]
  by_cases output : b.formal ∈ target.outputs
  · simp [Model.direction?, input, output, extend]
  · simp [Model.direction?, input, output]

theorem Subcircuit.bind_eq_ok {s t : Subcircuit} :
    s.bind target args = .ok t ↔
      ∃ bs, List.Forall₂ Binding.Splits bs args ∧
        (∀ b ∈ bs, b.formal ∈ target.inputs ∨ b.formal ∈ target.outputs) ∧
        t = s.extend target bs := by
  induction args generalizing s with
  | nil =>
    constructor
    · intro bound
      obtain rfl := Except.ok.inj bound
      exact ⟨[], .nil, by simp, (s.extend_nil target).symm⟩
    · rintro ⟨bs, split, -, rfl⟩
      cases split
      rw [s.extend_nil]
      rfl
  | cons arg args ih =>
    rw [bind_cons]
    simp only [ih]
    have joined (b : Binding) (bs : List Binding) :
        (s.extend target [b]).extend target bs = s.extend target (b :: bs) := by
      by_cases input : b.formal ∈ target.inputs <;> simp [extend, input]
    constructor
    · rintro ⟨b, first, port, bs, split, ports, rfl⟩
      exact ⟨b :: bs, .cons first split, List.forall_mem_cons.mpr ⟨port, ports⟩, joined b bs⟩
    · rintro ⟨_, split, ports, rfl⟩
      cases split with
      | @cons b _ bs _ first split =>
        obtain ⟨port, ports⟩ := List.forall_mem_cons.mp ports
        exact ⟨b, first, port, bs, split, ports, (joined b bs).symm⟩

/-- Names lead to the declared models that bear them. -/
theorem Scan.Named.findModel?_eq_some_iff {ms : List Model} (named : Scan.Named ms) {name : String} :
    findModel? ms name = some target ↔
      target ∈ ms ∧ target.declared = true ∧ target.name = name := by
  constructor
  · exact findModel?_eq_some
  · rintro ⟨member, declared, rfl⟩
    cases found : findModel? ms target.name with
    | none =>
      have free := findModel?_eq_none_iff.mp found
      exact absurd (List.mem_map_of_mem (List.mem_filter.mpr ⟨member, declared⟩)) free
    | some other =>
      obtain ⟨memberOther, declaredOther, same⟩ := findModel?_eq_some found
      rw [named.eq_of_declared memberOther member declaredOther declared same]

theorem Subcircuit.ofArgs_eq_ok (named : Scan.Named models) {s : Subcircuit} :
    ofArgs models args = .ok s ↔
      ∃ model rest target bs, args = model :: rest ∧ target ∈ models ∧ target.declared = true ∧
        target.name = model ∧ List.Forall₂ Binding.Splits bs rest ∧
        (∀ b ∈ bs, b.formal ∈ target.inputs ∨ b.formal ∈ target.outputs) ∧
        s = .ofBindings model target bs := by
  cases args with
  | nil => simp [ofArgs]
  | cons model rest =>
    constructor
    · intro read
      simp only [ofArgs] at read
      split at read
      · cases read
      · next target found =>
        obtain ⟨member, declared, name⟩ := findModel?_eq_some found
        obtain ⟨bs, split, ports, rfl⟩ := bind_eq_ok.mp read
        exact ⟨model, rest, target, bs, rfl, member, declared, name, split, ports, by
          simp [extend, ofBindings]⟩
    · rintro ⟨_, _, target, bs, same, member, declared, name, split, ports, rfl⟩
      obtain ⟨rfl, rfl⟩ := List.cons.inj same
      have found := named.findModel?_eq_some_iff.mpr ⟨member, declared, name⟩
      simp only [ofArgs, found]
      exact bind_eq_ok.mpr ⟨bs, split, ports, by simp [extend, ofBindings]⟩

end Netlist.Blif
