import Netlist.Blif.LogicalLine
import Mathlib.Data.List.Basic

/-!
# Physical lines that stand for themselves

A physical line without comment, without blanks around it and without continuation mark is a logical
line as it stands. A text of such lines has them as its logical lines, whether or not the last of them
is terminated.
-/

namespace Netlist

namespace Text

variable {cs : List Char}

theorem dropWhile_isBlank_eq_self (first : ∀ c ∈ cs.head?, isBlank c = false) :
    cs.dropWhile isBlank = cs := by
  cases cs with
  | nil => rfl
  | cons c cs => rw [List.dropWhile_cons, first c rfl, if_neg Bool.false_ne_true]

theorem trimEnd_eq_self (last : ∀ c ∈ cs.getLast?, isBlank c = false) : trimEnd cs = cs := by
  rw [← List.head?_reverse] at last
  rw [trimEnd, dropWhile_isBlank_eq_self last, List.reverse_reverse]

theorem trim_eq_self (first : ∀ c ∈ cs.head?, isBlank c = false)
    (last : ∀ c ∈ cs.getLast?, isBlank c = false) : trim cs = cs := by
  rw [trim, dropWhile_isBlank_eq_self first, trimEnd_eq_self last]

theorem cut_intercalate {p : α → Bool} {mark : α} (marks : p mark) {l : List α} {ls : List (List α)}
    (none : ∀ l' ∈ l :: ls, ∀ a ∈ l', p a = false) :
    cut p ([mark].intercalate (l :: ls)) = l :: ls := by
  induction ls generalizing l with
  | nil =>
    rw [List.intercalate_singleton]
    exact cut_eq_singleton (none l List.mem_cons_self)
  | cons next ls ih =>
    obtain ⟨here, later⟩ := List.forall_mem_cons.mp none
    rw [List.intercalate_cons_cons, List.append_assoc, List.singleton_append,
      cut_append_cons here marks, ih later]

/-- After a last separator there is an empty piece. -/
theorem cut_terminated {p : α → Bool} {mark : α} (marks : p mark) {ls : List (List α)}
    (none : ∀ l ∈ ls, ∀ a ∈ l, p a = false) :
    cut p (ls.flatMap fun l => l ++ [mark]) = ls ++ [[]] := by
  induction ls with
  | nil => rfl
  | cons l ls ih =>
    obtain ⟨here, later⟩ := List.forall_mem_cons.mp none
    rw [List.flatMap_cons, List.append_assoc, List.singleton_append, cut_append_cons here marks, ih later,
      List.cons_append]

end Text

namespace Blif

/-- A part of a line without quotes is kept as it stands, unless a comment may start in it. -/
theorem stripComment_append {quoted : Bool} {code : List Char}
    (kept : ∀ c ∈ code, c ≠ '"' ∧ (c = '#' → quoted)) (rest : List Char) :
    stripComment quoted (code ++ rest) = code ++ stripComment quoted rest := by
  induction code with
  | nil => rfl
  | cons c code ih =>
    obtain ⟨⟨noQuote, hash⟩, kept⟩ := List.forall_mem_cons.mp kept
    have noComment : ¬ (c = '#' ∧ ¬quoted) := fun ⟨is, open'⟩ => open' (hash is)
    rw [List.cons_append, stripComment, if_neg noQuote, if_neg noComment, ih kept, List.cons_append]

theorem Piece.ofPhysical_eq_self {line : List Char} (code : stripComment false line = line)
    (first : ∀ c ∈ line.head?, Text.isBlank c = false)
    (last : ∀ c ∈ line.getLast?, Text.isBlank c = false ∧ c ≠ '\\') :
    ofPhysical line = ⟨line, false⟩ := by
  have blank : ∀ c ∈ line.getLast?, Text.isBlank c = false := fun c is => (last c is).1
  have mark : line.getLast? ≠ some '\\' := fun is => (last _ is).2 rfl
  rw [ofPhysical, code, Text.trimEnd_eq_self blank, if_neg mark, Text.trim_eq_self first blank]

/-- On a physical line of its own the text is a logical line as it stands. -/
structure Verbatim (text : List Char) : Prop where
  nonempty : text ≠ []
  unbroken : '\n' ∉ text
  piece : Piece.ofPhysical text = ⟨text, false⟩

namespace LogicalLine

/-- Without a continuation mark there is one line for each piece that has text. -/
theorem join_separate (number : Nat) (texts : List (List Char)) :
    join number none (texts.map (⟨·, false⟩)) =
      (texts.mapIdx fun i text => ⟨number + i, text⟩).flatMap close := by
  induction texts generalizing number with
  | nil => rfl
  | cons text texts ih =>
    have line : (⟨number, []⟩ : LogicalLine).extend text = ⟨number, text⟩ := by
      unfold extend
      split <;> simp_all
    rw [List.map_cons, join, Option.getD_none, line, if_neg Bool.false_ne_true, ih, List.mapIdx_cons,
      List.flatMap_cons]
    simp only [Nat.add_zero, Nat.add_assoc, Nat.add_comm 1]

theorem close_verbatim {texts : List (List Char)} (verbatim : ∀ t ∈ texts, Verbatim t) (number : Nat) :
    (texts.mapIdx fun i text => ⟨number + i, text⟩).flatMap close =
      texts.mapIdx fun i text => (⟨number + i, text⟩ : LogicalLine) := by
  induction texts generalizing number with
  | nil => rfl
  | cons text texts ih =>
    obtain ⟨here, later⟩ := List.forall_mem_cons.mp verbatim
    have rest := ih later (number + 1)
    simp only [Nat.add_assoc, Nat.add_comm 1] at rest
    rw [List.mapIdx_cons, List.flatMap_cons, rest, close, if_neg (by simpa using here.nonempty)]
    rfl

variable {texts : List (List Char)}

theorem pieces_verbatim (verbatim : ∀ t ∈ texts, Verbatim t) :
    texts.map Piece.ofPhysical = texts.map (⟨·, false⟩) :=
  List.map_congr_left fun t member => (verbatim t member).piece

theorem unbroken_verbatim (verbatim : ∀ t ∈ texts, Verbatim t) :
    ∀ t ∈ texts, ∀ c ∈ t, decide (c = '\n') = false := by
  rintro t member c inside
  rw [decide_eq_false_iff_not]
  rintro rfl
  exact (verbatim t member).unbroken inside

/-- Lines with line feeds between them. -/
theorem ofText_intercalate (verbatim : ∀ t ∈ texts, Verbatim t) :
    ofText ("\n".intercalate (texts.map String.ofList)) = texts.mapIdx fun i t => ⟨1 + i, t⟩ := by
  have chars : ("\n".intercalate (texts.map String.ofList)).toList = ['\n'].intercalate texts := by
    simp [String.toList_intercalate, Function.comp_def]
  cases texts with
  | nil => rfl
  | cons t ts =>
    rw [ofText, pieces, chars, Text.cut_intercalate (by decide) (unbroken_verbatim verbatim),
      pieces_verbatim verbatim, join_separate, close_verbatim verbatim]

/-- Lines each of which is terminated by a line feed. -/
theorem ofText_terminated (verbatim : ∀ t ∈ texts, Verbatim t) :
    ofText (String.join (texts.map fun t => String.ofList t ++ "\n")) =
      texts.mapIdx fun i t => ⟨1 + i, t⟩ := by
  have chars : (String.join (texts.map fun t => String.ofList t ++ "\n")).toList =
      texts.flatMap fun t => t ++ ['\n'] := by
    simp [List.flatMap_map]
  have last : Piece.ofPhysical [] = ⟨[], false⟩ := by decide
  have whole : (texts ++ [[]]).map Piece.ofPhysical = (texts ++ [[]]).map (⟨·, false⟩) := by
    rw [List.map_append, List.map_append, pieces_verbatim verbatim, List.map_singleton, last,
      List.map_singleton]
  rw [ofText, pieces, chars, Text.cut_terminated (by decide) (unbroken_verbatim verbatim), whole,
    join_separate, List.mapIdx_append, List.flatMap_append, close_verbatim verbatim]
  simp [close]

end LogicalLine

end Blif

end Netlist
