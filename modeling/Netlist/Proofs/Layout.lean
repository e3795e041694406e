import Netlist.Proofs.LineEdits
import Mathlib.Algebra.Ring.Parity

/-!
# Layout

What a text means does not depend on how its physical lines end. Carriage returns before the line feeds,
blanks at the end of a line and a comment there leave the logical lines as they are, behind a
continuation mark too, and a physical line that says nothing only counts for the numbers of the lines
below it.
-/

namespace Netlist

def withReturns (text : String) : String :=
  String.ofList (text.toList.flatMap fun c => if c = '\n' then ['\r', '\n'] else [c])

namespace Text

variable {cs blanks : List Char}

theorem trimEnd_append_blanks (blank : ∀ c ∈ blanks, isBlank c) : trimEnd (cs ++ blanks) = trimEnd cs := by
  have reversed : ∀ c ∈ blanks.reverse, isBlank c := by simpa using blank
  rw [trimEnd, List.reverse_append, List.dropWhile_append_of_pos reversed, trimEnd]

theorem cut_of_mark {p : α → Bool} {a : α} (mark : p a = true) (l : List α) : cut p (a :: l) = [] :: cut p l :=
  cut_append_cons (List.forall_mem_nil _) mark l

theorem cut_of_not_mark {p : α → Bool} {a : α} {l : List α} {piece : List α} {pieces : List (List α)}
    (unmarked : p a = false) (divided : cut p l = piece :: pieces) :
    cut p (a :: l) = (a :: piece) :: pieces := by
  rw [cut, divided]
  simp [unmarked]

end Text

namespace Blif

open Text (isBlank)

/-- Nothing but blanks, or blanks and a comment. -/
def Silent (cs : List Char) : Prop := ∀ c ∈ (cs.dropWhile isBlank).head?, c = '#'

instance (cs : List Char) : Decidable (Silent cs) :=
  decidable_of_iff ((cs.dropWhile isBlank).head?.all (· = '#')) (by simp [Silent, Option.all_eq_true])

/-- The second line is the first one with blanks or a comment added at its end, behind the carriage return
that may stand there or before it. A comment is added only if the line leaves no string open. -/
inductive Appended : List Char → List Char → Prop where
  | intro (line added ending : List Char) (silent : Silent added)
      (balanced : '#' ∈ added → Even ((stripComment false line).count '"'))
      (ends : ending = [] ∨ ending = ['\r']) : Appended (line ++ ending) (line ++ added ++ ending)

/-- The numbers of lines after one more line below the first `above` ones. -/
def shift (above number : Nat) : Nat := if number ≤ above then number else number + 1

variable {line added blanks : List Char} {quoted : Bool}

/-! ### One physical line -/

/-- A comment at the end of a line is removed, unless it is in a string. -/
theorem stripComment_comment (comment : List Char)
    (balanced : Odd ((stripComment quoted line).count '"') ↔ quoted = true) :
    stripComment quoted (line ++ '#' :: comment) = stripComment quoted line := by
  induction line generalizing quoted with
  | nil =>
    have outside : quoted = false := by simpa [stripComment] using balanced
    simp [stripComment, outside]
  | cons c line ih =>
    by_cases quote : c = '"'
    · subst quote
      simp only [List.cons_append, stripComment, if_true, List.count_cons_self, Nat.odd_add_one] at balanced ⊢
      rw [ih]
      cases quoted <;> simp_all
    by_cases hash : c = '#' ∧ ¬quoted
    · simp [stripComment, hash]
    · simp only [List.cons_append, stripComment, if_neg quote, if_neg hash] at balanced ⊢
      rw [List.count_cons_of_ne quote] at balanced
      rw [ih balanced]

/-- Blanks at the end of a line stay there, unless they are in a comment. -/
theorem stripComment_blanks (blank : ∀ c ∈ blanks, isBlank c) (quoted : Bool) (line : List Char) :
    ∃ kept, (∀ c ∈ kept, isBlank c) ∧
      stripComment quoted (line ++ blanks) = stripComment quoted line ++ kept := by
  induction line generalizing quoted with
  | nil =>
    have plain : ∀ c ∈ blanks, c ≠ '"' ∧ (c = '#' → quoted) := by
      intro c member
      constructor
      · rintro rfl
        exact absurd (blank _ member) (by decide)
      · rintro rfl
        exact absurd (blank _ member) (by decide)
    refine ⟨blanks, blank, ?_⟩
    simpa [stripComment] using stripComment_append plain []
  | cons c line ih =>
    by_cases quote : c = '"'
    · obtain ⟨kept, blank, same⟩ := ih !quoted
      exact ⟨kept, blank, by simp [stripComment, quote, same]⟩
    by_cases hash : c = '#' ∧ ¬quoted
    · exact ⟨[], List.forall_mem_nil _, by simp [stripComment, hash]⟩
    · obtain ⟨kept, blank, same⟩ := ih quoted
      exact ⟨kept, blank, by simp only [List.cons_append, stripComment, if_neg quote, if_neg hash, same]⟩

theorem count_blanks (blank : ∀ c ∈ blanks, isBlank c) : blanks.count '"' = 0 := by
  rw [List.count_eq_zero]
  intro member
  exact absurd (blank _ member) (by decide)

/-- What is added to the end of a line is lost. -/
theorem trimEnd_stripComment (silent : Silent added)
    (balanced : '#' ∈ added → Even ((stripComment false line).count '"')) :
    Text.trimEnd (stripComment false (line ++ added)) = Text.trimEnd (stripComment false line) := by
  have blank : ∀ c ∈ added.takeWhile isBlank, isBlank c := fun c member => List.mem_takeWhile_imp member
  obtain ⟨kept, keptBlank, stripped⟩ := stripComment_blanks blank false line
  have divided := added.takeWhile_append_dropWhile (p := isBlank)
  cases rest : added.dropWhile isBlank with
  | nil =>
    rw [rest, List.append_nil] at divided
    rw [← divided, stripped, Text.trimEnd_append_blanks keptBlank]
  | cons c comment =>
    obtain rfl : c = '#' := silent c (by simp [rest])
    rw [rest] at divided
    have even := balanced (by rw [← divided]; simp)
    have closed : Odd ((stripComment false (line ++ added.takeWhile isBlank)).count '"') ↔ false = true := by
      rw [stripped, List.count_append, count_blanks keptBlank, Nat.add_zero]
      simpa using even
    rw [← divided, ← List.append_assoc, stripComment_comment comment closed, stripped,
      Text.trimEnd_append_blanks keptBlank]

theorem Piece.ofPhysical_congr {line' : List Char}
    (same : Text.trimEnd (stripComment false line') = Text.trimEnd (stripComment false line)) :
    ofPhysical line' = ofPhysical line := by
  unfold ofPhysical
  rw [same]

theorem Appended.ofPhysical_eq {line line' : List Char} (appended : Appended line line') :
    Piece.ofPhysical line' = Piece.ofPhysical line := by
  obtain ⟨line, added, ending, silent, balanced, ends⟩ := appended
  have returns (cs : List Char) : Text.trimEnd (stripComment false (cs ++ ending)) =
      Text.trimEnd (stripComment false cs) := by
    apply trimEnd_stripComment
    · rcases ends with rfl | rfl <;> decide
    · rcases ends with rfl | rfl <;> simp
  apply Piece.ofPhysical_congr
  rw [returns, returns, trimEnd_stripComment silent balanced]

theorem Silent.ofPhysical_eq (silent : Silent line) : Piece.ofPhysical line = ⟨[], false⟩ := by
  have same : Text.trimEnd (stripComment false ([] ++ line)) = Text.trimEnd (stripComment false []) :=
    trimEnd_stripComment silent fun _ => by simp [stripComment]
  exact Piece.ofPhysical_congr same

/-! ### Carriage returns -/

theorem forall₂_cut_returns (cs : List Char) :
    List.Forall₂ (fun line line' => line' = line ∨ line' = line ++ ['\r']) (Text.cut (· = '\n') cs)
      (Text.cut (· = '\n') (cs.flatMap fun c => if c = '\n' then ['\r', '\n'] else [c])) := by
  induction cs with
  | nil => exact .cons (.inl rfl) .nil
  | cons c cs ih =>
    rw [List.flatMap_cons]
    by_cases feed : c = '\n'
    · have divided := Text.cut_append_cons (p := (· = '\n')) (l := ['\r']) (a := '\n') (by simp) (by decide)
        (cs.flatMap fun c => if c = '\n' then ['\r', '\n'] else [c])
      rw [if_pos feed, Text.cut_of_mark (by simpa using feed)]
      exact divided ▸ .cons (.inr rfl) ih
    · have unmarked : decide (c = '\n') = false := by simpa using feed
      obtain ⟨line, lines, divided⟩ := List.exists_cons_of_ne_nil (Text.cut_ne_nil (· = '\n') cs)
      rw [divided] at ih
      obtain ⟨line', lines', same, rest, divided'⟩ := List.forall₂_cons_left_iff.mp ih
      rw [if_neg feed, List.singleton_append, Text.cut_of_not_mark (p := (· = '\n')) unmarked divided,
        Text.cut_of_not_mark (p := (· = '\n')) unmarked divided']
      refine .cons ?_ rest
      rcases same with rfl | rfl
      · exact .inl rfl
      · exact .inr rfl

theorem forall₂_appended_returns (text : String) :
    List.Forall₂ Appended (physicalLines text) (physicalLines (withReturns text)) := by
  rw [physicalLines, physicalLines, withReturns, String.toList_ofList]
  apply (forall₂_cut_returns text.toList).imp
  rintro line line' (rfl | rfl)
  · simpa using Appended.intro line' [] [] (by decide) (by simp) (.inl rfl)
  · simpa using Appended.intro line ['\r'] [] (by decide) (by simp) (.inl rfl)

/-! ### Logical lines -/

namespace LogicalLine

variable {n m : Nat} {pending : Option LogicalLine} {ps : List Piece}

/-- No line bears the number of a later piece. -/
theorem join_numbers (before : ∀ l ∈ pending, l.number < m) (inside : n + ps.length ≤ m) :
    ∀ l ∈ join n pending ps, l.number < m := by
  have close_number {l : LogicalLine} (below : l.number < m) : ∀ k ∈ l.close, k.number < m := by
    intro k member
    unfold close at member
    split at member
    · cases member
    · obtain rfl := List.mem_singleton.mp member
      exact below
  have extend_number (l : LogicalLine) (text : List Char) : (l.extend text).number = l.number := by
    unfold extend
    split
    · rfl
    · split <;> rfl
  induction ps generalizing n pending with
  | nil =>
    cases pending with
    | none => exact List.forall_mem_nil _
    | some l => exact close_number (before l rfl)
  | cons p ps ih =>
    rw [List.length_cons] at inside
    have below : ((pending.getD ⟨n, []⟩).extend p.text).number < m := by
      rw [extend_number]
      cases pending with
      | none => exact Nat.lt_of_lt_of_le (Nat.lt_add_of_pos_right (Nat.succ_pos _)) inside
      | some l => exact before l rfl
    rw [join]
    split
    · apply ih
      · rintro l ⟨⟩
        exact below
      · omega
    · rw [List.forall_mem_append]
      refine ⟨close_number below, ih (by simp) ?_⟩
      omega

/-- Lines that start further down say the same. -/
theorem join_renumber {f : Nat → Nat} {n' : Nat} (follows : ∀ i, f (n + i) = n' + i)
    (pending : Option LogicalLine) (ps : List Piece) :
    join n' (pending.map (renumber f)) ps = (join n pending ps).map (renumber f) := by
  have close_renumber (l : LogicalLine) : (l.renumber f).close = l.close.map (renumber f) := by
    unfold close renumber
    dsimp only
    split <;> rfl
  have extend_renumber (l : LogicalLine) (text : List Char) :
      (l.renumber f).extend text = (l.extend text).renumber f := by
    unfold extend renumber
    dsimp only
    split
    · rfl
    · split <;> rfl
  induction ps generalizing n n' pending with
  | nil =>
    cases pending with
    | none => rfl
    | some l => exact close_renumber l
  | cons p ps ih =>
    have next (i : Nat) : f (n + 1 + i) = n' + 1 + i := by
      have here := follows (1 + i)
      rw [← Nat.add_assoc, ← Nat.add_assoc] at here
      exact here
    have start : (pending.map (renumber f)).getD ⟨n', []⟩ = (pending.getD ⟨n, []⟩).renumber f := by
      cases pending with
      | none => simpa [renumber] using (follows 0).symm
      | some l => rfl
    rw [join, join, start, extend_renumber]
    split
    · exact ih next (some _)
    · rw [List.map_append, close_renumber]
      exact congrArg _ (ih next none)

/-- A line that says nothing moves those below it. -/
theorem ofText_inserted {text text' : String} {before after : List (List Char)} {line : List Char}
    (lines : physicalLines text = before ++ after) (lines' : physicalLines text' = before ++ line :: after)
    (ended : ∀ l ∈ before.getLast?, (Piece.ofPhysical l).continued = false) (silent : Silent line) :
    ofText text' = (ofText text).map (renumber (shift before.length)) := by
  have closed : Closed (before.map Piece.ofPhysical) := by
    intro p last
    rw [List.getLast?_map, Option.mem_map] at last
    obtain ⟨l, last, rfl⟩ := last
    exact ended l last
  have above : (join 1 none (before.map Piece.ofPhysical)).map (renumber (shift before.length)) =
      join 1 none (before.map Piece.ofPhysical) := by
    apply (List.map_congr_left (g := id) ?_).trans (List.map_id _)
    intro l member
    have inside : l.number < 1 + before.length :=
      join_numbers (by simp) (by rw [List.length_map]) l member
    have unmoved : shift before.length l.number = l.number := if_pos (by omega)
    rw [renumber, unmoved]
    rfl
  have below (i : Nat) : shift before.length (1 + before.length + i) = 1 + before.length + 1 + i := by
    rw [shift, if_neg (by omega)]
    omega
  have empty (n : Nat) (ps : List Piece) : join n none (⟨[], false⟩ :: ps) = join (n + 1) none ps := by
    rfl
  simp only [ofText, pieces_eq, lines, lines', List.map_append, List.map_cons, silent.ofPhysical_eq,
    join_append closed fun _ => rfl, List.length_map, above, empty]
  exact congrArg _ (join_renumber below none _)

end LogicalLine

theorem ofText_appended {text text' : String}
    (appended : List.Forall₂ Appended (physicalLines text) (physicalLines text')) :
    LogicalLine.ofText text' = LogicalLine.ofText text := by
  have same : (physicalLines text').map Piece.ofPhysical = (physicalLines text).map Piece.ofPhysical := by
    rw [← List.forall₂_eq_eq_eq, List.forall₂_map_left_iff, List.forall₂_map_right_iff]
    exact appended.flip.imp fun _ _ appended => appended.ofPhysical_eq
  rw [LogicalLine.ofText, LogicalLine.ofText, pieces_eq, pieces_eq, same]

theorem load_of_logicalLines {text text' : String}
    (same : LogicalLine.ofText text' = LogicalLine.ofText text) (file : Option String) (id : DesignId) :
    load text' file id = load text file id := by
  have read : Contents.ofText text' = Contents.ofText text := by
    rw [ofText_eq_definitions, ofText_eq_definitions, same]
  rw [load, load, read]

/-- Layout is neutral. A carriage return before each line feed, and blanks and comments at the ends of
physical lines, leave the logical lines and the load as they are. A physical line of blanks or a comment
alone, at the start or behind a line that is not continued, adds one to the numbers of the lines below it,
and the load ends as it did, but for the number in the error. -/
theorem load_layout (text : String) (file : Option String) (id : DesignId) :
    (LogicalLine.ofText (withReturns text) = LogicalLine.ofText text ∧
      load (withReturns text) file id = load text file id) ∧
    (∀ text', List.Forall₂ Appended (physicalLines text) (physicalLines text') →
      LogicalLine.ofText text' = LogicalLine.ofText text ∧ load text' file id = load text file id) ∧
    ∀ text' before line after, physicalLines text = before ++ after →
      physicalLines text' = before ++ line :: after →
      (∀ l ∈ before.getLast?, (Piece.ofPhysical l).continued = false) → Silent line →
      LogicalLine.ofText text' =
        (LogicalLine.ofText text).map (LogicalLine.renumber (shift before.length)) ∧
      (load text' file id).outcome =
        (load text file id).outcome.mapError (LoadError.renumber (shift before.length)) := by
  have appended (text' : String) (each : List.Forall₂ Appended (physicalLines text) (physicalLines text')) :
      LogicalLine.ofText text' = LogicalLine.ofText text ∧ load text' file id = load text file id :=
    ⟨ofText_appended each, load_of_logicalLines (ofText_appended each) file id⟩
  refine ⟨appended _ (forall₂_appended_returns text), appended, ?_⟩
  intro text' before line after lines lines' ended silent
  have moved := LogicalLine.ofText_inserted lines lines' ended silent
  refine ⟨moved, load_outcome_renumber ?_ file id⟩
  rw [Contents.ofText_renumber moved, ← Outcome.relabel_id]
  rfl

def wrappedPorts : String := ".model top\n.inputs a \\\nb\n.names a b f\n11 1\n1- 2\n.end\n"

theorem load_layout_wrappedPorts :
    load (withReturns wrappedPorts) none ⟨0⟩ = load wrappedPorts none ⟨0⟩ ∧
    (load wrappedPorts none ⟨0⟩).outcome =
      .error (.rejected .interfacesScanned (.inLine 6 (.outputValue "2"))) ∧
    (load ".model top\n.inputs a \\ # more \\\nb \t\n.names a b f\n11 1\n1- 2 # \"\n.end\n" none ⟨0⟩).outcome =
      .error (.rejected .interfacesScanned (.inLine 6 (.outputValue "2"))) ∧
    (load ".model top\n.inputs a \\\nb\n # table\n.names a b f\n11 1\n1- 2\n.end\n" none ⟨0⟩).outcome =
      .error (.rejected .interfacesScanned (.inLine 7 (.outputValue "2"))) := by
  have failed : (load wrappedPorts none ⟨0⟩).outcome =
      .error (.rejected .interfacesScanned (.inLine 6 (.outputValue "2"))) :=
    Outcome.error?_eq_some.mp (by decide +kernel)
  obtain ⟨⟨-, returns⟩, added, inserted⟩ := load_layout wrappedPorts none ⟨0⟩
  have lines : physicalLines wrappedPorts = [".model top".toList, ".inputs a \\".toList, "b".toList,
      ".names a b f".toList, "11 1".toList, "1- 2".toList, ".end".toList, []] := by decide +kernel
  have same (line : List Char) : Appended line line := by
    simpa using Appended.intro line [] [] (by decide) (by simp) (.inl rfl)
  refine ⟨returns, failed, ?_, ?_⟩
  · have each : List.Forall₂ Appended (physicalLines wrappedPorts) (physicalLines
        ".model top\n.inputs a \\ # more \\\nb \t\n.names a b f\n11 1\n1- 2 # \"\n.end\n") := by
      have lines' : physicalLines
          ".model top\n.inputs a \\ # more \\\nb \t\n.names a b f\n11 1\n1- 2 # \"\n.end\n" =
          [".model top".toList, ".inputs a \\ # more \\".toList, "b \t".toList, ".names a b f".toList,
            "11 1".toList, "1- 2 # \"".toList, ".end".toList, []] := by decide +kernel
      rw [lines, lines']
      refine .cons (same _) (.cons ?_ (.cons ?_ (.cons (same _) (.cons (same _) (.cons ?_
        (.cons (same _) (.cons (same _) .nil)))))))
      · exact .intro ".inputs a \\".toList " # more \\".toList [] (by decide) (by decide) (.inl rfl)
      · exact .intro "b".toList " \t".toList [] (by decide) (by decide) (.inl rfl)
      · exact .intro "1- 2".toList " # \"".toList [] (by decide) (by decide) (.inl rfl)
    rw [(added _ each).2, failed]
  · have moved := (inserted ".model top\n.inputs a \\\nb\n # table\n.names a b f\n11 1\n1- 2\n.end\n"
      [".model top".toList, ".inputs a \\".toList, "b".toList] " # table".toList
      [".names a b f".toList, "11 1".toList, "1- 2".toList, ".end".toList, []]
      lines (by decide +kernel) (by decide) (by decide)).2
    rw [moved, failed]
    rfl

end Blif

end Netlist
