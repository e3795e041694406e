import Netlist.Proofs.LineEdits
import Netlist.Proofs.OpenStrings
import Mathlib.Data.List.Induction

/-!
# Where comments begin

A `#` begins a comment unless it stands in a string that was opened on its own physical line: quotes on
earlier physical lines of the logical line do not count. A comment is lost with the rest of its physical
line, and any other `#` is kept. So a string must not go on across a physical line that holds a `#`:
there, and only there, a `#` in a string begins a comment, or a `#` outside of strings begins none.
-/

namespace Netlist.Blif

/-- Every `#` of the part stands behind an odd number of quotes. -/
def Uncommented (head : List Char) : Prop :=
  ∀ before after, head = before ++ '#' :: after → Odd (before.count '"')

/-- A physical line of a text divided at a `#` that is not itself part of a comment. -/
structure Mark (text : String) (earlier : List (List Char)) (head tail : List Char)
    (later : List (List Char)) : Prop where
  lines : physicalLines text = earlier ++ (head ++ '#' :: tail) :: later
  uncommented : Uncommented head

/-- How many quotes the logical line holds before a physical line. The physical lines before that one are
given with the nearest first; they belong to the same logical line as long as they are continued. -/
def quotesBefore : List (List Char) → Nat
  | [] => 0
  | line :: lines =>
    if (Piece.ofPhysical line).continued then
      quotesBefore lines + (stripComment false line).count '"'
    else 0

/-! ### Physical lines -/

/-- A part without comment leaves a string open if it holds an odd number of quotes. -/
theorem stripComment_uncommented {quoted : Bool} {head : List Char}
    (inside : ∀ before after, head = before ++ '#' :: after → (Odd (before.count '"') ↔ quoted = false))
    (rest : List Char) : stripComment quoted (head ++ rest) =
      head ++ stripComment (quoted ^^ decide (Odd (head.count '"'))) rest := by
  induction head generalizing quoted with
  | nil => simp
  | cons c head ih =>
    by_cases quote : c = '"'
    · subst quote
      have flipped : (!quoted ^^ decide (Odd (head.count '"'))) =
          (quoted ^^ decide (Odd (('"' :: head).count '"'))) := by
        simp only [List.count_cons_self, Nat.odd_add_one]
        cases quoted <;> by_cases odd : Odd (head.count '"') <;> simp [odd]
      have next : ∀ before after, head = before ++ '#' :: after →
          (Odd (before.count '"') ↔ (!quoted) = false) := by
        intro before after is
        have here := inside ('"' :: before) after (by simp [is])
        simp only [List.count_cons_self, Nat.odd_add_one] at here
        cases quoted <;> simp_all
      simp only [List.cons_append, stripComment, if_true, ih next, flipped]
    · have next : ∀ before after, head = before ++ '#' :: after →
          (Odd (before.count '"') ↔ quoted = false) := by
        intro before after is
        have here := inside (c :: before) after (by simp [is])
        simpa only [List.count_cons_of_ne quote] using here
      have noComment : ¬ (c = '#' ∧ ¬ quoted) := by
        rintro ⟨rfl, open'⟩
        have here := inside [] head rfl
        simp_all
      simp only [List.cons_append, stripComment, if_neg quote, if_neg noComment, ih next,
        List.count_cons_of_ne quote]

theorem Uncommented.stripComment {head : List Char} (uncommented : Uncommented head)
    (rest : List Char) :
    stripComment false (head ++ rest) = head ++ stripComment (decide (Odd (head.count '"'))) rest := by
  have inside : ∀ before after, head = before ++ '#' :: after →
      (Odd (before.count '"') ↔ false = false) :=
    fun before after is => iff_of_true (uncommented before after is) rfl
  simpa using stripComment_uncommented inside rest

/-- Whether a `#` begins a comment is decided by the quotes before it on its physical line. -/
theorem Uncommented.begins_iff {head : List Char} (uncommented : Uncommented head) (tail : List Char) :
    Blif.stripComment false (head ++ '#' :: tail) = head ↔ Even (head.count '"') := by
  rw [uncommented.stripComment, ← Nat.not_odd_iff_even]
  by_cases odd : Odd (head.count '"') <;> simp [odd, Blif.stripComment]

theorem trimEnd_mark {c : Char} (visible : Text.isBlank c = false) (before after : List Char) :
    Text.trimEnd (before ++ c :: after) = before ++ c :: Text.trimEnd after := by
  simp only [Text.trimEnd, List.reverse_append, List.reverse_cons, List.append_assoc,
    List.singleton_append, List.dropWhile_append]
  by_cases blank : (after.reverse.dropWhile Text.isBlank).isEmpty
  · have none := List.isEmpty_iff.mp blank
    simp [none, visible]
  · simp [blank]

theorem trim_mark {c : Char} (visible : Text.isBlank c = false) (before after : List Char) :
    Text.trim (before ++ c :: after) = before.dropWhile Text.isBlank ++ c :: Text.trimEnd after := by
  have start : (before ++ c :: after).dropWhile Text.isBlank =
      before.dropWhile Text.isBlank ++ c :: after := by
    simp only [List.dropWhile_append]
    by_cases blank : (before.dropWhile Text.isBlank).isEmpty
    · have none := List.isEmpty_iff.mp blank
      simp [none, visible]
    · simp [blank]
  rw [Text.trim, start, trimEnd_mark visible]

theorem count_trimEnd {c : Char} (visible : Text.isBlank c = false) (cs : List Char) :
    (Text.trimEnd cs).count c = cs.count c := by
  simp only [Text.trimEnd, List.count_reverse, count_dropWhile visible]

theorem count_trim {c : Char} (visible : Text.isBlank c = false) (cs : List Char) :
    (Text.trim cs).count c = cs.count c := by
  rw [Text.trim, count_trimEnd visible, count_dropWhile visible]

/-- Neither blanks nor the continuation mark are quotes. -/
theorem Piece.count_text (line : List Char) :
    (Piece.ofPhysical line).text.count '"' = (stripComment false line).count '"' := by
  have quote : Text.isBlank '"' = false := by decide
  have code := count_trimEnd quote (stripComment false line)
  unfold ofPhysical
  dsimp only
  split
  next marked =>
    have whole := List.dropLast_append_getLast? _ marked
    have same := congrArg (List.count '"') whole
    simp only [List.count_append, List.count_singleton] at same
    rw [count_trim quote, ← code]
    simpa using same
  next => rw [count_trim quote, code]

/-- A `#` that is kept stands in the piece behind all that stands before it, less the leading blanks. -/
theorem Piece.text_mark {line head more : List Char}
    (kept : stripComment false line = head ++ '#' :: more) :
    ∃ rest, (Piece.ofPhysical line).text = head.dropWhile Text.isBlank ++ '#' :: rest := by
  have visible : Text.isBlank '#' = false := by decide
  unfold ofPhysical
  simp only [kept, trimEnd_mark visible]
  split
  next marked =>
    have some : Text.trimEnd more ≠ [] := by
      intro none
      simp [none] at marked
    have shorter : (head ++ '#' :: Text.trimEnd more).dropLast =
        head ++ '#' :: (Text.trimEnd more).dropLast := by
      rw [List.dropLast_append_of_ne_nil (List.cons_ne_nil _ _), List.dropLast_cons_of_ne_nil some]
    exact ⟨_, by rw [shorter, trim_mark visible]⟩
  next => exact ⟨_, trim_mark visible head _⟩

/-! ### Logical lines -/

namespace LogicalLine

theorem extend_prefix (line : LogicalLine) (text : List Char) :
    line.text <+: (line.extend text).text := by
  unfold extend
  split
  · exact List.prefix_rfl
  · split
    next empty => simp [List.isEmpty_iff.mp empty]
    next => exact List.prefix_append _ _

theorem count_extend (line : LogicalLine) (text : List Char) :
    (line.extend text).text.count '"' = line.text.count '"' + text.count '"' := by
  unfold extend
  split
  next empty => simp [List.isEmpty_iff.mp empty]
  next =>
    split
    next empty => simp [List.isEmpty_iff.mp empty]
    next => simp

/-- What an open line says stays at its start. -/
theorem exists_prefix {n : Nat} {line : LogicalLine} {ps : List Piece} (some : line.text ≠ []) :
    ∃ l ∈ join n (Option.some line) ps, line.text <+: l.text := by
  induction ps generalizing n line with
  | nil => exact ⟨line, by simp [join, close, some], List.prefix_rfl⟩
  | cons p ps ih =>
    have grown := line.extend_prefix p.text
    have some' : (line.extend p.text).text ≠ [] := fun none => some (by simpa [none] using grown)
    simp only [join, Option.getD_some]
    split
    · obtain ⟨l, member, rest⟩ := ih some'
      exact ⟨l, member, grown.trans rest⟩
    · exact ⟨line.extend p.text, by simp [close, some'], grown⟩

/-- What is open before a physical line, and how many quotes it holds. -/
theorem exists_open (earlier : List (List Char)) : ∃ out pending,
    (∀ ps, join 1 none (earlier.map Piece.ofPhysical ++ ps) =
      out ++ join (1 + earlier.length) pending ps) ∧
      (pending.map (·.text.count '"')).getD 0 = quotesBefore earlier.reverse := by
  induction earlier using List.reverseRecOn with
  | nil => exact ⟨[], none, fun ps => rfl, rfl⟩
  | append_singleton earlier line ih =>
    obtain ⟨out, pending, before, quotes⟩ := ih
    let p := Piece.ofPhysical line
    let grown := (pending.getD ⟨1 + earlier.length, []⟩).extend p.text
    have carried : grown.text.count '"' =
        quotesBefore earlier.reverse + (stripComment false line).count '"' := by
      have start : (pending.getD ⟨1 + earlier.length, []⟩).text.count '"' =
          quotesBefore earlier.reverse := by
        rw [← quotes]
        cases pending <;> rfl
      simp only [grown, p, count_extend, Piece.count_text, start]
    refine ⟨out ++ if p.continued then [] else grown.close,
      if p.continued then some grown else none, ?_, ?_⟩
    · intro ps
      have step := join_cons (1 + earlier.length) pending p ps
      simp only [List.map_append, List.map_singleton, List.append_assoc, List.singleton_append, before,
        List.length_append, List.length_singleton, ← Nat.add_assoc]
      exact congrArg (out ++ ·) step
    · simp only [List.reverse_concat, quotesBefore]
      by_cases continued : p.continued
      · simpa [p, continued] using carried
      · simp [p, continued]

/-- A `#` that its physical line keeps is kept in the logical line. -/
theorem exists_kept {text : String} {earlier later : List (List Char)} {line head more : List Char}
    (lines : physicalLines text = earlier ++ line :: later)
    (kept : stripComment false line = head ++ '#' :: more) :
    ∃ l ∈ ofText text, ∃ before after, l.text = before ++ '#' :: after ∧
      head.dropWhile Text.isBlank <:+ before ∧
      before.count '"' = quotesBefore earlier.reverse + head.count '"' := by
  obtain ⟨out, pending, divided, quotes⟩ := exists_open earlier
  obtain ⟨rest, piece⟩ := Piece.text_mark kept
  let start := pending.getD ⟨1 + earlier.length, []⟩
  have started : start.text.count '"' = quotesBefore earlier.reverse := by
    rw [← quotes]
    cases pending <;> rfl
  -- The mark in the logical line as far as it goes with this piece.
  obtain ⟨before, grown, shown, count⟩ : ∃ before,
      (start.extend (Piece.ofPhysical line).text).text = before ++ '#' :: rest ∧
      head.dropWhile Text.isBlank <:+ before ∧
      before.count '"' = quotesBefore earlier.reverse + head.count '"' := by
    have skipped : (head.dropWhile Text.isBlank).count '"' = head.count '"' :=
      count_dropWhile (by decide) head
    by_cases empty : start.text = []
    · refine ⟨head.dropWhile Text.isBlank, by simp [extend, piece, empty], List.suffix_rfl, ?_⟩
      rw [skipped, ← started, empty, List.count_nil, Nat.zero_add]
    · refine ⟨start.text ++ ' ' :: head.dropWhile Text.isBlank, by simp [extend, piece, empty], ?_, ?_⟩
      · exact (List.suffix_cons ' ' _).trans (List.suffix_append _ _)
      · rw [List.count_append, List.count_cons_of_ne (by decide), skipped, started]
  have whole : ofText text = out ++ join (1 + earlier.length) pending
      (Piece.ofPhysical line :: later.map Piece.ofPhysical) := by
    rw [ofText, pieces_eq, lines, List.map_append, List.map_cons, divided]
  have some : (start.extend (Piece.ofPhysical line).text).text ≠ [] := by simp [grown]
  -- The line ends here, or goes on and keeps what it says so far.
  obtain ⟨l, member, ⟨after, extended⟩⟩ : ∃ l ∈ join (1 + earlier.length) pending
      (Piece.ofPhysical line :: later.map Piece.ofPhysical),
      (start.extend (Piece.ofPhysical line).text).text <+: l.text := by
    rw [join]
    split
    · exact exists_prefix some
    · exact ⟨start.extend (Piece.ofPhysical line).text, by simp [close, some, start], List.prefix_rfl⟩
  refine ⟨l, by simp [whole, member], before, rest ++ after, ?_, shown, count⟩
  rw [← extended, grown, List.append_assoc, List.cons_append]

end LogicalLine

/-- Every `#` that is not part of a comment already begins one if its physical line holds an even number
of quotes before it, and is lost with the rest of that line. Otherwise it is kept in the logical line.
So comments begin at those `#` that stand in no string of the logical line if, and only if, the logical
line holds an even number of quotes before each of its physical lines with a `#`. -/
theorem comment_marks (text : String) :
    (∀ earlier head tail later, Mark text earlier head tail later →
      (stripComment false (head ++ '#' :: tail) = head ↔ Even (head.count '"')) ∧
      (Even (head.count '"') →
        LogicalLine.ofText text = LogicalLine.ofText (unlines (earlier ++ head :: later))) ∧
      (Odd (head.count '"') → ∃ l ∈ LogicalLine.ofText text, ∃ before after,
        l.text = before ++ '#' :: after ∧ head.dropWhile Text.isBlank <:+ before ∧
        before.count '"' = quotesBefore earlier.reverse + head.count '"')) ∧
    ((∀ earlier head tail later, Mark text earlier head tail later →
        (stripComment false (head ++ '#' :: tail) = head ↔
          ¬ Odd (quotesBefore earlier.reverse + head.count '"'))) ↔
      ∀ earlier line later, physicalLines text = earlier ++ line :: later → '#' ∈ line →
        Even (quotesBefore earlier.reverse)) := by
  refine ⟨fun earlier head tail later mark => ⟨mark.uncommented.begins_iff tail, ?_, ?_⟩, ?_, ?_⟩
  · intro even
    have lost := (mark.uncommented.begins_iff tail).mpr even
    have code : stripComment false head = head := by
      simpa [stripComment] using mark.uncommented.stripComment []
    have unbroken : ∀ line ∈ earlier ++ head :: later, '\n' ∉ line := by
      have all := physicalLines_unbroken text
      simp only [mark.lines, List.forall_mem_append, List.forall_mem_cons] at all ⊢
      exact ⟨all.1, fun feed => all.2.1 (List.mem_append_left _ feed), all.2.2⟩
    have same : Piece.ofPhysical (head ++ '#' :: tail) = Piece.ofPhysical head := by
      simp only [Piece.ofPhysical, lost, code]
    have lines := physicalLines_unlines (by simp) unbroken
    simp only [LogicalLine.ofText, pieces_eq, lines, mark.lines, List.map_append, List.map_cons, same]
  · intro odd
    have kept : stripComment false (head ++ '#' :: tail) = head ++ '#' :: stripComment true tail := by
      rw [mark.uncommented.stripComment]
      simp [odd, stripComment]
    exact LogicalLine.exists_kept mark.lines kept
  · intro agree earlier line later lines member
    obtain ⟨head, tail, rfl, fresh⟩ := List.eq_append_cons_of_mem member
    have uncommented : Uncommented head := by
      rintro before after rfl
      simp at fresh
    have mark : Mark text earlier head tail later := ⟨lines, uncommented⟩
    have both := (uncommented.begins_iff tail).symm.trans (agree earlier head tail later mark)
    rw [Nat.not_odd_iff_even, Nat.even_add] at both
    tauto
  · intro even earlier head tail later mark
    have before := even earlier _ later mark.lines (by simp)
    rw [mark.uncommented.begins_iff, Nat.not_odd_iff_even, Nat.even_add]
    simp [before]

def hashInOpenString : String := ".model top\n.ltlformula \"G (a \\\n# b)\"\n.end\n"

theorem comment_marks_openString :
    Mark hashInOpenString [".model top".toList, ".ltlformula \"G (a \\".toList] [] " b)\"".toList
      [".end".toList, []] ∧
    LogicalLine.ofText hashInOpenString = LogicalLine.ofText ".model top\n.ltlformula \"G (a \\\n\n.end\n" ∧
    ¬ ∀ earlier line later, physicalLines hashInOpenString = earlier ++ line :: later → '#' ∈ line →
        Even (quotesBefore earlier.reverse) := by
  have mark : Mark hashInOpenString [".model top".toList, ".ltlformula \"G (a \\".toList] []
      " b)\"".toList [".end".toList, []] := ⟨by decide +kernel, by simp [Uncommented]⟩
  obtain ⟨begins, -⟩ := (comment_marks hashInOpenString).1 _ _ _ _ mark
  refine ⟨mark, ?_, ?_⟩
  · exact ((comment_marks hashInOpenString).1 _ _ _ _ mark).2.1 (by decide)
  · intro even
    have agree := (comment_marks hashInOpenString).2.mpr even _ _ _ _ mark
    exact absurd (agree.mp (begins.mpr (by decide))) (by decide +kernel)

/-- The `#` stands in a string of its logical line, and is lost with the rest of the string. -/
theorem hashInOpenString_lost : ∃ earlier head tail later,
    Mark hashInOpenString earlier head tail later ∧ Odd (quotesBefore earlier.reverse + head.count '"') ∧
    stripComment false (head ++ '#' :: tail) = head ∧
    (∀ line ∈ LogicalLine.ofText hashInOpenString, '#' ∉ line.text) ∧
    Line.ofText hashInOpenString = .error (.inLine 2 (.malformed .argument)) := by
  refine ⟨[".model top".toList, ".ltlformula \"G (a \\".toList], [], " b)\"".toList, [".end".toList, []],
    ⟨by decide +kernel, by simp [Uncommented]⟩, by decide +kernel, by decide, by decide +kernel,
    by decide +kernel⟩

end Netlist.Blif
