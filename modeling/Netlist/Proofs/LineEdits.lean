import Netlist.Proofs.Numbering
import Netlist.Proofs.PhysicalLines

/-!
# Replacing a logical line

A logical line comes from a run of physical lines, all but the last of which are continued, and what it
says depends on no other run. So other lines can be put in its place.
-/

namespace Netlist

theorem Text.cut_unmarked {p : α → Bool} (l : List α) : ∀ piece ∈ cut p l, ∀ a ∈ piece, p a = false := by
  induction l with
  | nil => simp [cut]
  | cons a l ih =>
    rw [cut]
    split
    next => exact List.forall_mem_cons.mpr ⟨List.forall_mem_nil _, ih⟩
    next unmarked =>
      split
      next none => exact absurd none (cut_ne_nil p l)
      next piece pieces divided =>
        rw [divided] at ih
        obtain ⟨first, later⟩ := List.forall_mem_cons.mp ih
        exact List.forall_mem_cons.mpr
          ⟨List.forall_mem_cons.mpr ⟨by simpa using unmarked, first⟩, later⟩

namespace Blif

/-- What follows these pieces starts a logical line. -/
def Closed (ps : List Piece) : Prop := ∀ p ∈ ps.getLast?, p.continued = false

theorem closed_nil : Closed [] := by simp [Closed]

theorem Closed.tail {p : Piece} {ps : List Piece} (closed : Closed (p :: ps)) : Closed ps := by
  intro q last
  apply closed q
  rw [List.getLast?_cons, last]
  rfl

theorem Closed.cons {p : Piece} {ps : List Piece} (closed : Closed ps)
    (alone : ps = [] → p.continued = false) : Closed (p :: ps) := by
  intro q last
  rw [List.getLast?_cons, Option.mem_def, Option.some.injEq] at last
  cases ended : ps.getLast? with
  | none =>
    rw [ended] at last
    exact last ▸ alone (List.getLast?_eq_none_iff.mp ended)
  | some r =>
    rw [ended] at last
    exact last ▸ closed r ended

namespace LogicalLine

variable {n : Nat} {pending : Option LogicalLine} {p : Piece} {ps qs : List Piece}
  {before after : List (List Char)} {short : List Char}

theorem join_append (closed : Closed ps) (start : ps = [] → pending = none) (n : Nat) (qs : List Piece) :
    join n pending (ps ++ qs) = join n pending ps ++ join (n + ps.length) none qs := by
  induction ps generalizing n pending with
  | nil =>
    rw [start rfl]
    rfl
  | cons p ps ih =>
    have next : n + (p :: ps).length = n + 1 + ps.length := by simp [Nat.add_assoc, Nat.add_comm 1]
    rw [List.cons_append, join, join, next]
    split
    next continued =>
      refine ih closed.tail ?_ (n + 1)
      rintro rfl
      exact absurd (closed p rfl) (by simp [continued])
    next => rw [ih closed.tail (fun _ => rfl), List.append_assoc]

def said (ps : List Piece) : List (List Char) := (join 1 none ps).map text

theorem extend_text {l l' : LogicalLine} (same : l.text = l'.text) (t : List Char) :
    (l.extend t).text = (l'.extend t).text := by
  unfold extend
  rw [same]
  split
  · exact same
  · split <;> simp

/-- The numbers of lines do not matter for what they say. -/
theorem map_join {n n' : Nat} {pending pending' : Option LogicalLine}
    (same : pending.map text = pending'.map text) :
    (join n pending ps).map text = (join n' pending' ps).map text := by
  have close_text {l l' : LogicalLine} (same : l.text = l'.text) :
      l.close.map text = l'.close.map text := by
    unfold close
    rw [same]
    split <;> simp [same]
  induction ps generalizing n n' pending pending' with
  | nil =>
    cases pending with
    | none =>
      obtain rfl := Option.map_eq_none_iff.mp same.symm
      rfl
    | some l =>
      obtain ⟨l', rfl, alike⟩ := Option.map_eq_some_iff.mp same.symm
      exact close_text alike.symm
  | cons p ps ih =>
    have open' : ((pending.getD ⟨n, []⟩).extend p.text).text =
        ((pending'.getD ⟨n', []⟩).extend p.text).text := by
      apply extend_text
      cases pending <;> cases pending' <;> simp_all
    rw [join, join]
    split
    · exact ih (congrArg some open')
    · rw [List.map_append, List.map_append, close_text open', ih rfl]

theorem said_append (closed : Closed ps) : said (ps ++ qs) = said ps ++ said qs := by
  rw [said, join_append closed (fun _ => rfl), List.map_append]
  exact congrArg _ (map_join rfl)

/-- A piece ends a line or leaves it open for the next one. -/
theorem join_cons (n : Nat) (pending : Option LogicalLine) (p : Piece) (ps : List Piece) :
    let line := (pending.getD ⟨n, []⟩).extend p.text
    join n pending (p :: ps) = (if p.continued then [] else line.close) ++
      join (n + 1) (if p.continued then some line else none) ps := by
  rw [join]
  split <;> rfl

/-- The pieces that a line comes from, between those that say the earlier lines and those that say the
later ones. -/
theorem exists_divided (divided : (join n pending ps).map text = before ++ short :: after) :
    ∃ early own late, ps = early ++ own ++ late ∧ (early = [] → before = []) ∧
      (early ≠ [] → Closed early ∧ (join n pending early).map text = before) ∧ said late = after := by
  induction ps generalizing n pending before with
  | nil =>
    have few : ((join n pending []).map text).length ≤ 1 := by
      cases pending with
      | none => simp [join]
      | some l =>
        simp only [join, close, Option.map_some, Option.getD_some]
        split <;> simp
    rw [divided, List.length_append, List.length_cons] at few
    obtain rfl := List.eq_nil_of_length_eq_zero (l := before) (by omega)
    obtain rfl := List.eq_nil_of_length_eq_zero (l := after) (by omega)
    exact ⟨[], [], [], rfl, fun _ => rfl, fun some => absurd rfl some, rfl⟩
  | cons p ps ih =>
    obtain ⟨line, is⟩ : ∃ line, line = (pending.getD ⟨n, []⟩).extend p.text := ⟨_, rfl⟩
    have step := join_cons n pending p
    simp only [← is] at step
    rw [step, List.map_append] at divided
    by_cases ends : p.continued = false ∧ line.text ≠ []
    · -- The piece ends a line that has text: the one looked for, or one before it.
      have out : (if p.continued then [] else line.close) = [line] := by simp [ends, close]
      rw [out] at divided step
      rcases List.cons_eq_append_iff.mp divided with ⟨rfl, same⟩ | ⟨before, rfl, rest⟩
      · obtain ⟨-, rfl⟩ := List.cons.inj same
        refine ⟨[], [p], ps, rfl, fun _ => rfl, fun some => absurd rfl some, ?_⟩
        rw [ends.1]
        exact map_join rfl
      · obtain ⟨early, own, late, rfl, start, more, rest⟩ := ih rest
        have earlier : Closed early ∧ (join (n + 1) none early).map text = before := by
          cases early with
          | nil => exact ⟨closed_nil, (start rfl).symm⟩
          | cons q early =>
            rw [ends.1] at more
            exact more (List.cons_ne_nil _ _)
        refine ⟨p :: early, own, late, rfl, by simp, fun _ => ⟨?_, ?_⟩, rest⟩
        · exact earlier.1.cons fun _ => ends.1
        · rw [step, ends.1, List.map_append]
          exact congrArg _ earlier.2
    · -- Otherwise the piece says nothing by itself.
      have out : (if p.continued then [] else line.close) = [] := by
        cases continued : p.continued with
        | true => rfl
        | false => simpa [close, continued] using ends
      rw [out] at divided step
      obtain ⟨early, own, late, rfl, start, more, rest⟩ := ih divided
      cases early with
      | nil => exact ⟨[], p :: own, late, rfl, start, fun absent => absurd rfl absent, rest⟩
      | cons q early =>
        obtain ⟨closed, earlier⟩ := more (List.cons_ne_nil _ _)
        refine ⟨p :: q :: early, own, late, rfl, by simp, fun _ => ⟨closed.cons (by simp), ?_⟩, rest⟩
        rw [step]
        exact earlier

/-- The same for a whole text. -/
theorem exists_said_divided (divided : said ps = before ++ short :: after) :
    ∃ early own late, ps = early ++ own ++ late ∧ Closed early ∧ said early = before ∧
      said late = after := by
  obtain ⟨early, own, late, whole, start, more, rest⟩ := exists_divided divided
  refine ⟨early, own, late, whole, ?_⟩
  cases early with
  | nil => exact ⟨closed_nil, (start rfl).symm, rest⟩
  | cons p early => exact ⟨(more (List.cons_ne_nil _ _)).1, (more (List.cons_ne_nil _ _)).2, rest⟩

variable {texts : List (List Char)}

theorem said_verbatim (verbatim : ∀ t ∈ texts, Verbatim t) :
    Closed (texts.map Piece.ofPhysical) ∧ said (texts.map Piece.ofPhysical) = texts := by
  rw [pieces_verbatim verbatim]
  constructor
  · intro p last
    obtain ⟨t, -, rfl⟩ := List.mem_map.mp (List.mem_of_getLast? last)
    rfl
  · rw [said, join_separate, close_verbatim verbatim]
    apply List.ext_getElem
    · simp
    · simp

end LogicalLine

def physicalLines (text : String) : List (List Char) := Text.cut (· = '\n') text.toList

def unlines (lines : List (List Char)) : String := String.ofList (['\n'].intercalate lines)

theorem pieces_eq (text : String) : pieces text.toList = (physicalLines text).map Piece.ofPhysical := rfl

theorem physicalLines_unlines {lines : List (List Char)} (some : lines ≠ [])
    (unbroken : ∀ line ∈ lines, '\n' ∉ line) : physicalLines (unlines lines) = lines := by
  obtain ⟨first, others, rfl⟩ := List.exists_cons_of_ne_nil some
  rw [physicalLines, unlines, String.toList_ofList]
  apply Text.cut_intercalate (by decide)
  intro line member c inside
  rw [decide_eq_false_iff_not]
  rintro rfl
  exact unbroken line member inside

theorem physicalLines_unbroken (text : String) : ∀ line ∈ physicalLines text, '\n' ∉ line := by
  intro line member feed
  simpa using Text.cut_unmarked text.toList line member _ feed

/-- Lines can be put in the place of a logical line, and the others say what they said. -/
theorem exists_replaced {text : String} {before after texts : List (List Char)} {short : List Char}
    (whole : lineTexts text = before ++ short :: after) (some : texts ≠ [])
    (verbatim : ∀ t ∈ texts, Verbatim t) : ∃ text', lineTexts text' = before ++ texts ++ after := by
  have divided : LogicalLine.said ((physicalLines text).map Piece.ofPhysical) =
      before ++ short :: after := whole
  obtain ⟨early, own, late, parts, closed, rfl, rfl⟩ := LogicalLine.exists_said_divided divided
  obtain ⟨upper, last, physical, above, rfl⟩ := List.map_eq_append_iff.mp parts
  obtain ⟨first, middle, rfl, rfl, -⟩ := List.map_eq_append_iff.mp above
  have given := physicalLines_unbroken text
  rw [physical] at given
  have unbroken : ∀ l ∈ first ++ texts ++ last, '\n' ∉ l := by
    intro l member
    rw [List.mem_append, List.mem_append] at member
    rcases member with (member | member) | member
    · exact given l (by simp [member])
    · exact (verbatim l member).unbroken
    · exact given l (by simp [member])
  obtain ⟨closed', said⟩ := LogicalLine.said_verbatim verbatim
  refine ⟨unlines (first ++ texts ++ last), ?_⟩
  rw [lineTexts, LogicalLine.ofText, pieces_eq, physicalLines_unlines (by simp [some]) unbroken,
    List.map_append, List.map_append, ← LogicalLine.said, List.append_assoc,
    LogicalLine.said_append closed, LogicalLine.said_append closed', said, List.append_assoc]

/-! ### Logical lines hold no line feed -/

theorem stripComment_subset (quoted : Bool) (line : List Char) : stripComment quoted line ⊆ line := by
  fun_induction stripComment quoted line <;> simp_all

theorem Piece.text_subset (line : List Char) : (Piece.ofPhysical line).text ⊆ line := by
  have ends (cs : List Char) : Text.trimEnd cs ⊆ cs := fun c member => by
    simpa using (List.dropWhile_suffix _).subset (List.mem_reverse.mp member)
  have both (cs : List Char) : Text.trim cs ⊆ cs :=
    List.Subset.trans (ends _) (List.dropWhile_suffix _).subset
  have code : Text.trimEnd (stripComment false line) ⊆ line :=
    List.Subset.trans (ends _) (stripComment_subset _ _)
  unfold ofPhysical
  dsimp only
  split
  · exact List.Subset.trans (both _) (List.Subset.trans (List.dropLast_subset _) code)
  · exact List.Subset.trans (both _) code

/-- What holds of every piece with text, and of two texts with a space between them if it holds of both,
holds of every line. -/
theorem LogicalLine.join_forall {P : List Char → Prop} (spaced : ∀ t u, P t → P u → P (t ++ ' ' :: u))
    {ps : List Piece} (pieces : ∀ q ∈ ps, q.text ≠ [] → P q.text) {n : Nat} {pending : Option LogicalLine}
    (opened : ∀ l ∈ pending, l.text ≠ [] → P l.text) :
    ∀ l ∈ join n pending ps, l.text ≠ [] ∧ P l.text := by
  have close_holds {l : LogicalLine} (holds : l.text ≠ [] → P l.text) :
      ∀ k ∈ l.close, k.text ≠ [] ∧ P k.text := by
    intro k member
    unfold close at member
    split at member
    · cases member
    next some =>
      obtain rfl := List.mem_singleton.mp member
      have some : k.text ≠ [] := by simpa using some
      exact ⟨some, holds some⟩
  induction ps generalizing n pending with
  | nil =>
    cases pending with
    | none => exact List.forall_mem_nil _
    | some l => exact close_holds (opened l rfl)
  | cons q ps ih =>
    obtain ⟨here, later⟩ := List.forall_mem_cons.mp pieces
    have before : (pending.getD ⟨n, []⟩).text ≠ [] → P (pending.getD ⟨n, []⟩).text := by
      cases pending with
      | none => exact fun some => absurd rfl some
      | some l => exact opened l rfl
    have holds : ((pending.getD ⟨n, []⟩).extend q.text).text ≠ [] →
        P ((pending.getD ⟨n, []⟩).extend q.text).text := by
      unfold extend
      split
      · exact before
      next more =>
        have more : q.text ≠ [] := by simpa using more
        split
        · exact here
        next some => exact fun _ => spaced _ _ (before (by simpa using some)) (here more)
    rw [join]
    split
    · exact ih later (by rintro _ ⟨⟩; exact holds)
    · rw [List.forall_mem_append]
      exact ⟨close_holds holds, ih later (by simp)⟩

theorem lineTexts_unbroken (text : String) : ∀ t ∈ lineTexts text, '\n' ∉ t := by
  have pieces : ∀ q ∈ pieces text.toList, q.text ≠ [] → '\n' ∉ q.text := by
    intro q member _ feed
    obtain ⟨physical, piece, rfl⟩ := List.mem_map.mp member
    simpa using Text.cut_unmarked text.toList physical piece _ (Piece.text_subset physical feed)
  intro t member
  obtain ⟨l, line, rfl⟩ := List.mem_map.mp member
  exact (LogicalLine.join_forall (P := ('\n' ∉ ·)) (by simp_all) pieces (by simp) l line).2

end Blif

end Netlist
