import Netlist.Proofs.CommentMarks
import Netlist.Proofs.Layout

/-!
# Logical lines as groups of physical lines

The physical lines of a text fall into groups: a group ends with the first line that is not continued, and
with the text. A group that says something is a logical line. It bears the number of the first line of the
group, also if that is blank, and holds what the lines of the group say, with single spaces between.
-/

namespace Netlist

namespace Text

variable {cs t : List Char}

/-- The lines of a text. Each ends at a line feed, or at a carriage return and a line feed, and behind the
last line feed there is a line only if there is something. -/
def lines (text : List Char) : List (List Char) :=
  (cut (· = '\n') text).dropLast.map (fun line => if line.getLast? = some '\r' then line.dropLast else line) ++
    (cut (· = '\n') text).getLast?.toList.filter (· ≠ [])

structure Trimmed (cs t : List Char) : Prop where
  around : ∃ before after, cs = before ++ t ++ after ∧ ∀ c ∈ before ++ after, isBlank c
  first : ∀ c ∈ t.head?, isBlank c = false
  last : ∀ c ∈ t.getLast?, isBlank c = false

theorem first_dropWhile (cs : List Char) : ∀ c ∈ (cs.dropWhile isBlank).head?, isBlank c = false := by
  intro c first
  have visible := List.head?_dropWhile_not isBlank cs
  rw [Option.mem_def.mp first] at visible
  exact visible

theorem trimmed_trim (cs : List Char) : Trimmed cs (trim cs) where
  around := by
    refine ⟨cs.takeWhile isBlank, ((cs.dropWhile isBlank).reverse.takeWhile isBlank).reverse, ?_, ?_⟩
    · have inner := congrArg List.reverse
        ((cs.dropWhile isBlank).reverse.takeWhile_append_dropWhile (p := isBlank))
      rw [List.reverse_append, List.reverse_reverse] at inner
      rw [trim, trimEnd, List.append_assoc, inner, List.takeWhile_append_dropWhile]
    · intro c member
      rcases List.mem_append.mp member with before | after
      · exact List.mem_takeWhile_imp before
      · exact List.mem_takeWhile_imp (List.mem_reverse.mp after)
  first := by
    intro c first
    have part : trim cs <+: cs.dropWhile isBlank := by
      rw [trim, trimEnd, ← List.reverse_suffix, List.reverse_reverse]
      exact List.dropWhile_suffix _
    apply first_dropWhile cs c
    obtain ⟨rest, whole⟩ := part
    rw [← whole, List.head?_append, Option.mem_def.mp first]
    rfl
  last := by
    intro c last
    rw [trim, trimEnd, List.getLast?_reverse] at last
    exact first_dropWhile _ c last

theorem Trimmed.trim_eq (trimmed : Trimmed cs t) : trim cs = t := by
  obtain ⟨⟨before, after, rfl, blank⟩, first, last⟩ := trimmed
  obtain ⟨blankBefore, blankAfter⟩ := List.forall_mem_append.mp blank
  rw [trim, List.append_assoc, List.dropWhile_append_of_pos blankBefore]
  cases t with
  | nil =>
    have none : after.dropWhile isBlank = [] := List.dropWhile_eq_nil_iff.mpr blankAfter
    rw [List.nil_append, none]
    rfl
  | cons c t =>
    have start : (c :: t ++ after).dropWhile isBlank = c :: t ++ after :=
      dropWhile_isBlank_eq_self first
    rw [start, trimEnd_append_blanks blankAfter, trimEnd_eq_self last]

/-- Blanks in front make no difference. -/
theorem Trimmed.append {before : List Char} (trimmed : Trimmed cs t) (blank : ∀ c ∈ before, isBlank c) :
    Trimmed (before ++ cs) t := by
  obtain ⟨⟨front, after, rfl, around⟩, first, last⟩ := trimmed
  refine ⟨⟨before ++ front, after, by simp, ?_⟩, first, last⟩
  rw [List.append_assoc]
  exact List.forall_mem_append.mpr ⟨blank, around⟩

/-- Without the blanks at its end a sequence ends as it does without those around it. -/
theorem Trimmed.exists_trimEnd (trimmed : Trimmed cs t) :
    ∃ before, (∀ c ∈ before, isBlank c) ∧ trimEnd cs = before ++ t ∧ (before ++ t).getLast? = t.getLast? := by
  obtain ⟨⟨before, after, rfl, blank⟩, first, last⟩ := trimmed
  obtain ⟨blankBefore, blankAfter⟩ := List.forall_mem_append.mp blank
  rw [trimEnd_append_blanks blankAfter]
  obtain rfl | some := eq_or_ne t []
  · refine ⟨[], List.forall_mem_nil _, ?_, rfl⟩
    simpa [trimEnd] using @trimEnd_append_blanks [] _ blankBefore
  · have ends : (before ++ t).getLast? = t.getLast? := by
      rw [List.getLast?_append_of_ne_nil _ some]
    exact ⟨before, blankBefore, trimEnd_eq_self (ends ▸ last), ends⟩

end Text

namespace Blif

open Text (Trimmed isBlank)

variable {line code : List Char} {p : Piece}

/-- A physical line without its comment, which begins at the first `#` that stands behind an even number
of quotes. -/
inductive Code : List Char → List Char → Prop where
  | whole (line : List Char) (uncommented : Uncommented line) : Code line line
  | commented (code comment : List Char) (uncommented : Uncommented code)
      (even : Even (code.count '"')) : Code (code ++ '#' :: comment) code

/-- What a physical line says: a backslash behind all else continues it. -/
inductive Gives : List Char → Piece → Prop where
  | ended {line code text : List Char} (stripped : Code line code) (trimmed : Trimmed code text)
      (plain : text.getLast? ≠ some '\\') : Gives line ⟨text, false⟩
  | continued {line code body text : List Char} (stripped : Code line code)
      (trimmed : Trimmed code (body ++ ['\\'])) (again : Trimmed body text) : Gives line ⟨text, true⟩

/-- Numbered pieces in groups. A group ends with its first piece that is not continued, and the last one
with the last piece if that is continued. -/
inductive Grouped : List (Piece × Nat) → List (List (Piece × Nat)) → Prop where
  | nil : Grouped [] []
  | unfinished {own : List (Piece × Nat)} (some : own ≠ []) (continued : ∀ q ∈ own, q.1.continued) :
      Grouped own [own]
  | cons {own later : List (Piece × Nat)} {last : Piece × Nat} {groups : List (List (Piece × Nat))}
      (continued : ∀ q ∈ own, q.1.continued) (ended : last.1.continued = false)
      (grouped : Grouped later groups) : Grouped (own ++ last :: later) ((own ++ [last]) :: groups)

/-- The logical line of a group. It has none if none of its pieces has text. -/
def LogicalLine.ofGroup : List (Piece × Nat) → Option LogicalLine
  | [] => none
  | first :: others =>
    let texts := ((first :: others).map (·.1.text)).filter (· ≠ [])
    if texts = [] then none else some ⟨first.2, [' '].intercalate texts⟩

/-- There is something in the text. It lies on one line and has no blanks around it. -/
structure Compact (t : List Char) : Prop where
  some : t ≠ []
  unbroken : '\n' ∉ t
  first : ∀ c ∈ t.head?, isBlank c = false
  last : ∀ c ∈ t.getLast?, isBlank c = false

/-! ### Physical lines -/

theorem Code.stripComment_eq (stripped : Code line code) : stripComment false line = code := by
  obtain ⟨line, uncommented⟩ | ⟨code, comment, uncommented, even⟩ := stripped
  · simpa [stripComment] using uncommented.stripComment []
  · exact (uncommented.begins_iff comment).mpr even

theorem exists_code (line : List Char) : ∃ code, Code line code := by
  induction line using List.reverseRecOn with
  | nil => exact ⟨[], .whole [] fun before after is => absurd is (by simp)⟩
  | append_singleton line c ih =>
    obtain ⟨code, ⟨_, uncommented⟩ | ⟨_, comment, uncommented, even⟩⟩ := ih
    · by_cases begins : c = '#' ∧ Even (line.count '"')
      · obtain ⟨rfl, even⟩ := begins
        exact ⟨line, .commented line [] uncommented even⟩
      · refine ⟨_, .whole _ fun before after is => ?_⟩
        obtain rfl | ⟨after, last, rfl⟩ := after.eq_nil_or_concat'
        · obtain ⟨rfl, rfl⟩ := List.append_singleton_inj.mp is
          simpa using begins
        · rw [← List.cons_append, ← List.append_assoc] at is
          exact uncommented before after (List.append_singleton_inj.mp is).1
    · refine ⟨code, ?_⟩
      simpa using Code.commented code (comment ++ [c]) uncommented even

theorem Gives.ofPhysical_eq (gives : Gives line p) : Piece.ofPhysical line = p := by
  cases gives with
  | @ended _ text stripped trimmed plain =>
    obtain ⟨before, blank, shorter, last⟩ := trimmed.exists_trimEnd
    have again : Trimmed text text := ⟨⟨[], [], by simp, by simp⟩, trimmed.first, trimmed.last⟩
    simp only [Piece.ofPhysical, stripped.stripComment_eq, shorter, last, if_neg plain,
      (again.append blank).trim_eq]
  | @continued _ body text stripped trimmed again =>
    obtain ⟨before, blank, shorter, last⟩ := trimmed.exists_trimEnd
    have mark : (before ++ (body ++ ['\\'])).getLast? = some '\\' := by simp
    have rest : (before ++ (body ++ ['\\'])).dropLast = before ++ body := by
      rw [← List.append_assoc, List.dropLast_concat]
    simp only [Piece.ofPhysical, stripped.stripComment_eq, shorter, if_pos mark, rest,
      (again.append blank).trim_eq]

theorem exists_gives (line : List Char) : ∃ p, Gives line p := by
  obtain ⟨code, stripped⟩ := exists_code line
  by_cases mark : (Text.trim code).getLast? = some '\\'
  · obtain ⟨body, whole⟩ := List.getLast?_eq_some_iff.mp mark
    exact ⟨_, .continued stripped (whole ▸ Text.trimmed_trim code) (Text.trimmed_trim body)⟩
  · exact ⟨_, .ended stripped (Text.trimmed_trim code) mark⟩

theorem gives_iff : Gives line p ↔ Piece.ofPhysical line = p := by
  refine ⟨Gives.ofPhysical_eq, ?_⟩
  rintro rfl
  obtain ⟨p, gives⟩ := exists_gives line
  exact gives.ofPhysical_eq ▸ gives

theorem exists_trimmed (line : List Char) : ∃ code, Trimmed code (Piece.ofPhysical line).text := by
  obtain ⟨p, gives⟩ := exists_gives line
  rw [gives.ofPhysical_eq]
  obtain ⟨_, trimmed, _⟩ | ⟨_, _, trimmed⟩ := gives
  · exact ⟨_, trimmed⟩
  · exact ⟨_, trimmed⟩

theorem Compact.spaced {t u : List Char} (first : Compact t) (second : Compact u) :
    Compact (t ++ ' ' :: u) where
  some := by simp
  unbroken := by simp [first.unbroken, second.unbroken]
  first := by
    rw [List.head?_append_of_ne_nil _ first.some]
    exact first.first
  last := by
    rw [List.getLast?_append_of_ne_nil _ (List.cons_ne_nil _ _), List.getLast?_cons_of_ne_nil second.some]
    exact second.last

/-! ### Groups -/

theorem exists_grouped (numbered : List (Piece × Nat)) : ∃ groups, Grouped numbered groups := by
  induction numbered with
  | nil => exact ⟨[], .nil⟩
  | cons q numbered ih =>
    obtain ⟨groups, grouped⟩ := ih
    cases continued : q.1.continued with
    | false => exact ⟨_, @Grouped.cons [] _ q _ (List.forall_mem_nil _) continued grouped⟩
    | true =>
      cases grouped with
      | nil => exact ⟨_, .unfinished (List.cons_ne_nil q []) (by simpa using continued)⟩
      | unfinished _ others =>
        exact ⟨_, .unfinished (List.cons_ne_nil _ _) (List.forall_mem_cons.mpr ⟨continued, others⟩)⟩
      | @cons own _ _ _ others ended grouped =>
        have others : ∀ q' ∈ q :: own, q'.1.continued := List.forall_mem_cons.mpr ⟨continued, others⟩
        exact ⟨_, .cons others ended grouped⟩

/-- A group bears the number of its first piece. -/
theorem LogicalLine.ofGroup_number (group : List (Piece × Nat)) :
    ((ofGroup group).toList.map (·.number)).Sublist (group.map (·.2)) := by
  cases group with
  | nil => exact List.Sublist.refl []
  | cons first others =>
    unfold ofGroup
    dsimp only
    split
    · exact List.nil_sublist _
    · exact (List.nil_sublist _).cons_cons first.2

/-- Every line of a grouping bears the number of a piece, later lines that of a later one. -/
theorem Grouped.numbers {numbered : List (Piece × Nat)} {groups : List (List (Piece × Nat))}
    (grouped : Grouped numbered groups) :
    ((groups.filterMap LogicalLine.ofGroup).map (·.number)).Sublist (numbered.map (·.2)) := by
  rw [List.filterMap_eq_flatMap_toList]
  induction grouped with
  | nil => exact List.Sublist.refl []
  | @unfinished own _ _ => simpa using LogicalLine.ofGroup_number own
  | @cons own later last groups _ _ _ ih =>
    have divided : own ++ last :: later = own ++ [last] ++ later := by simp
    rw [divided, List.flatMap_cons, List.map_append, List.map_append]
    exact (LogicalLine.ofGroup_number _).append ih

namespace LogicalLine

variable {n : Nat} {ps : List Piece} {groups : List (List (Piece × Nat))}

theorem intercalate_spaced (first second : List Char) (others : List (List Char)) :
    [' '].intercalate ((first ++ ' ' :: second) :: others) =
      [' '].intercalate (first :: second :: others) := by
  rw [List.intercalate_cons_cons]
  cases others with
  | nil => simp
  | cons next others => simp [List.intercalate_cons_cons]

theorem intercalate_ne_nil {text : List Char} (some : text ≠ []) (texts : List (List Char)) :
    [' '].intercalate (text :: texts) ≠ [] := by
  cases texts with
  | nil => simpa using some
  | cons next texts => simp [List.intercalate_cons_cons]

def extendBy (line : LogicalLine) (ps : List Piece) : LogicalLine :=
  ps.foldl (fun line p => line.extend p.text) line

/-- The texts are joined by single spaces, but for the empty ones. -/
theorem extendBy_eq (line : LogicalLine) (ps : List Piece) :
    line.extendBy ps =
      ⟨line.number, [' '].intercalate ((line.text :: ps.map (·.text)).filter (· ≠ []))⟩ := by
  induction ps generalizing line with
  | nil =>
    obtain ⟨n, text⟩ := line
    cases text <;> simp [extendBy]
  | cons p ps ih =>
    have step : line.extendBy (p :: ps) = (line.extend p.text).extendBy ps := rfl
    rw [step, ih, extend, List.map_cons]
    by_cases silent : p.text = []
    · simp [silent, List.filter_cons]
    by_cases fresh : line.text = []
    · simp [silent, fresh]
    simp [silent, fresh, intercalate_spaced]

/-- What is left of a group that starts a line. -/
theorem close_extendBy (n : Nat) (some : ps ≠ []) :
    ((⟨n, []⟩ : LogicalLine).extendBy ps).close = (ofGroup (ps.zipIdx n)).toList := by
  obtain ⟨p, ps, rfl⟩ := List.exists_cons_of_ne_nil some
  have pieces : ((p, n) :: ps.zipIdx (n + 1)).map Prod.fst = p :: ps := by
    rw [List.map_cons, List.zipIdx_map_fst]
  have texts : ((p, n) :: ps.zipIdx (n + 1)).map (·.1.text) = (p :: ps).map (·.text) :=
    List.map_map.symm.trans (congrArg (List.map (·.text)) pieces)
  have start : (([] : List Char) :: (p :: ps).map (·.text)).filter (· ≠ []) =
      ((p :: ps).map (·.text)).filter (· ≠ []) := List.filter_cons_of_neg (by simp)
  rw [extendBy_eq, List.zipIdx_cons, ofGroup, texts, close, start]
  cases said : ((p :: ps).map (·.text)).filter (· ≠ []) with
  | nil => rfl
  | cons text others =>
    have some : text ≠ [] := by
      have member : text ∈ ((p :: ps).map (·.text)).filter (· ≠ []) := said ▸ List.mem_cons_self
      simpa using (List.mem_filter.mp member).2
    simp [intercalate_ne_nil some]

/-- The pieces of a group are added to the line that is open. -/
theorem join_continued (continued : ∀ p ∈ ps, p.continued) (n : Nat) (line : LogicalLine)
    (later : List Piece) :
    join n (some line) (ps ++ later) = join (n + ps.length) (some (line.extendBy ps)) later := by
  induction ps generalizing n line with
  | nil => rfl
  | cons p ps ih =>
    obtain ⟨here, others⟩ := List.forall_mem_cons.mp continued
    have next : n + (p :: ps).length = n + 1 + ps.length := by
      rw [List.length_cons, Nat.add_comm ps.length, Nat.add_assoc]
    rw [List.cons_append, join, if_pos here, ih others, next]
    rfl

theorem join_start (some : ps ≠ []) (n : Nat) : join n none ps = join n (Option.some ⟨n, []⟩) ps := by
  cases ps with
  | nil => exact absurd rfl some
  | cons p ps => rfl

theorem join_unfinished (some : ps ≠ []) (continued : ∀ p ∈ ps, p.continued) (n : Nat) :
    join n none ps = (ofGroup (ps.zipIdx n)).toList := by
  have whole := join_continued continued n ⟨n, []⟩ []
  rw [List.append_nil] at whole
  rw [join_start some, whole, ← close_extendBy n some]
  rfl

theorem join_ended {last : Piece} (continued : ∀ p ∈ ps, p.continued) (ended : last.continued = false)
    (n : Nat) (later : List Piece) : join n none (ps ++ last :: later) =
      (ofGroup ((ps ++ [last]).zipIdx n)).toList ++ join (n + ps.length + 1) none later := by
  have closed : ((⟨n, []⟩ : LogicalLine).extendBy ps).extend last.text =
      (⟨n, []⟩ : LogicalLine).extendBy (ps ++ [last]) := by
    rw [extendBy, extendBy, List.foldl_concat]
  rw [join_start (by simp), join_continued continued, join, Option.getD_some, closed, if_neg (by simp [ended]),
    close_extendBy n (by simp)]

theorem join_grouped (grouped : Grouped (ps.zipIdx n) groups) :
    join n none ps = groups.filterMap ofGroup := by
  have unnumbered {ps : List Piece} {n : Nat} (continued : ∀ q ∈ ps.zipIdx n, q.1.continued) :
      ∀ p ∈ ps, p.continued := by
    have all := List.forall_mem_map (f := Prod.fst) (P := fun p : Piece => p.continued).mpr continued
    rwa [List.zipIdx_map_fst] at all
  rw [List.filterMap_eq_flatMap_toList]
  generalize is : ps.zipIdx n = numbered at grouped
  induction grouped generalizing n ps with
  | nil =>
    obtain rfl := List.zipIdx_eq_nil_iff.mp is
    rfl
  | unfinished some continued =>
    subst is
    rw [join_unfinished (by simpa using some) (unnumbered continued), List.flatMap_singleton]
  | cons continued ended grouped ih =>
    obtain ⟨own, rest, rfl, rfl, tail⟩ := List.zipIdx_eq_append_iff.mp is
    obtain ⟨last, later, rfl, rfl, rfl⟩ := List.zipIdx_eq_cons_iff.mp tail.symm
    have group : own.zipIdx n ++ [(last, n + own.length)] = (own ++ [last]).zipIdx n := by
      rw [List.zipIdx_append]
      rfl
    rw [join_ended (unnumbered continued) ended, ih rfl, List.flatMap_cons, group]

/-! ### Texts -/

theorem join_congr_last {qs qs' : List Piece}
    (same : ∀ n pending, join n pending qs = join n pending qs') (n : Nat) (pending : Option LogicalLine)
    (ps : List Piece) : join n pending (ps ++ qs) = join n pending (ps ++ qs') := by
  induction ps generalizing n pending with
  | nil => exact same n pending
  | cons p ps ih => rw [List.cons_append, List.cons_append, join, join, ih, ih]

/-- A continuation mark behind the last piece changes nothing. -/
theorem join_last_continued (n : Nat) (pending : Option LogicalLine) (ps : List Piece) (text : List Char) :
    join n pending (ps ++ [⟨text, true⟩]) = join n pending (ps ++ [⟨text, false⟩]) :=
  join_congr_last (fun n pending => by simp [join]) n pending ps

theorem join_last_silent (n : Nat) (pending : Option LogicalLine) (ps : List Piece) :
    join n pending (ps ++ [⟨[], false⟩]) = join n pending ps := by
  have last (n : Nat) (pending : Option LogicalLine) :
      join n pending [⟨[], false⟩] = join n pending [] := by
    cases pending <;> simp [join, extend, close]
  have whole := join_congr_last last n pending ps
  rwa [List.append_nil] at whole

/-- Carriage returns at line ends say nothing, and neither does an empty line at the end. -/
theorem ofText_lines (text : String) :
    ofText text = join 1 none ((Text.lines text.toList).map Piece.ofPhysical) := by
  have returned (line : List Char) :
      Piece.ofPhysical (if line.getLast? = some '\r' then line.dropLast else line) =
        Piece.ofPhysical line := by
    split
    next returned =>
      obtain ⟨line, rfl⟩ := List.getLast?_eq_some_iff.mp returned
      have appended : Appended line (line ++ ['\r']) := by
        simpa using Appended.intro line ['\r'] [] (by decide) (by simp) (.inl rfl)
      rw [List.dropLast_concat, appended.ofPhysical_eq]
    next => rfl
  obtain none | ⟨before, last, divided⟩ := (Text.cut (· = '\n') text.toList).eq_nil_or_concat'
  · exact absurd none (Text.cut_ne_nil _ _)
  · have same : (before.map fun line =>
        if line.getLast? = some '\r' then line.dropLast else line).map Piece.ofPhysical =
          before.map Piece.ofPhysical := by
      rw [List.map_map]
      exact List.map_congr_left fun line _ => returned line
    rw [ofText, pieces, Text.lines, divided, List.dropLast_concat, List.getLast?_concat, List.map_append,
      List.map_append, same]
    by_cases empty : last = []
    · have silent : Piece.ofPhysical [] = ⟨[], false⟩ := by decide
      simp [empty, silent, join_last_silent]
    · simp [empty]

theorem ofText_compact (text : String) : ∀ l ∈ ofText text, Compact l.text := by
  have pieces : ∀ q ∈ pieces text.toList, q.text ≠ [] → Compact q.text := by
    intro q member some
    obtain ⟨physical, piece, rfl⟩ := List.mem_map.mp member
    obtain ⟨code, trimmed⟩ := exists_trimmed physical
    have unbroken : '\n' ∉ physical := fun feed => by
      simpa using Text.cut_unmarked text.toList physical piece _ feed
    exact ⟨some, fun feed => unbroken (Piece.text_subset physical feed), trimmed.first, trimmed.last⟩
  intro l member
  exact (join_forall (fun _ _ => Compact.spaced) pieces (by simp) l member).2

end LogicalLine

/-- The logical lines of a text are those of the groups into which its physical lines fall. Their numbers
increase, and what they say is not empty, lies on one line and has no blanks around it. A continuation
mark on the last physical line changes nothing. -/
theorem ofText_groups (text : String) :
    (∃ ps groups, List.Forall₂ Gives (Text.lines text.toList) ps ∧ Grouped (ps.zipIdx 1) groups) ∧
    (∀ ps groups, List.Forall₂ Gives (Text.lines text.toList) ps → Grouped (ps.zipIdx 1) groups →
      LogicalLine.ofText text = groups.filterMap LogicalLine.ofGroup) ∧
    (LogicalLine.ofText text).Pairwise (fun l l' => l.number < l'.number) ∧
    (∀ l ∈ LogicalLine.ofText text, Compact l.text) ∧
    ∀ text' before line line' said, Text.lines text.toList = before ++ [line] →
      Text.lines text'.toList = before ++ [line'] → Gives line ⟨said, true⟩ → Gives line' ⟨said, false⟩ →
      LogicalLine.ofText text' = LogicalLine.ofText text := by
  have given (ps : List Piece) : List.Forall₂ Gives (Text.lines text.toList) ps ↔
      (Text.lines text.toList).map Piece.ofPhysical = ps := by
    have gives : Gives = fun line p => Piece.ofPhysical line = p :=
      funext₂ fun line p => propext gives_iff
    rw [← List.forall₂_eq_eq_eq, List.forall₂_map_left_iff, gives]
  have grouped (ps : List Piece) (groups : List (List (Piece × Nat)))
      (gives : List.Forall₂ Gives (Text.lines text.toList) ps) (grouped : Grouped (ps.zipIdx 1) groups) :
      LogicalLine.ofText text = groups.filterMap LogicalLine.ofGroup := by
    rw [LogicalLine.ofText_lines, (given ps).mp gives, LogicalLine.join_grouped grouped]
  obtain ⟨groups, described⟩ :=
    exists_grouped (((Text.lines text.toList).map Piece.ofPhysical).zipIdx 1)
  have whole := grouped _ groups ((given _).mpr rfl) described
  refine ⟨⟨_, groups, (given _).mpr rfl, described⟩, grouped, ?_, ?_, ?_⟩
  · have numbers := described.numbers
    rw [← whole, List.zipIdx_map_snd] at numbers
    exact List.pairwise_map.mp (List.Pairwise.sublist numbers List.pairwise_lt_range')
  · exact LogicalLine.ofText_compact text
  · intro text' before line line' said lines lines' gives gives'
    rw [LogicalLine.ofText_lines, LogicalLine.ofText_lines, lines, lines', List.map_append, List.map_append,
      List.map_singleton, List.map_singleton, gives.ofPhysical_eq, gives'.ofPhysical_eq,
      LogicalLine.join_last_continued]

/-- A blank line is continued, a backslash is kept before the one that continues the line, and the last two
lines are continued by nothing. -/
def continuedText : String := "\\\n .inputs a \\ # list\n\\\\\r\nb\n# alone\n.end \"#\" \\\n \\"

theorem ofText_groups_continuedText :
    LogicalLine.ofText continuedText = [⟨1, ".inputs a \\ b".toList⟩, ⟨6, ".end \"#\"".toList⟩] ∧
    LogicalLine.ofText "\\\n .inputs a \\ # list\n\\\\\r\nb\n# alone\n.end \"#\" \\\n " =
      LogicalLine.ofText continuedText := by
  let before : List (List Char) := ["\\".toList, " .inputs a \\ # list".toList, "\\\\".toList, "b".toList,
    "# alone".toList, ".end \"#\" \\".toList]
  have lines : Text.lines continuedText.toList = before ++ [" \\".toList] := by decide +kernel
  have given {line : List Char} {p : Piece} (is : Piece.ofPhysical line = p) : Gives line p := gives_iff.mpr is
  obtain ⟨-, grouped, -, -, last⟩ := ofText_groups continuedText
  constructor
  · let first : List (Piece × Nat) :=
      [(⟨[], true⟩, 1), (⟨".inputs a".toList, true⟩, 2), (⟨['\\'], true⟩, 3)]
    let unfinished : List (Piece × Nat) := [(⟨".end \"#\"".toList, true⟩, 6), (⟨[], true⟩, 7)]
    have described : Grouped (first ++ (⟨['b'], false⟩, 4) :: (⟨[], false⟩, 5) :: unfinished)
        [first ++ [(⟨['b'], false⟩, 4)], [(⟨[], false⟩, 5)], unfinished] :=
      .cons (by simp [first]) rfl (@Grouped.cons [] _ _ _ (by simp) rfl
        (.unfinished (by simp [unfinished]) (by simp [unfinished])))
    have same := grouped [⟨[], true⟩, ⟨".inputs a".toList, true⟩, ⟨['\\'], true⟩, ⟨['b'], false⟩,
      ⟨[], false⟩, ⟨".end \"#\"".toList, true⟩, ⟨[], true⟩] _ ?_ described
    · rw [same]
      decide +kernel
    · rw [lines]
      exact .cons (given (by decide)) (.cons (given (by decide +kernel)) (.cons (given (by decide))
        (.cons (given (by decide)) (.cons (given (by decide)) (.cons (given (by decide +kernel))
          (.cons (given (by decide)) .nil))))))
  · exact last _ before " \\".toList " ".toList [] lines (by decide +kernel) (given (by decide)) (given (by decide))

end Blif

end Netlist
