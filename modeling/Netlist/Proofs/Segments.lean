import Netlist.Proofs.LineEdits
import Netlist.Proofs.LineGrammar
import Netlist.Proofs.OpenStrings

/-!
# Lines by the places of their quotes

The quotes of a line cut it into segments, of which every second one is the text of a string. The other
segments hold the words, as their runs of characters that separate nothing, and the first one may begin
with a directive. What a line says can be read off its segments, with no regard to the order in which
the reader of lines takes its characters.
-/

namespace Netlist

theorem Text.cut_append {p : α → Bool} {l r first : List α} {others : List (List α)}
    (unmarked : ∀ a ∈ l, p a = false) (divided : cut p r = first :: others) :
    cut p (l ++ r) = (l ++ first) :: others := by
  induction l with
  | nil => exact divided
  | cons a l ih =>
    obtain ⟨here, later⟩ := List.forall_mem_cons.mp unmarked
    simp [cut, here, ih later]

/-- Behind its first piece, a sequence goes on with a separator, if at all. -/
theorem Text.exists_of_cut {p : α → Bool} {l first : List α} {others : List (List α)}
    (divided : cut p l = first :: others) :
    ∃ more, l = first ++ more ∧ (∀ a ∈ more.head?, p a) ∧ cut p more = [] :: others := by
  induction l generalizing first others with
  | nil =>
    cases divided
    exact ⟨[], rfl, by simp, rfl⟩
  | cons a l ih =>
    rw [cut] at divided
    split at divided
    next marked =>
      cases divided
      exact ⟨a :: l, rfl, by simpa using marked, by simp [cut, marked]⟩
    next =>
      split at divided
      next none => exact absurd none (cut_ne_nil p l)
      next piece pieces rest =>
        cases divided
        obtain ⟨more, rfl, behind⟩ := ih rest
        exact ⟨more, rfl, behind⟩

namespace Blif

def segmentWords (segment : List Char) : List (List Char) :=
  (Text.cut isSeparator segment).filter (!·.isEmpty)

/-- The arguments that segments make: of the first, the third and so on the runs, and the others as they
are. -/
def segmentArguments (segments : List (List Char)) : List (List Char) :=
  (segments.mapIdx fun i segment => if Even i then segmentWords segment else [segment]).flatten

/-- Behind its separators a segment begins with a dot and a keyword, which is as long as can be. -/
def Heads (segment keyword left : List Char) : Prop :=
  ∃ space, segment = space ++ '.' :: (keyword ++ left) ∧ (∀ c ∈ space, isSeparator c) ∧ keyword ≠ [] ∧
    (∀ c ∈ keyword, isKeywordChar c) ∧ ∀ c ∈ left.head?, isKeywordChar c = false

theorem segmentArguments_singleton (segment : List Char) :
    segmentArguments [segment] = segmentWords segment := by
  simp [segmentArguments]

theorem segmentArguments_cons_cons (outside inside : List Char) (others : List (List Char)) :
    segmentArguments (outside :: inside :: others) =
      segmentWords outside ++ inside :: segmentArguments others := by
  simp [segmentArguments, List.mapIdx_cons, parity_simps]

theorem segmentArguments_cons (first : List Char) (others : List (List Char)) :
    segmentArguments (first :: others) = segmentWords first ++ segmentArguments ([] :: others) := by
  simp [segmentArguments, List.mapIdx_cons, segmentWords, Text.cut]

theorem segmentWords_space {space : List Char} (blanks : ∀ c ∈ space, isSeparator c)
    (rest : List Char) : segmentWords (space ++ rest) = segmentWords rest := by
  induction space with
  | nil => rfl
  | cons c space ih =>
    obtain ⟨here, later⟩ := List.forall_mem_cons.mp blanks
    simpa [segmentWords, Text.cut, here] using ih later

theorem segmentWords_only {space : List Char} (blanks : ∀ c ∈ space, isSeparator c) :
    segmentWords space = [] := by
  simpa [segmentWords, Text.cut] using segmentWords_space blanks []

theorem segmentWords_word {word rest : List Char} (present : word ≠ [])
    (plain : ∀ c ∈ word, isSeparator c = false) (bound : ∀ c ∈ rest.head?, isSeparator c) :
    segmentWords (word ++ rest) = word :: segmentWords rest := by
  cases rest with
  | nil => simp [segmentWords, Text.cut_eq_singleton plain, Text.cut, present]
  | cons c rest =>
    have separates := bound c rfl
    rw [segmentWords, Text.cut_append_cons plain separates]
    simp [segmentWords, Text.cut, separates, present]

namespace Grammar

theorem space_unquoted {space : List Char} (blanks : ∀ c ∈ space, isSeparator c) :
    ∀ c ∈ space, decide (c = '"') = false := by
  intro c mem
  have separates := blanks c mem
  rw [decide_eq_false_iff_not]
  rintro rfl
  simp [isSeparator] at separates

theorem word_plain {word : List Char} (plain : ∀ c ∈ word, isWordChar c) :
    (∀ c ∈ word, isSeparator c = false) ∧ ∀ c ∈ word, decide (c = '"') = false := by
  simp only [isWordChar, Bool.not_eq_true', Bool.or_eq_false_iff] at plain
  exact ⟨fun c mem => (plain c mem).1, fun c mem => (plain c mem).2⟩

theorem not_quote {text : List Char} (plain : '"' ∉ text) : ∀ c ∈ text, decide (c = '"') = false :=
  fun _ mem => decide_eq_false (ne_of_mem_of_not_mem mem plain)

theorem texts_cons (item : Item) (items : Option (List Item)) :
    (items.map (item :: ·)).map (List.map Item.text) =
      (items.map (List.map Item.text)).map (item.text :: ·) := by
  cases items <;> rfl

/-- The segments of a text tell the arguments that are laid out in it, and whether a string is left
open. -/
theorem Layout.texts_eq (layout : Layout text items) {first : List Char} {others : List (List Char)}
    (divided : Text.cut (· = '"') text = first :: others) :
    items.map (List.map Item.text) =
      if Even others.length then some (segmentArguments (first :: others)) else none := by
  induction layout generalizing first others with
  | @blank space blanks =>
    cases (Text.cut_eq_singleton (space_unquoted blanks)).symm.trans divided
    simp [segmentArguments_singleton, segmentWords_only blanks]
  | @word space text rest items blanks present plain bound later ih =>
    obtain ⟨here, others', behind⟩ := List.exists_cons_of_ne_nil (Text.cut_ne_nil (· = '"') rest)
    obtain ⟨separated, unquoted⟩ := word_plain plain
    have whole := Text.cut_append (space_unquoted blanks) (Text.cut_append unquoted behind)
    cases whole.symm.trans divided
    have ended : ∀ c ∈ here.head?, isSeparator c := by
      obtain ⟨more, rfl, -, -⟩ := Text.exists_of_cut behind
      intro c head
      have ends := bound c (by rw [List.head?_append, Option.mem_def.mp head]; rfl)
      have unmarked := Text.cut_unmarked _ here (by rw [behind]; exact .head _) c
        (List.mem_of_mem_head? head)
      simpa [isWordChar, unmarked] using ends
    have words : segmentWords (space ++ (text ++ here)) = text :: segmentWords here := by
      rw [segmentWords_space blanks, segmentWords_word present separated ended]
    rw [texts_cons, ih behind, segmentArguments_cons here, segmentArguments_cons (space ++ _), words]
    split <;> rfl
  | @string space text rest items blanks plain later ih =>
    obtain ⟨here, others', behind⟩ := List.exists_cons_of_ne_nil (Text.cut_ne_nil (· = '"') rest)
    have whole : Text.cut (· = '"') (space ++ ('"' :: text ++ '"' :: rest)) =
        space :: text :: here :: others' := by
      rw [List.cons_append, Text.cut_append_cons (space_unquoted blanks) rfl,
        Text.cut_append_cons (not_quote plain) rfl, behind]
    cases whole.symm.trans divided
    rw [texts_cons, ih behind, segmentArguments_cons_cons, segmentWords_only blanks]
    simp only [List.length_cons, parity_simps, not_not]
    split <;> rfl
  | @«open» space text blanks plain =>
    have whole : Text.cut (· = '"') (space ++ '"' :: text) = [space, text] := by
      rw [Text.cut_append_cons (space_unquoted blanks) rfl, Text.cut_eq_singleton (not_quote plain)]
    cases whole.symm.trans divided
    simp

end Grammar

/-! ## Directives -/

/-- A keyword is split off where a text begins with a directive, and only there. -/
theorem splitKeyword_eq_iff {text keyword rest : List Char} :
    splitKeyword (text.dropWhile isSeparator) = (some keyword, rest) ↔ Heads text keyword rest := by
  constructor
  · intro found
    obtain ⟨space, behind, rfl, blanks, begins⟩ := Grammar.exists_run isSeparator text
    rw [Grammar.dropWhile_run blanks begins] at found
    unfold splitKeyword at found
    split at found
    next behind =>
      obtain ⟨run, behind, rfl, spells, bound⟩ := Grammar.exists_run isKeywordChar behind
      simp only [Grammar.takeWhile_run spells bound, Grammar.dropWhile_run spells bound] at found
      split at found
      next => cases found
      next present =>
        cases found
        exact ⟨space, rfl, blanks, by simpa using present, spells, bound⟩
    next => cases found
  · rintro ⟨space, rfl, blanks, present, spells, bound⟩
    rw [Grammar.dropWhile_run blanks (by simp [isSeparator])]
    simp [splitKeyword, Grammar.takeWhile_run spells bound, Grammar.dropWhile_run spells bound, present]

theorem splitKeyword_none {text rest : List Char} (row : splitKeyword text = (none, rest)) :
    rest = text := by
  unfold splitKeyword at row
  split at row
  next =>
    dsimp only at row
    split at row
    · cases row; rfl
    · cases row
  next => cases row; rfl

/-- A directive lies before the first quote. -/
theorem heads_append_iff {first more keyword rest : List Char} (unquoted : '"' ∉ first)
    (quoted : ∀ c ∈ more.head?, c = '"') :
    Heads (first ++ more) keyword rest ↔ ∃ left, Heads first keyword left ∧ rest = left ++ more := by
  constructor
  · rintro ⟨space, divided, blanks, present, spells, bound⟩
    have front : first ++ more = (space ++ '.' :: keyword) ++ rest := by simpa using divided
    rcases List.append_eq_append_iff.mp front with ⟨between, longer, rfl⟩ | ⟨left, rfl, rfl⟩
    · cases between with
      | nil => exact ⟨[], ⟨space, by simpa using longer.symm, blanks, present, spells, by simp⟩, rfl⟩
      | cons c between =>
        -- what goes beyond the first segment would begin with its quote
        obtain rfl := quoted c rfl
        have inside : '"' ∈ space ++ '.' :: keyword := by simp [longer]
        rcases List.mem_append.mp inside with blank | directive
        · exact absurd (blanks _ blank) (by decide)
        · rcases List.mem_cons.mp directive with dot | spelled
          · exact absurd dot (by decide)
          · exact absurd (spells _ spelled) (by decide)
    · refine ⟨left, ⟨space, by simp, blanks, present, spells, fun c head => bound c ?_⟩, rfl⟩
      rw [List.head?_append, Option.mem_def.mp head]
      rfl
  · rintro ⟨left, ⟨space, rfl, blanks, present, spells, bound⟩, rfl⟩
    refine ⟨space, by simp, blanks, present, spells, ?_⟩
    cases left with
    | nil =>
      intro c head
      obtain rfl := quoted c head
      decide
    | cons c left => exact bound

/-! ## Lines -/

theorem arguments_segments {text first : List Char} {others : List (List Char)}
    (divided : Text.cut (· = '"') text = first :: others) : arguments .between text =
      if Even others.length then some (segmentArguments (first :: others)) else none := by
  obtain ⟨items, layout⟩ := Grammar.exists_layout text
  rw [layout.arguments_eq, layout.texts_eq divided]

theorem ofLogical_of_segments {logical : LogicalLine} {keyword : Option (List Char)} {rest : List Char}
    (head : splitKeyword (logical.text.dropWhile isSeparator) = (keyword, rest))
    (divided : Text.cut (· = '"') rest = first :: others) (even : Even others.length) :
    Line.ofLogical logical = .ok {
      number := logical.number
      directive := keyword.map fun k => .ofKeyword (String.ofList k)
      args := (segmentArguments (first :: others)).map String.ofList } := by
  simp only [Line.ofLogical, head, arguments_segments divided, if_pos even]

theorem first_unquoted {text first : List Char} {others : List (List Char)}
    (divided : Text.cut (· = '"') text = first :: others) : '"' ∉ first := by
  have unmarked := Text.cut_unmarked (p := (· = '"')) text first (by rw [divided]; exact .head _)
  intro quote
  simpa using unmarked _ quote

theorem Heads.ofLogical {logical : LogicalLine} {first keyword left : List Char}
    {others : List (List Char)} (heads : Heads first keyword left)
    (divided : Text.cut (· = '"') logical.text = first :: others)
    (even : Even others.length) :
    Line.ofLogical logical = .ok {
      number := logical.number
      directive := some (.ofKeyword (String.ofList keyword))
      args := (segmentArguments (left :: others)).map String.ofList } := by
  obtain ⟨more, whole, quoted, behind⟩ := Text.exists_of_cut divided
  have unquoted := first_unquoted divided
  have head := splitKeyword_eq_iff.mpr
    ((heads_append_iff unquoted (by simpa using quoted)).mpr ⟨left, heads, rfl⟩)
  rw [← whole] at head
  have rest : Text.cut (· = '"') (left ++ more) = (left ++ []) :: others := by
    obtain ⟨space, rfl, -⟩ := heads
    exact Text.cut_append (Grammar.not_quote fun quote => unquoted (by simp [quote])) behind
  rw [List.append_nil] at rest
  exact ofLogical_of_segments head rest even

/-- Without a directive the line is a row. -/
theorem ofLogical_of_not_heads {logical : LogicalLine} {first : List Char} {others : List (List Char)}
    (other : ∀ keyword left, ¬ Heads first keyword left)
    (divided : Text.cut (· = '"') logical.text = first :: others) (even : Even others.length) :
    Line.ofLogical logical = .ok {
      number := logical.number
      directive := none
      args := (segmentArguments (first :: others)).map String.ofList } := by
  obtain ⟨more, whole, quoted, -⟩ := Text.exists_of_cut divided
  have unquoted := first_unquoted divided
  cases head : splitKeyword (logical.text.dropWhile isSeparator) with
  | mk keyword rest =>
    cases keyword with
    | some keyword =>
      have heads := splitKeyword_eq_iff.mp head
      rw [whole, heads_append_iff unquoted (by simpa using quoted)] at heads
      obtain ⟨left, heads, -⟩ := heads
      exact absurd heads (other keyword left)
    | none =>
      obtain rfl := splitKeyword_none head
      obtain ⟨space, behind, is, blanks, begins⟩ := Grammar.exists_run isSeparator logical.text
      obtain ⟨here, others', rest⟩ := List.exists_cons_of_ne_nil (Text.cut_ne_nil (· = '"') behind)
      rw [is, Text.cut_append (Grammar.space_unquoted blanks) rest] at divided
      cases divided
      rw [← Grammar.dropWhile_run blanks begins, ← is] at rest
      rw [ofLogical_of_segments head rest even, segmentArguments_cons (space ++ here),
        segmentWords_space blanks, ← segmentArguments_cons]
      rfl

/-- The quotes lie between the segments. -/
theorem length_segments (text : List Char) :
    (Text.cut (· = '"') text).length = text.count '"' + 1 := by
  rw [Text.length_cut, List.count]
  rfl

inductive Segmented (number : Nat) : List (List Char) → Line → Prop where
  | directive {first keyword left : List Char} {others : List (List Char)} (even : Even others.length)
      (heads : Heads first keyword left) :
      Segmented number (first :: others) {
        number
        directive := some (.ofKeyword (String.ofList keyword))
        args := (segmentArguments (left :: others)).map String.ofList }
  | row {first : List Char} {others : List (List Char)} (even : Even others.length)
      (other : ∀ keyword left, ¬ Heads first keyword left) :
      Segmented number (first :: others) {
        number
        directive := none
        args := (segmentArguments (first :: others)).map String.ofList }

theorem Line.ofLogical_eq_ok_iff {logical : LogicalLine} {l : Line} : Line.ofLogical logical = .ok l ↔
    Segmented logical.number (Text.cut (· = '"') logical.text) l := by
  constructor
  · intro read
    have even := exists_ofLogical_iff.mp ⟨l, read⟩
    obtain ⟨first, others, divided⟩ :=
      List.exists_cons_of_ne_nil (Text.cut_ne_nil (· = '"') logical.text)
    have length := length_segments logical.text
    rw [divided, List.length_cons, Nat.add_right_cancel_iff] at length
    rw [LogicalLine.quotes, ← length] at even
    rw [divided]
    by_cases head : ∃ keyword left, Heads first keyword left
    · obtain ⟨keyword, left, heads⟩ := head
      cases read.symm.trans (heads.ofLogical divided even)
      exact .directive even heads
    · have other : ∀ keyword left, ¬ Heads first keyword left :=
        fun keyword left heads => head ⟨keyword, left, heads⟩
      cases read.symm.trans (ofLogical_of_not_heads other divided even)
      exact .row even other
  · intro segmented
    generalize divided : Text.cut (· = '"') logical.text = segments at segmented
    cases segmented with
    | directive even heads => exact heads.ofLogical divided even
    | row even other => exact ofLogical_of_not_heads other divided even

/-- A line is read as its segments say, which is what the grammar says of it, and is refused if and only
if its last segment lies inside a string. -/
theorem Line.ofLogical_segments (logical : LogicalLine) :
    (∀ l, Line.ofLogical logical = .ok l ↔ Grammar.Tokenizes logical l) ∧
    (∀ l, Line.ofLogical logical = .ok l ↔
      Segmented logical.number (Text.cut (· = '"') logical.text) l) ∧
    ((∃ l, Line.ofLogical logical = .ok l) ↔
      Even ((Text.cut (· = '"') logical.text).length - 1)) ∧
    (Grammar.Runs Grammar.line logical.text none ↔
      Odd ((Text.cut (· = '"') logical.text).length - 1)) := by
  have quotes : (Text.cut (· = '"') logical.text).length - 1 = logical.quotes := by
    rw [length_segments, Nat.add_sub_cancel, LogicalLine.quotes]
  refine ⟨fun l => Grammar.tokenizes_iff.symm, fun l => ofLogical_eq_ok_iff, ?_, ?_⟩
  · rw [quotes, exists_ofLogical_iff]
  · simp only [quotes, Grammar.runs_none_iff, ofLogical_eq_error, exists_and_left, exists_eq, and_true]

example : Line.ofLogical ⟨7, ".names\"a b\"c\"\" d".toList⟩ =
    .ok ⟨7, some .names, ["a b", "c", "", "d"]⟩ := by
  decide

example : Line.ofLogical ⟨7, " . a".toList⟩ = .ok ⟨7, none, [".", "a"]⟩ := by
  decide

end Blif

end Netlist
