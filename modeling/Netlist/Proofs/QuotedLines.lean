import Netlist.Blif.Line
import Netlist.Proofs.Outcome
import Netlist.Proofs.PhysicalLines

/-!
# Arguments between quotes

An argument can be any text without quotes and line feeds, if it is written between quotes: blanks and
separators at its ends, `#` and backslashes are read back as they are. So a list of lines is read back
from the text that holds each of them on a physical line, with all arguments between quotes.
-/

namespace Netlist.Blif

abbrev Quotable (args : List String) : Prop := ∀ a ∈ args, '"' ∉ a.toList ∧ '\n' ∉ a.toList

/-- What a line is to say: a keyword, if it is to start with a directive, and arguments. -/
structure Entry where
  keyword : Option String
  args : List String
  spelled : ∀ k ∈ keyword, k ≠ "" ∧ ∀ c ∈ k.toList, isKeywordChar c
  quotable : Quotable args
  nonempty : keyword = none → args ≠ []

namespace Entry

def written (e : Entry) : String :=
  " ".intercalate ((e.keyword.map ("." ++ ·)).toList ++ e.args.map Text.inQuotes)

def line (e : Entry) (number : Nat) : Line where
  number := number
  directive := e.keyword.map Directive.ofKeyword
  args := e.args

end Entry

/-! ### The written form, character by character -/

theorem toList_inQuotes (s : String) : (Text.inQuotes s).toList = '"' :: s.toList ++ ['"'] := by
  simp [Text.inQuotes]

def spaced (args : List String) : List Char :=
  args.flatMap fun a => ' ' :: '"' :: a.toList ++ ['"']

theorem spaced_cons (a : String) (args : List String) :
    spaced (a :: args) = ' ' :: '"' :: (a.toList ++ '"' :: spaced args) := by
  simp [spaced]

theorem toList_intercalate_inQuotes (first : String) (args : List String) :
    (" ".intercalate (first :: args.map Text.inQuotes)).toList = first.toList ++ spaced args := by
  induction args generalizing first with
  | nil => simp [spaced]
  | cons a args ih =>
    rw [List.map_cons, String.intercalate_cons_cons, String.toList_append, ih, toList_inQuotes, spaced_cons]
    simp

theorem isBlank_of_isKeywordChar {c : Char} (spells : isKeywordChar c) : Text.isBlank c = false := by
  delta isKeywordChar Char.isAlphanum Char.isAlpha Char.isUpper Char.isLower Char.isDigit at spells
  simp only [Bool.or_eq_true, Bool.and_eq_true, decide_eq_true_eq, ge_iff_le,
    UInt32.le_iff_toNat_le] at spells
  change ((((65 ≤ c.toNat ∧ c.toNat ≤ 90) ∨ (97 ≤ c.toNat ∧ c.toNat ≤ 122)) ∨
    (48 ≤ c.toNat ∧ c.toNat ≤ 57)) ∨ c = '_') ∨ c = '-' at spells
  rcases spells with (letterOrDigit | rfl) | rfl
  · simp only [Text.isBlank, Bool.or_eq_false_iff, Bool.and_eq_false_iff, decide_eq_false_iff_not,
      beq_eq_false_iff_ne]
    omega
  · decide
  · decide

theorem isKeywordChar_plain {c : Char} (spells : isKeywordChar c) :
    c ≠ '"' ∧ c ≠ '#' ∧ c ≠ '\\' ∧ c ≠ '\n' := by
  refine ⟨?_, ?_, ?_, ?_⟩ <;>
    · rintro rfl
      revert spells
      decide

variable {args : List String} {e : Entry}

theorem stripComment_string {a : List Char} (plain : '"' ∉ a) (rest : List Char) :
    stripComment false ('"' :: (a ++ '"' :: rest)) = '"' :: (a ++ '"' :: stripComment false rest) := by
  have inside : ∀ c ∈ a, c ≠ '"' ∧ (c = '#' → true) := fun c member =>
    ⟨fun is => plain (is ▸ member), fun _ => rfl⟩
  have opens : stripComment false ('"' :: (a ++ '"' :: rest)) =
      '"' :: stripComment true (a ++ '"' :: rest) := rfl
  rw [opens, stripComment_append inside]
  rfl

theorem stripComment_spaced (quotable : Quotable args) :
    stripComment false (spaced args) = spaced args := by
  induction args with
  | nil => rfl
  | cons a args ih =>
    obtain ⟨⟨noQuote, -⟩, quotable⟩ := List.forall_mem_cons.mp quotable
    have space (rest : List Char) : stripComment false (' ' :: rest) = ' ' :: stripComment false rest := rfl
    rw [spaced_cons, space, stripComment_string noQuote, ih quotable]

theorem unbroken_spaced (quotable : Quotable args) : '\n' ∉ spaced args := by
  intro member
  obtain ⟨a, inside, member⟩ := List.mem_flatMap.mp member
  have := (quotable a inside).2
  simp_all

theorem last_spaced (args : List String) : ∀ c ∈ (spaced args).getLast?, c = '"' := by
  intro c last
  rcases List.eq_nil_or_concat' args with rfl | ⟨before, a, rfl⟩
  · cases last
  · have ends : spaced (before ++ [a]) = spaced before ++ ' ' :: '"' :: a.toList ++ ['"'] := by
      simp [spaced]
    rw [ends, List.getLast?_concat] at last
    exact (Option.some.inj last).symm

/-- A string is read up to the quote that ends it. -/
theorem arguments_inString {a : List Char} (plain : '"' ∉ a) (read rest : List Char) :
    arguments (.inString read) (a ++ '"' :: rest) =
      (arguments .between rest).map ((read.reverse ++ a) :: ·) := by
  induction a generalizing read with
  | nil => simp [arguments]
  | cons c a ih =>
    obtain ⟨other, plain⟩ := List.ne_and_not_mem_of_not_mem_cons plain
    rw [List.cons_append, arguments, if_neg (Ne.symm other), ih plain]
    simp

theorem arguments_spaced (quotable : Quotable args) :
    arguments .between (spaced args) = some (args.map String.toList) := by
  induction args with
  | nil => rfl
  | cons a args ih =>
    obtain ⟨⟨noQuote, -⟩, quotable⟩ := List.forall_mem_cons.mp quotable
    have opens (rest : List Char) :
        arguments .between (' ' :: '"' :: rest) = arguments (.inString []) rest := rfl
    rw [spaced_cons, opens, arguments_inString noQuote, ih quotable]
    rfl

/-! ### Lines -/

def rowText : List String → List Char
  | [] => []
  | a :: args => '"' :: (a.toList ++ '"' :: spaced args)

theorem spaced_eq_rowText (present : args ≠ []) : spaced args = ' ' :: rowText args := by
  cases args with
  | nil => exact absurd rfl present
  | cons a args => exact spaced_cons a args

theorem verbatim_row (quotable : Quotable args) (present : args ≠ []) : Verbatim (rowText args) := by
  have row := spaced_eq_rowText present
  have code := stripComment_spaced quotable
  have unbroken := unbroken_spaced quotable
  have last := last_spaced args
  rw [row] at code unbroken last
  obtain ⟨a, rest, rfl⟩ := List.exists_cons_of_ne_nil present
  refine ⟨List.cons_ne_nil _ _, fun member => unbroken (List.mem_cons_of_mem _ member), ?_⟩
  apply Piece.ofPhysical_eq_self (List.cons.inj code).2
  · rintro c ⟨⟩
    decide
  · intro c is
    obtain rfl := last c is
    decide

theorem verbatim_directive {keyword : List Char} (spells : ∀ c ∈ keyword, isKeywordChar c)
    (quotable : Quotable args) : Verbatim ('.' :: keyword ++ spaced args) := by
  have plain : ∀ c ∈ '.' :: keyword,
      Text.isBlank c = false ∧ c ≠ '"' ∧ c ≠ '#' ∧ c ≠ '\\' ∧ c ≠ '\n' := by
    rw [List.forall_mem_cons]
    exact ⟨by decide, fun c member =>
      ⟨isBlank_of_isKeywordChar (spells c member), isKeywordChar_plain (spells c member)⟩⟩
  have outside : ∀ c ∈ '.' :: keyword, c ≠ '"' ∧ (c = '#' → false) := fun c member =>
    ⟨(plain c member).2.1, fun is => absurd is (plain c member).2.2.1⟩
  refine ⟨List.cons_ne_nil _ _, ?_, ?_⟩
  · rw [List.mem_append, not_or]
    exact ⟨fun member => (plain _ member).2.2.2.2 rfl, unbroken_spaced quotable⟩
  · apply Piece.ofPhysical_eq_self
    · rw [stripComment_append outside, stripComment_spaced quotable]
    · rintro c ⟨⟩
      decide
    · intro c is
      rw [List.getLast?_append, Option.mem_def, Option.or_eq_some_iff] at is
      rcases is with is | ⟨-, is⟩
      · obtain rfl := last_spaced args c is
        decide
      · obtain ⟨noBlank, -, -, noMark, -⟩ := plain c (List.mem_of_getLast? is)
        exact ⟨noBlank, noMark⟩

theorem ofLogical_row (quotable : Quotable args) (present : args ≠ []) (number : Nat) :
    Line.ofLogical ⟨number, rowText args⟩ = .ok ⟨number, none, args⟩ := by
  have read := arguments_spaced quotable
  rw [spaced_eq_rowText present] at read
  obtain ⟨a, rest, rfl⟩ := List.exists_cons_of_ne_nil present
  have space : arguments .between (' ' :: rowText (a :: rest)) = arguments .between (rowText (a :: rest)) :=
    rfl
  have start : (rowText (a :: rest)).dropWhile isSeparator = rowText (a :: rest) := rfl
  have split : splitKeyword (rowText (a :: rest)) = (none, rowText (a :: rest)) := rfl
  rw [space] at read
  simp only [Line.ofLogical, start, split, read]
  simp [Function.comp_def]

theorem ofLogical_directive {keyword : List Char} (present : keyword ≠ [])
    (spells : ∀ c ∈ keyword, isKeywordChar c) (quotable : Quotable args) (number : Nat) :
    Line.ofLogical ⟨number, '.' :: keyword ++ spaced args⟩ =
      .ok ⟨number, Directive.ofKeyword (String.ofList keyword), args⟩ := by
  have stop : (spaced args).takeWhile isKeywordChar = [] ∧
      (spaced args).dropWhile isKeywordChar = spaced args := by
    cases args with
    | nil => exact ⟨rfl, rfl⟩
    | cons a args =>
      rw [spaced_cons]
      exact ⟨rfl, rfl⟩
  have start : ('.' :: keyword ++ spaced args).dropWhile isSeparator = '.' :: keyword ++ spaced args := rfl
  have split : splitKeyword ('.' :: keyword ++ spaced args) = (some keyword, spaced args) := by
    rw [List.cons_append, splitKeyword, List.takeWhile_append_of_pos spells,
      List.dropWhile_append_of_pos spells, stop.1, stop.2, List.append_nil]
    simp [present]
  simp only [Line.ofLogical, start, split, arguments_spaced quotable]
  simp [Function.comp_def]

namespace Entry

theorem toList_written_row (is : e.keyword = none) : e.written.toList = rowText e.args := by
  rw [written, is]
  cases e.args with
  | nil => rfl
  | cons a args =>
    rw [Option.map_none, Option.toList_none, List.nil_append, List.map_cons, toList_intercalate_inQuotes,
      toList_inQuotes, rowText]
    simp

theorem toList_written_directive {k : String} (is : e.keyword = some k) :
    e.written.toList = '.' :: k.toList ++ spaced e.args := by
  have fields : e.written = " ".intercalate (("." ++ k) :: e.args.map Text.inQuotes) := by
    rw [written, is]
    rfl
  rw [fields, toList_intercalate_inQuotes]
  simp

/-- The written form is a logical line as it stands. -/
theorem verbatim (e : Entry) : Verbatim e.written.toList := by
  cases is : e.keyword with
  | none =>
    rw [toList_written_row is]
    exact verbatim_row e.quotable (e.nonempty is)
  | some k =>
    rw [toList_written_directive is]
    exact verbatim_directive (e.spelled k is).2 e.quotable

theorem ofLogical_written (e : Entry) (number : Nat) :
    Line.ofLogical ⟨number, e.written.toList⟩ = .ok (e.line number) := by
  unfold line
  cases is : e.keyword with
  | none =>
    rw [toList_written_row is]
    exact ofLogical_row e.quotable (e.nonempty is) number
  | some k =>
    obtain ⟨present, spells⟩ := e.spelled k is
    rw [toList_written_directive is, ofLogical_directive (by simpa using present) spells e.quotable,
      String.ofList_toList]
    rfl

end Entry

/-! ### What is read can be quoted -/

def Place.read : Place → List Char
  | between => []
  | inWord read | inString read => read

/-- The arguments are made of the characters that are no quotes. -/
theorem arguments_chars {p : Char → Prop} {place : Place} {cs : List Char} {args : List (List Char)}
    (opened : ∀ c ∈ place.read, p c) (kept : ∀ c ∈ cs, c ≠ '"' → p c)
    (taken : arguments place cs = some args) : ∀ a ∈ args, ∀ c ∈ a, p c := by
  fun_induction arguments place cs generalizing args with
  | case1 => grind [Place.read]
  | case2 read => grind [Place.read]
  | case3 read => grind [Place.read]
  | case4 cs ih => grind [Place.read]
  | case5 c cs quote separator ih => grind [Place.read]
  | case6 c cs quote separator ih => grind [Place.read]
  | case7 read cs ih => grind [Place.read, Option.map_eq_some_iff]
  | case8 read c cs quote separator ih => grind [Place.read, Option.map_eq_some_iff]
  | case9 read c cs quote separator ih => grind [Place.read]
  | case10 read cs ih => grind [Place.read, Option.map_eq_some_iff]
  | case11 read c cs quote ih => grind [Place.read]

theorem splitKeyword_subset (text : List Char) : (splitKeyword text).2 ⊆ text := by
  unfold splitKeyword
  split
  next rest =>
    dsimp only
    split
    · exact List.Subset.refl _
    · exact fun c member => List.mem_cons_of_mem _ ((List.dropWhile_suffix _).subset member)
  next => exact List.Subset.refl _

/-- What is read from a logical line could have been written between quotes. -/
theorem quotable_of_ofLogical {logical : LogicalLine} {line : Line} (unbroken : '\n' ∉ logical.text)
    (read : Line.ofLogical logical = .ok line) : Quotable line.args := by
  unfold Line.ofLogical at read
  dsimp only at read
  split at read
  next args taken =>
    obtain rfl := Except.ok.inj read
    have plain : ∀ c ∈ (splitKeyword (logical.text.dropWhile isSeparator)).2, c ≠ '"' →
        c ≠ '"' ∧ c ≠ '\n' := by
      refine fun c member noQuote => ⟨noQuote, ?_⟩
      rintro rfl
      exact unbroken ((List.dropWhile_suffix _).subset (splitKeyword_subset _ member))
    have chars := arguments_chars nofun plain taken
    intro a member
    obtain ⟨cs, inside, rfl⟩ := List.mem_map.mp member
    rw [String.toList_ofList]
    exact ⟨fun quote => (chars cs inside _ quote).1 rfl, fun feed => (chars cs inside _ feed).2 rfl⟩
  next => cases read

/-! ### Texts -/

/-- A text of such lines is read as what they say, whether or not the last line is terminated. -/
theorem ofText_written (es : List Entry) :
    Line.ofText ("\n".intercalate (es.map Entry.written)) = .ok (es.mapIdx fun i e => e.line (i + 1)) ∧
    Line.ofText (String.join (es.map fun e => e.written ++ "\n")) =
      .ok (es.mapIdx fun i e => e.line (i + 1)) := by
  have verbatim : ∀ t ∈ es.map fun e => e.written.toList, Verbatim t :=
    List.forall_mem_map.mpr fun e _ => e.verbatim
  have texts : es.map Entry.written = (es.map fun e => e.written.toList).map String.ofList := by
    simp [Function.comp_def]
  have terminated : (es.map fun e => e.written ++ "\n") =
      (es.map fun e => e.written.toList).map fun t => String.ofList t ++ "\n" := by
    simp [Function.comp_def]
  have read : ((es.map fun e => e.written.toList).mapIdx fun i t => (⟨1 + i, t⟩ : LogicalLine)).mapM
      Line.ofLogical = .ok (es.mapIdx fun i e => e.line (i + 1)) := by
    rw [Outcome.mapM_eq_ok, List.forall₂_iff_get]
    refine ⟨by simp, fun i _ _ => ?_⟩
    simp only [List.get_eq_getElem, List.getElem_mapIdx, List.getElem_map, Entry.ofLogical_written,
      Nat.add_comm 1]
  rw [Line.ofText, Line.ofText, texts, terminated, LogicalLine.ofText_intercalate verbatim,
    LogicalLine.ofText_terminated verbatim]
  exact ⟨read, read⟩

example : Line.ofText ".latch \" a#\\\" \"\"\n\"\té=\"" =
    .ok [⟨1, some .latch, [" a#\\", ""]⟩, ⟨2, none, ["\té="]⟩] := by decide +kernel

end Netlist.Blif
