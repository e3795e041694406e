/-!
# Words

`cut p` divides a sequence at every element that satisfies `p`. The pieces hold no separator,
and there is one piece more than there are separators, so empty pieces mark neighbours, a leading
separator and a trailing one.

The blanks are the characters with the Unicode property `White_Space`. Trimming and the division
into words go by this set, which is wider than the blanks of ASCII.
-/

namespace Netlist.Text

def cut (p : α → Bool) : List α → List (List α)
  | [] => [[]]
  | a :: as =>
    if p a then [] :: cut p as
    else match cut p as with
      | [] => [[a]]
      | piece :: pieces => (a :: piece) :: pieces

theorem cut_ne_nil (p : α → Bool) (l : List α) : cut p l ≠ [] := by
  cases l with
  | nil => simp [cut]
  | cons a as =>
    simp only [cut]
    split
    · simp
    · split <;> simp

theorem length_cut (p : α → Bool) (l : List α) : (cut p l).length = l.countP p + 1 := by
  induction l with
  | nil => rfl
  | cons a as ih =>
    simp only [cut, List.countP_cons]
    split
    · simp_all
    · split
      · next h => exact absurd h (cut_ne_nil p as)
      · next h => simp_all

/-- Without a separator there is one piece. -/
theorem cut_eq_singleton {p : α → Bool} {l : List α} (none : ∀ a ∈ l, p a = false) : cut p l = [l] := by
  induction l with
  | nil => rfl
  | cons a as ih =>
    obtain ⟨here, later⟩ := List.forall_mem_cons.mp none
    simp [cut, here, ih later]

/-- The first separator ends the first piece. -/
theorem cut_append_cons {p : α → Bool} {l : List α} {a : α} (none : ∀ b ∈ l, p b = false) (mark : p a)
    (rest : List α) : cut p (l ++ a :: rest) = l :: cut p rest := by
  induction l with
  | nil => simp [cut, mark]
  | cons b l ih =>
    obtain ⟨here, later⟩ := List.forall_mem_cons.mp none
    simp [cut, here, ih later]

/-! ## Blanks -/

def isBlank (c : Char) : Bool :=
  let n := c.toNat
  (9 ≤ n && n ≤ 13) || n == 0x20 || n == 0x85 || n == 0xA0 || n == 0x1680 ||
    (0x2000 ≤ n && n ≤ 0x200A) || n == 0x2028 || n == 0x2029 || n == 0x202F || n == 0x205F ||
    n == 0x3000

def trimEnd (cs : List Char) : List Char := (cs.reverse.dropWhile isBlank).reverse

def trim (cs : List Char) : List Char := trimEnd (cs.dropWhile isBlank)

/-- The maximal runs of characters that are no blanks, in order. -/
def words (s : String) : List String :=
  ((cut isBlank s.toList).filter (!·.isEmpty)).map String.ofList

/-- Two words with a space between them. -/
theorem words_pair {s t : String} (plain_s : ∀ c ∈ s.toList, isBlank c = false)
    (plain_t : ∀ c ∈ t.toList, isBlank c = false) (some_s : s ≠ "") (some_t : t ≠ "") :
    words (s ++ " " ++ t) = [s, t] := by
  have chars : (s ++ " " ++ t).toList = s.toList ++ ' ' :: t.toList := by simp
  have space : isBlank ' ' = true := by decide
  rw [words, chars, cut_append_cons plain_s space, cut_eq_singleton plain_t]
  simp [some_s, some_t]

end Netlist.Text
