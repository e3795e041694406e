import Netlist.Blif.Line
import Netlist.Proofs.Outcome
import Mathlib.Algebra.Ring.Parity

/-!
# Lines that leave a string open

Nothing but an open string makes a line malformed, and a line leaves a string open exactly if it holds
an odd number of quotes. So a text is divided into lines if each holds an even number, and otherwise
the first that does not is refused.
-/

namespace Netlist.Blif

def LogicalLine.quotes (line : LogicalLine) : Nat := line.text.count '"'

def Place.quotes : Place → Nat
  | inString _ => 1
  | _ => 0

theorem arguments_eq_none_iff (place : Place) (cs : List Char) :
    arguments place cs = none ↔ Odd (place.quotes + cs.count '"') := by
  fun_induction arguments place cs with
  | case1 => simp [Place.quotes]
  | case2 read => simp [Place.quotes]
  | case3 read => simp [Place.quotes]
  | case4 cs ih => simp_all [Place.quotes, Nat.add_comm]
  | case5 c cs quote separator ih => simp_all [Place.quotes]
  | case6 c cs quote separator ih => simp_all [Place.quotes]
  | case7 read cs ih => simp_all [Place.quotes, Nat.add_comm]
  | case8 read c cs quote separator ih => simp_all [Place.quotes]
  | case9 read c cs quote separator ih => simp_all [Place.quotes]
  | case10 read cs ih => simp_all [Place.quotes, parity_simps]
  | case11 read c cs quote ih => simp_all [Place.quotes]

theorem count_dropWhile {a : Char} {p : Char → Bool} (kept : p a = false) (cs : List Char) :
    (cs.dropWhile p).count a = cs.count a := by
  induction cs with
  | nil => rfl
  | cons c cs ih =>
    rw [List.dropWhile_cons]
    split
    next dropped =>
      have other : c ≠ a := by
        rintro rfl
        simp [kept] at dropped
      rw [ih, List.count_cons_of_ne other]
    next => rfl

theorem splitKeyword_count (text : List Char) : (splitKeyword text).2.count '"' = text.count '"' := by
  unfold splitKeyword
  split
  next rest =>
    dsimp only
    split
    · rfl
    · rw [count_dropWhile (by decide), List.count_cons_of_ne (by decide)]
  next => rfl

theorem Line.ofLogical_eq_error {line : LogicalLine} {e : ReadError} :
    Line.ofLogical line = .error e ↔
      Odd line.quotes ∧ e = .inLine line.number (.malformed (expectedAt line.text)) := by
  have same : (splitKeyword (line.text.dropWhile isSeparator)).2.count '"' = line.quotes := by
    rw [splitKeyword_count, count_dropWhile (by decide), LogicalLine.quotes]
  have unread := arguments_eq_none_iff .between (splitKeyword (line.text.dropWhile isSeparator)).2
  rw [same] at unread
  simp only [Place.quotes, Nat.zero_add] at unread
  unfold ofLogical
  dsimp only
  split
  next args read =>
    have even : ¬Odd line.quotes := by
      rw [← unread, read]
      nofun
    simp [even]
  next read => simp [unread.mp read, eq_comm]

theorem Line.exists_ofLogical_iff {line : LogicalLine} :
    (∃ l, Line.ofLogical line = .ok l) ↔ Even line.quotes := by
  rw [← Nat.not_odd_iff_even]
  constructor
  · rintro ⟨l, read⟩ odd
    cases read.symm.trans (ofLogical_eq_error.mpr ⟨odd, rfl⟩)
  · intro even
    cases read : Line.ofLogical line with
    | ok l => exact ⟨l, rfl⟩
    | error e => exact absurd (ofLogical_eq_error.mp read).1 even

/-- A text is refused for the first of its lines that leaves a string open. -/
theorem Line.ofText_eq_error {text : String} {e : ReadError} : Line.ofText text = .error e ↔
    ∃ before line after, LogicalLine.ofText text = before ++ line :: after ∧
      (∀ earlier ∈ before, Even earlier.quotes) ∧ Odd line.quotes ∧
      e = .inLine line.number (.malformed (expectedAt line.text)) := by
  simp only [ofText, Outcome.mapM_eq_error_iff, exists_ofLogical_iff, ofLogical_eq_error]

end Netlist.Blif
