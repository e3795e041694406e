import Netlist.Hierarchy
import Mathlib.Data.List.Basic

/-!
# Top-level modules and the position of the root

The top-level list holds, in increasing order, the positions of the modules that no module of another
name instantiates. The root stands at its head, or first in the design if the list is empty.
-/

namespace Netlist.Design

variable {d : Design Network}

/-- No module of another name instantiates this one, neither the one at a given place nor those before
and after it. -/
theorem not_instantiated_iff_forall {before after : List Network} {here : Network}
    (divided : d.modules = before ++ here :: after) (name : String) :
    ¬ d.Instantiated name ↔ ∀ o ∈ here :: (before ++ after), o.name ≠ name → name ∉ o.models := by
  unfold Instantiated
  rw [divided]
  simp only [List.perm_middle.mem_iff, not_exists, not_and]

theorem mem_roots_iff {i : Nat} :
    i ∈ d.roots ↔ ∃ m, d.modules[i]? = some m ∧ ¬ d.Instantiated m.name := by
  simp only [roots, List.mem_filterMap, Prod.exists, List.mem_zipIdx_iff_getElem?]
  constructor
  · rintro ⟨m, j, here, kept⟩
    split at kept
    · cases kept
    · next free =>
      obtain rfl := Option.some.inj kept
      exact ⟨m, here, free⟩
  · rintro ⟨m, here, free⟩
    exact ⟨m, i, here, by simp [free]⟩

theorem roots_sorted (d : Design Network) : d.roots.Pairwise (· < ·) := by
  unfold roots
  rw [List.pairwise_filterMap, List.pairwise_iff_getElem]
  intro i j _ _ before a ha b hb
  simp only [List.getElem_zipIdx] at ha hb
  split at ha
  · cases ha
  · split at hb
    · cases hb
    · obtain rfl := Option.some.inj ha
      obtain rfl := Option.some.inj hb
      omega

def rootPosition (d : Design Network) : Nat := d.roots.headD 0

theorem rootPosition_lt (some : d.modules ≠ []) : d.rootPosition < d.modules.length := by
  have positive := List.length_pos_iff.mpr some
  unfold rootPosition
  cases listed : d.roots with
  | nil => exact positive
  | cons i rest =>
    have member : i ∈ d.roots := by simp [listed]
    obtain ⟨m, here, -⟩ := mem_roots_iff.mp member
    exact (List.getElem?_eq_some_iff.mp here).1

theorem rootPosition_eq_zero (none : ∀ m ∈ d.modules, d.Instantiated m.name) :
    d.rootPosition = 0 := by
  unfold rootPosition
  cases listed : d.roots with
  | nil => rfl
  | cons i rest =>
    have member : i ∈ d.roots := by simp [listed]
    obtain ⟨m, here, free⟩ := mem_roots_iff.mp member
    exact absurd (none m (List.mem_of_getElem? here)) free

/-- Where the root stands among the modules. -/
theorem rootPosition_spec {m : Network} (here : d.modules[d.rootPosition]? = some m) :
    (∃ top ∈ d.modules, ¬ d.Instantiated top.name) ∧ ¬ d.Instantiated m.name ∧
        (∀ other ∈ d.modules.take d.rootPosition, d.Instantiated other.name) ∨
      (∀ other ∈ d.modules, d.Instantiated other.name) ∧ d.rootPosition = 0 := by
  cases listed : d.roots with
  | nil =>
    refine .inr ⟨?_, by simp [rootPosition, listed]⟩
    intro other member
    by_contra free
    obtain ⟨i, at_i⟩ := List.mem_iff_getElem?.mp member
    have : i ∈ d.roots := mem_roots_iff.mpr ⟨other, at_i, free⟩
    simp [listed] at this
  | cons i rest =>
    have chosen : d.rootPosition = i := by simp [rootPosition, listed]
    have member : i ∈ d.roots := by simp [listed]
    obtain ⟨m', at_i, free⟩ := mem_roots_iff.mp member
    rw [chosen] at here ⊢
    obtain rfl : m = m' := Option.some.inj (here.symm.trans at_i)
    refine .inl ⟨⟨m, List.mem_of_getElem? here, free⟩, free, ?_⟩
    intro other early
    by_contra otherFree
    obtain ⟨j, before, rfl⟩ := List.mem_take_iff_getElem.mp early
    have lower : j ∈ d.roots := mem_roots_iff.mpr ⟨_, List.getElem?_eq_getElem _, otherFree⟩
    have ordered := roots_sorted d
    rw [listed] at lower ordered
    rcases List.mem_cons.mp lower with rfl | later
    · omega
    · have := List.rel_of_pairwise_cons ordered later
      omega

/-- The root is the first module of its name. -/
theorem name_ne_of_before_root {before after : List Network} {root : Network}
    (divided : d.modules = before ++ root :: after) (position : before.length = d.rootPosition) :
    ∀ m ∈ before, m.name ≠ root.name := by
  have here : d.modules[d.rootPosition]? = some root := by simp [divided, ← position]
  rcases rootPosition_spec here with ⟨-, free, earlier⟩ | ⟨-, first⟩
  · have early : d.modules.take d.rootPosition = before := by simp [divided, ← position]
    rw [early] at earlier
    intro m member same
    have instantiated := earlier m member
    rw [same] at instantiated
    exact free instantiated
  · have none : before = [] := List.length_eq_zero_iff.mp (position.trans first)
    simp [none]

theorem roots_eq (d : Design Network) :
    d.roots = (d.modules.zipIdx.filter fun (m, _) => ¬ d.Instantiated m.name).map Prod.snd := by
  unfold roots
  induction d.modules.zipIdx with
  | nil => rfl
  | cons p ps ih =>
    obtain ⟨m, i⟩ := p
    by_cases used : d.Instantiated m.name
    · simpa [used] using ih
    · simpa [used] using ih

/-- The top-level modules, found by their positions. -/
theorem roots_modules (d : Design Network) :
    d.roots.map (d.modules[·]?) = (d.modules.filter fun m => ¬ d.Instantiated m.name).map some := by
  have kept : (d.modules.zipIdx.filter ((fun m => ¬ d.Instantiated m.name) ∘ Prod.fst)).map Prod.fst =
      d.modules.filter fun m => ¬ d.Instantiated m.name := by
    rw [← List.filter_map, List.zipIdx_map_fst]
  rw [← kept, roots_eq, List.map_map, List.map_map]
  apply List.map_congr_left
  intro p member
  exact List.mem_zipIdx_iff_getElem?.mp (List.mem_filter.mp member).1

theorem roots_length_le (d : Design Network) : d.roots.length ≤ d.modules.length := by
  rw [roots_eq, List.length_map]
  exact Nat.le_trans (List.length_filter_le _ _) (Nat.le_of_eq List.length_zipIdx)

/-! ### Positions after a module is taken out -/

theorem mem_closeGap {i j : Nat} {positions : List Nat} :
    j ∈ closeGap i positions ↔ (j < i ∧ j ∈ positions) ∨ (i ≤ j ∧ j + 1 ∈ positions) := by
  simp only [closeGap, List.mem_map, List.mem_filter, decide_eq_true_eq]
  constructor
  · rintro ⟨k, ⟨member, other⟩, rfl⟩
    split
    next later =>
      have same : k - 1 + 1 = k := by omega
      exact .inr ⟨by omega, by rwa [same]⟩
    next => exact .inl ⟨by omega, member⟩
  · rintro (⟨before, member⟩ | ⟨after, member⟩)
    · exact ⟨j, ⟨member, by omega⟩, if_neg (by omega)⟩
    · exact ⟨j + 1, ⟨member, by omega⟩, if_pos (by omega)⟩

theorem closeGap_sorted {positions : List Nat} (sorted : positions.Pairwise (· < ·)) (i : Nat) :
    (closeGap i positions).Pairwise (· < ·) := by
  have kept := sorted.filter (· ≠ i)
  rw [closeGap, List.pairwise_map]
  refine kept.imp_of_mem fun {j k} first second before => ?_
  have other_j : j ≠ i := by simpa using (List.mem_filter.mp first).2
  have other_k : k ≠ i := by simpa using (List.mem_filter.mp second).2
  split <;> split <;> omega

/-- The positions that remain refer to what they referred to before. -/
theorem closeGap_getElem? {α : Type} (l : List α) (i : Nat) (positions : List Nat) :
    (closeGap i positions).map ((l.eraseIdx i)[·]?) = (positions.filter (· ≠ i)).map (l[·]?) := by
  rw [closeGap, List.map_map]
  refine List.map_congr_left fun j member => ?_
  have other : j ≠ i := by simpa using (List.mem_filter.mp member).2
  rw [Function.comp_apply, List.getElem?_eraseIdx]
  split
  next later =>
    have same : j - 1 + 1 = j := by omega
    rw [if_neg (by omega), same]
  next => rw [if_pos (by omega)]

/-- The list that was computed with a module is, once that module is taken out, the list of the others
that no module of another name instantiates, the one taken out included. -/
theorem mem_closeGap_roots_iff {i k : Nat} :
    i ∈ closeGap k d.roots ↔ ∃ m, (d.modules.eraseIdx k)[i]? = some m ∧ ¬ d.Instantiated m.name := by
  rw [mem_closeGap, mem_roots_iff, mem_roots_iff, List.getElem?_eraseIdx]
  by_cases before : i < k
  · simp [before, Nat.not_le_of_lt before]
  · simp [before, Nat.le_of_not_lt before]

/-- Without the root, one position less is left. -/
theorem closeGap_roots_length (d : Design Network) :
    (closeGap d.rootPosition d.roots).length = d.roots.length - 1 := by
  unfold closeGap rootPosition
  rw [List.length_map]
  have ordered := d.roots_sorted
  cases listed : d.roots with
  | nil => rfl
  | cons i rest =>
    rw [listed] at ordered
    have others : rest.filter (· ≠ i) = rest := by
      apply List.filter_eq_self.mpr
      intro j member
      have := List.rel_of_pairwise_cons ordered member
      simp only [decide_eq_true_eq]
      omega
    rw [List.headD_cons, List.filter_cons_of_neg (by simp), others]
    rfl

end Netlist.Design
