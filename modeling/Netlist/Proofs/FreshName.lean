import Netlist.Blif.Lowering
import Mathlib.Data.List.Nodup
import Mathlib.Data.List.Perm.Subperm
import Std.Data.String.ToNat

/-!
# Names that no net bears

The numbered names of one base differ from one another and from the base. If the base and as many
numbered names as there are nets were all taken, there would be more names than nets. So a search
through that many finds a free one.
-/

namespace Netlist.Graph

def numbered (base : String) (k : Nat) : String := s!"{base}_{k + 1}"

theorem numbered_eq (base : String) (k : Nat) : numbered base k = base ++ ("_" ++ Nat.repr (k + 1)) := by
  simp only [numbered, String.append_assoc]
  rfl

theorem numbered_injective (base : String) : Function.Injective (numbered base) := by
  intro j k same
  rw [numbered_eq, numbered_eq, String.append_right_inj, String.append_right_inj] at same
  have numbers := Nat.repr_injective same
  omega

theorem numbered_ne_base (base : String) (k : Nat) : numbered base k ≠ base := by
  intro same
  have lengths := congrArg String.length same
  rw [numbered_eq, String.length_append, String.length_append] at lengths
  have mark : ("_" : String).length = 1 := by decide
  omega

theorem mem_names_of_net?_isSome {g : Graph} {name : String} (taken : (g.net? name).isSome) :
    name ∈ g.nets.map Prod.fst := by
  obtain ⟨id, found⟩ := Option.isSome_iff_exists.mp taken
  obtain ⟨before, after, split, -⟩ := List.lookup_eq_some_iff.mp found
  simp [split]

/-- If the base is taken, one of the numbered names is free. -/
theorem exists_numbered_free {g : Graph} {base : String} (taken : (g.net? base).isSome) :
    ∃ k < g.nets.length, (g.net? (numbered base k)).isNone := by
  by_contra none
  have all : ∀ k < g.nets.length, (g.net? (numbered base k)).isSome := by
    intro k bound
    by_contra free
    exact none ⟨k, bound, by simpa using free⟩
  have distinct : (base :: (List.range g.nets.length).map (numbered base)).Nodup := by
    rw [List.nodup_cons]
    constructor
    · intro member
      obtain ⟨k, -, same⟩ := List.mem_map.mp member
      exact numbered_ne_base base k same
    · exact List.Nodup.map (numbered_injective base) List.nodup_range
  have names : base :: (List.range g.nets.length).map (numbered base) ⊆ g.nets.map Prod.fst := by
    intro name member
    rcases List.mem_cons.mp member with rfl | member
    · exact mem_names_of_net?_isSome taken
    · obtain ⟨k, bound, rfl⟩ := List.mem_map.mp member
      exact mem_names_of_net?_isSome (all k (List.mem_range.mp bound))
  have count := (List.subperm_of_subset distinct names).length_le
  simp only [List.length_cons, List.length_map, List.length_range] at count
  omega

/-- The search ends at the base if it is free, and else at the first numbered name that is. -/
theorem freshName_cases (g : Graph) (base : String) :
    g.net? base = none ∧ Blif.freshName g base = base ∨
    (g.net? base).isSome ∧ ∃ k, Blif.freshName g base = numbered base k ∧
      g.net? (numbered base k) = none ∧ ∀ j < k, (g.net? (numbered base j)).isSome := by
  unfold Blif.freshName
  dsimp only
  split
  · next free => exact .inl ⟨Option.isNone_iff_eq_none.mp free, rfl⟩
  · next taken =>
    have taken : (g.net? base).isSome := Option.isSome_iff_ne_none.mpr (by simpa using taken)
    refine .inr ⟨taken, ?_⟩
    split
    · next k found =>
      obtain ⟨free, -, below⟩ := List.find?_range_eq_some.mp found
      refine ⟨k, rfl, Option.isNone_iff_eq_none.mp free, fun j less => ?_⟩
      simpa [numbered] using below j less
    · next none =>
      obtain ⟨k, bound, free⟩ := exists_numbered_free taken
      exact absurd free (List.find?_eq_none.mp none k (List.mem_range.mpr bound))

/-- The name that is chosen is free. -/
theorem net?_freshName (g : Graph) (base : String) : g.net? (Blif.freshName g base) = none := by
  rcases g.freshName_cases base with ⟨free, same⟩ | ⟨-, k, same, free, -⟩
  · rw [same, free]
  · rw [same, free]

end Netlist.Graph
