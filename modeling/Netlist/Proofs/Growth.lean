import Netlist.Proofs.BufferCalls
import Mathlib.Algebra.Group.Nat.Defs
import Mathlib.Logic.Function.Iterate
import Mathlib.Order.Bounds.Basic
import Mathlib.Order.Monotone.Basic

/-!
# The capacity that pushes lead to

Pushes take a buffer from its capacity to the next one and on, but never further than the entries need.
Below sixteen the next capacity is sixteen, and from there on it doubles. So the capacity is known from
the one at the start and the number of entries, whatever calls brought them.
-/

namespace Netlist.Buffer

variable {α : Type} {b : Buffer α} {l : List α} {start n c : Nat} {capacities : Nat → Nat}

/-! ### The first capacity with room -/

/-- `c` is the first of the capacities with room for `n` entries. -/
def FirstWithRoom (capacities : Nat → Nat) (n c : Nat) : Prop :=
  ∃ k, IsLeast {k | n ≤ capacities k} k ∧ c = capacities k

theorem firstWithRoom_start (room : n ≤ capacities 0) : FirstWithRoom capacities n (capacities 0) :=
  ⟨0, ⟨room, fun _ _ => Nat.zero_le _⟩, rfl⟩

theorem FirstWithRoom.unique {c' : Nat} (first : FirstWithRoom capacities n c)
    (first' : FirstWithRoom capacities n c') : c = c' := by
  obtain ⟨k, least, rfl⟩ := first
  obtain ⟨k', least', rfl⟩ := first'
  rw [least.unique least']

/-- A capacity at the start without room does not count. -/
theorem FirstWithRoom.tail (first : FirstWithRoom capacities n c) (small : capacities 0 < n) :
    FirstWithRoom (fun k => capacities (k + 1)) n c := by
  obtain ⟨k, ⟨room, least⟩, rfl⟩ := first
  cases k with
  | zero => exact absurd room (Nat.not_le.mpr small)
  | succ k => exact ⟨k, ⟨room, fun j roomy => Nat.le_of_succ_le_succ (least roomy)⟩, rfl⟩

/-! ### The capacities of a buffer -/

/-- The capacity that a push onto a full buffer of capacity `c` leads to. -/
def nextCapacity (c : Nat) : Nat := if c < 16 then 16 else 2 * c

theorem lt_nextCapacity (c : Nat) : c < nextCapacity c := by
  unfold nextCapacity
  split <;> omega

theorem le_nextCapacity (c : Nat) : 16 ≤ nextCapacity c := by
  unfold nextCapacity
  split <;> omega

theorem iterate_nextCapacity_strictMono (c : Nat) : StrictMono (nextCapacity^[·] c) := by
  refine strictMono_nat_of_lt_succ fun k => ?_
  rw [Function.iterate_succ_apply']
  exact lt_nextCapacity _

/-- The change of rule is behind after one step. -/
theorem iterate_succ_nextCapacity (c k : Nat) : nextCapacity^[k + 1] c = nextCapacity c * 2 ^ k := by
  induction k with
  | zero => simp
  | succ k ih =>
    have high : 16 ≤ nextCapacity c * 2 ^ k :=
      Nat.le_trans (le_nextCapacity c) (Nat.le_mul_of_pos_right _ (Nat.two_pow_pos k))
    calc nextCapacity^[k + 2] c
        = nextCapacity (nextCapacity c * 2 ^ k) := by rw [Function.iterate_succ_apply', ih]
      _ = 2 * (nextCapacity c * 2 ^ k) := if_neg (Nat.not_lt.mpr high)
      _ = nextCapacity c * 2 ^ (k + 1) := by rw [Nat.pow_succ, Nat.mul_comm 2, Nat.mul_assoc]

/-! ### Pushes -/

/-- One entry more stays with a capacity that has room for it, and goes on to the next if it is full. -/
theorem FirstWithRoom.more (first : FirstWithRoom (nextCapacity^[·] start) n c) :
    FirstWithRoom (nextCapacity^[·] start) (n + 1) (if n = c then nextCapacity c else c) := by
  have rising := iterate_nextCapacity_strictMono start
  obtain ⟨k, ⟨room, least⟩, rfl⟩ := first
  split_ifs with full
  · -- the entries fill capacity `k`, so that it and all before it are too small for one more
    subst full
    refine ⟨k + 1, ⟨rising (Nat.lt_succ_self k), fun j roomy => ?_⟩, ?_⟩
    · exact rising.lt_iff_lt.mp roomy
    · exact (Function.iterate_succ_apply' ..).symm
  · have space : n < nextCapacity^[k] start := Nat.lt_of_le_of_ne room full
    exact ⟨k, ⟨space, fun j roomy => least (Nat.le_of_succ_le roomy)⟩, rfl⟩

theorem FirstWithRoom.push (first : FirstWithRoom (nextCapacity^[·] start) b.size b.capacity) (x : α) :
    FirstWithRoom (nextCapacity^[·] start) (b.push x).size (b.push x).capacity := by
  rw [size_push, capacity_push]
  exact first.more

theorem FirstWithRoom.append (first : FirstWithRoom (nextCapacity^[·] start) b.size b.capacity)
    (l : List α) :
    FirstWithRoom (nextCapacity^[·] start) (b.size + l.length) (b.append l).capacity := by
  unfold Buffer.append
  -- the capacities are counted from `start` throughout, whatever the buffer has become
  induction l generalizing b with
  | nil => exact first
  | cons x l ih =>
    have rest := ih (first.push x)
    rwa [size_push, Nat.add_right_comm] at rest

theorem Fits.firstWithRoom_append (fits : b.Fits) (l : List α) :
    FirstWithRoom (nextCapacity^[·] b.capacity) (b.size + l.length) (b.append l).capacity :=
  (firstWithRoom_start fits).append l

theorem Fits.capacity_append_of_room (fits : b.Fits) (room : b.size + l.length ≤ b.capacity) :
    (b.append l).capacity = b.capacity :=
  (fits.firstWithRoom_append l).unique (firstWithRoom_start room)

theorem Fits.capacity_append_of_small (fits : b.Fits) (small : b.capacity < b.size + l.length) :
    FirstWithRoom (nextCapacity b.capacity * 2 ^ ·) (b.size + l.length) (b.append l).capacity := by
  simpa only [iterate_succ_nextCapacity] using (fits.firstWithRoom_append l).tail small

theorem capacity_ofList (nonempty : 0 < l.length) :
    FirstWithRoom (16 * 2 ^ ·) l.length (ofList l).capacity := by
  have fits : (∅ : Buffer α).Fits := Nat.zero_le 0
  rw [← Nat.zero_add l.length] at nonempty ⊢
  exact fits.capacity_append_of_small nonempty

/-- Entries may be appended in any portions. -/
theorem foldl_append (b : Buffer α) (parts : List (List α)) :
    parts.foldl append b = b.append parts.flatten :=
  List.foldl_flatten.symm

/-- However a list comes into an empty buffer, collected, pushed entry by entry or appended in any
portions, the same buffer comes of it. It has no capacity if the list is empty, and otherwise the first
of 16, 32, 64 and so on with room for the list. Pushes onto any buffer with room for its entries leave
the capacity alone as long as there is room for more. If there is not room for all, they lead to the
first capacity with room among the next one and its doublings. -/
theorem capacity_pushes :
    (∀ l : List α,
      l.foldl push ∅ = ofList l ∧
      (∀ parts : List (List α), parts.flatten = l → parts.foldl append ∅ = ofList l) ∧
      (l.length = 0 → (ofList l).capacity = 0) ∧
      (0 < l.length → FirstWithRoom (16 * 2 ^ ·) l.length (ofList l).capacity)) ∧
    ∀ (b : Buffer α) (l : List α), b.size ≤ b.capacity →
      (b.size + l.length ≤ b.capacity → (l.foldl push b).capacity = b.capacity) ∧
      (b.capacity < b.size + l.length →
        FirstWithRoom ((if b.capacity < 16 then 16 else 2 * b.capacity) * 2 ^ ·)
          (b.size + l.length) (l.foldl push b).capacity) := by
  refine ⟨fun l => ⟨rfl, ?_, fun empty => ?_, capacity_ofList⟩, fun b l fits => ⟨?_, ?_⟩⟩
  · rintro parts rfl
    exact foldl_append ∅ parts
  · rw [List.length_eq_zero_iff.mp empty]
    rfl
  · exact Fits.capacity_append_of_room fits
  · exact Fits.capacity_append_of_small fits

/-- Seventeen entries in two portions; fifteen and then forty entries onto two in seventeen slots. -/
theorem capacity_pushes_reserved :
    let portions := [List.range 5, List.range' 5 12]
    let reserved := (ofList [0, 1]).reserve 17
    portions.foldl append ∅ = ofList (List.range 17) ∧
    FirstWithRoom (16 * 2 ^ ·) 17 (ofList (List.range 17)).capacity ∧
    reserved.size = 2 ∧ reserved.capacity = 17 ∧
    ((List.range 15).foldl push reserved).capacity = 17 ∧
    FirstWithRoom (34 * 2 ^ ·) 42 ((List.range 40).foldl push reserved).capacity ∧
    ((List.range 40).foldl push reserved).capacity = 68 := by
  intro portions reserved
  obtain ⟨fresh, onto⟩ := capacity_pushes (α := Nat)
  obtain ⟨-, portioned, -, first⟩ := fresh (List.range 17)
  have fits : reserved.size ≤ reserved.capacity := by decide
  refine ⟨portioned portions (by decide), first (by decide), rfl, rfl, ?_, ?_, by decide +kernel⟩
  · exact (onto reserved (List.range 15) fits).1 (by decide)
  · exact (onto reserved (List.range 40) fits).2 (by decide)

end Netlist.Buffer
