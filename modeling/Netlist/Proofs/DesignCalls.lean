import Netlist.Proofs.Extraction
import Netlist.Proofs.TopLevel

/-!
# Designs that calls have made

The top-level list is as old as the last call that computed it, and modules come and go since. Whatever
the order of the calls, it stays an increasing list of positions that exist, and a module that is taken
out leaves the others as they were, in the design and on the list. Members know their design, and no
network that has left it does.
-/

namespace Netlist.Design

variable {d : Design Network}

inductive Call where
  | add (n : Network)
  | detach (i : Nat)
  | markTopLevel
  | extractExdc

def Call.after (d : Design Network) : Call → Design Network
  | add n => d.add n
  | detach i => (d.detach i).elim d Prod.snd
  | markTopLevel => d.markTopLevel
  | extractExdc => d.settled

/-- The design that the calls make of an empty one, one after the other. -/
def built (id : DesignId) (name : String) (calls : List Call) : Design Network :=
  calls.foldl Call.after { id, name }

/-- What holds of design `id` whatever is called, if `brought` holds of the don't-care circuits that
modules had when they were added. -/
structure Coherent (id : DesignId) (brought : Network → Prop) (d : Design Network) : Prop where
  own : d.id = id
  linked : ∀ m ∈ d.modules, m.design = some id
  companions : ∀ m ∈ d.modules, ∀ c ∈ m.exdc, c.design = none ∨ brought c
  sorted : d.topLevel.Pairwise (· < ·)
  inside : ∀ i ∈ d.topLevel, i < d.modules.length

variable {id : DesignId} {brought : Network → Prop}

theorem coherent_empty (name : String) : Coherent id brought { id, name } where
  own := rfl
  linked := nofun
  companions := nofun
  sorted := .nil
  inside := nofun

/-! ### Single calls -/

theorem detach_eq_some {i : Nat} {m : Network} (here : d.modules[i]? = some m) :
    d.detach i = some ({ m with design := none },
      { d with modules := d.modules.eraseIdx i, topLevel := closeGap i d.topLevel }) := by
  rw [detach, here]
  rfl

theorem detach_eq_none {i : Nat} (outside : d.modules.length ≤ i) : d.detach i = none := by
  rw [detach, List.getElem?_eq_none outside]
  rfl

theorem closeGap_inside {positions : List Nat} {i n : Nat} (inside : ∀ j ∈ positions, j < n + 1)
    (bound : i < n + 1) : ∀ j ∈ closeGap i positions, j < n := by
  intro j member
  rcases mem_closeGap.mp member with ⟨before, -⟩ | ⟨-, old⟩
  · omega
  · exact Nat.lt_of_succ_lt_succ (inside (j + 1) old)

theorem Coherent.add (coherent : Coherent id brought d) {n : Network}
    (brings : ∀ c ∈ n.exdc, brought c) : Coherent id brought (d.add n) where
  own := coherent.own
  linked m member := by
    rcases List.mem_append.mp member with old | new
    · exact coherent.linked m old
    · rw [List.mem_singleton.mp new, coherent.own]
  companions m member c attached := by
    rcases List.mem_append.mp member with old | new
    · exact coherent.companions m old c attached
    · rw [List.mem_singleton.mp new] at attached
      exact .inr (brings c attached)
  sorted := coherent.sorted
  inside i member := by
    have grown : (d.add n).modules.length = d.modules.length + 1 := by simp [Design.add]
    have := coherent.inside i member
    omega

theorem Coherent.markTopLevel (coherent : Coherent id brought d) : Coherent id brought d.markTopLevel where
  own := coherent.own
  linked := coherent.linked
  companions := coherent.companions
  sorted := d.roots_sorted
  inside i member := by
    obtain ⟨m, here, -⟩ := mem_roots_iff.mp member
    exact (List.getElem?_eq_some_iff.mp here).1

/-- When a module leaves, the rest stays coherent if its members are old ones, even if one of them takes
another module for its don't-care circuit. -/
theorem Coherent.remove (coherent : Coherent id brought d) {i : Nat} {modules : List Network}
    (bound : i < d.modules.length) (shorter : modules.length + 1 = d.modules.length)
    (members : ∀ m ∈ modules, ∃ o ∈ d.modules,
      m = o ∨ ∃ e ∈ d.modules, m = { o with exdc := some { e with design := none } }) :
    Coherent id brought { d with modules, topLevel := closeGap i d.topLevel } where
  own := coherent.own
  linked m member := by
    obtain ⟨o, old, rfl | ⟨e, -, rfl⟩⟩ := members m member
    · exact coherent.linked m old
    · exact coherent.linked o old
  companions m member c attached := by
    obtain ⟨o, old, rfl | ⟨e, -, rfl⟩⟩ := members m member
    · exact coherent.companions m old c attached
    · obtain rfl := Option.some.inj attached
      exact .inl rfl
  sorted := closeGap_sorted coherent.sorted i
  inside := closeGap_inside (by simpa only [shorter] using coherent.inside) (by rwa [shorter])

theorem Coherent.detach (coherent : Coherent id brought d) (i : Nat) :
    Coherent id brought ((d.detach i).elim d Prod.snd) := by
  by_cases bound : i < d.modules.length
  · rw [detach_eq_some (List.getElem?_eq_getElem bound)]
    refine coherent.remove bound ?_ fun m member => ⟨m, List.mem_of_mem_eraseIdx member, .inl rfl⟩
    rw [List.length_eraseIdx_of_lt bound]
    omega
  · rw [detach_eq_none (Nat.le_of_not_lt bound)]
    exact coherent

theorem Coherent.settled (coherent : Coherent id brought d) : Coherent id brought d.settled := by
  have members (m) (member : m ∈ d.settled.modules) := mem_settled member
  rcases d.extraction with ⟨-, yields⟩ | ⟨before, owner, companion, after, divided, -, -, found⟩
  · rw [Yields.settled_eq yields]
    exact coherent
  have bound : before.length + 1 < d.modules.length := by simp [divided]
  -- Whether or not its owner takes it, the module is gone.
  rcases found with ⟨-, yields⟩ | ⟨-, stops⟩
  · rw [Yields.settled_eq yields] at members ⊢
    exact coherent.remove bound (by simp [divided, Nat.add_assoc]) members
  · rw [Stops.settled_eq stops] at members ⊢
    exact coherent.remove bound (by simp [divided, Nat.add_assoc]) members

theorem Coherent.after (coherent : Coherent id brought d) {c : Call}
    (brings : ∀ n, c = .add n → ∀ e ∈ n.exdc, brought e) : Coherent id brought (c.after d) := by
  cases c with
  | add n => exact coherent.add (brings n rfl)
  | detach i => exact coherent.detach i
  | markTopLevel => exact coherent.markTopLevel
  | extractExdc => exact coherent.settled

/-! ### Runs -/

theorem Coherent.foldl (coherent : Coherent id brought d) (calls : List Call)
    (brings : ∀ n, .add n ∈ calls → ∀ e ∈ n.exdc, brought e) :
    Coherent id brought (calls.foldl Call.after d) := by
  induction calls generalizing d with
  | nil => exact coherent
  | cons c calls ih =>
    refine ih (coherent.after ?_) fun n later => brings n (List.mem_cons_of_mem c later)
    rintro n rfl
    exact brings n List.mem_cons_self

/-- What an extraction attaches is the module after the owner, without its design. -/
theorem extractExdc_attaches {owner : Nat} {rest : Design Network}
    (yields : Yields extractExdc d (some owner) rest) :
    ∃ m companion, rest.modules[owner]? = some m ∧ d.modules[owner + 1]? = some companion ∧
      m.exdc = some { companion with design := none } := by
  have conclusive {a : Except Violation (Option Nat)} {e : Design Network}
      (other : extractExdc.run.run d = (a, e)) : .ok (some owner) = a ∧ rest = e :=
    Prod.mk.inj (yields.symm.trans other)
  rcases d.extraction with ⟨-, idle⟩ | ⟨before, m, companion, after, divided, -, -, found⟩
  · exact nomatch (conclusive idle).1
  rcases found with ⟨-, moved⟩ | ⟨-, stops⟩
  · obtain ⟨same, rfl⟩ := conclusive moved
    obtain rfl : owner = before.length := by simpa using same
    exact ⟨{ m with exdc := some { companion with design := none } }, companion, by simp,
      by simp [divided], rfl⟩
  · exact nomatch (conclusive stops).1

/-- What holds of a design after any calls: its members are linked to it, don't-care circuits that an
extraction attaches are not, the top-level list is increasing and in range, and taking out a module
leaves the others, and what the list refers to, as they were. -/
theorem built_coherent (id : DesignId) (name : String) (calls : List Call) :
    let d := built id name calls
    (d.id = id ∧ ∀ m ∈ d.modules, m.design = some id) ∧
    (∀ m ∈ d.modules, ∀ c ∈ m.exdc, c.design = none ∨ ∃ n, .add n ∈ calls ∧ c ∈ n.exdc) ∧
    (∀ owner rest, Yields extractExdc d (some owner) rest →
      ∃ m companion, rest.modules[owner]? = some m ∧ d.modules[owner + 1]? = some companion ∧
        m.exdc = some { companion with design := none }) ∧
    (d.topLevel.Pairwise (· < ·) ∧ ∀ i ∈ d.topLevel, i < d.modules.length) ∧
    (∀ i m, d.modules[i]? = some m → ∃ rest, d.detach i = some ({ m with design := none }, rest) ∧
      rest.modules = d.modules.eraseIdx i ∧
      rest.topLevel.map (rest.modules[·]?) = (d.topLevel.filter (· ≠ i)).map (d.modules[·]?)) ∧
    ∀ i, d.modules.length ≤ i → d.detach i = none ∧ (Call.detach i).after d = d := by
  intro d
  have coherent : Coherent id (fun c => ∃ n, .add n ∈ calls ∧ c ∈ n.exdc) d :=
    (coherent_empty name).foldl calls fun n added c attached => ⟨n, added, attached⟩
  refine ⟨⟨coherent.own, coherent.linked⟩, coherent.companions,
    fun owner rest => extractExdc_attaches, ⟨coherent.sorted, coherent.inside⟩,
    fun i m here => ?_, fun i outside => ?_⟩
  · exact ⟨_, detach_eq_some here, rfl, closeGap_getElem? d.modules i d.topLevel⟩
  · have none := detach_eq_none outside
    refine ⟨none, ?_⟩
    rw [Call.after, none, Option.elim_none]

/-- A module that comes after the list was computed is not on it, and those that are stay on it when one
before them leaves. -/
example : let named (name : String) : Network := { name, type := .netlist, function := .sop }
    (built ⟨0⟩ "" [.add (named "a"), .add (named "b"), .add (named "c"), .markTopLevel,
      .add (named "d"), .detach 1]).topLevel = [0, 1] := by decide +kernel

end Netlist.Design
