import Netlist.Hierarchy
import Netlist.Proofs.Change
import Mathlib.Data.List.Basic

/-!
# Where the don't-care module goes

In a design whose modules have no don't-care circuit yet, extraction meets no violation. Either no
module after the first is named `EXDC` and the design stays as it is, or the first such module leaves
the list and becomes the don't-care circuit of the one before it. All circuits but the moved one stay,
in their order. An owner that has a don't-care circuit already stops the extraction, but only after the
module has left the list.
-/

namespace Netlist

/-- What only the root of a design gets, the network does not have. -/
structure Network.Unlinked (n : Network) : Prop where
  hierarchy : n.hierarchy = none
  spec : n.spec = none
  properties : n.properties = []

namespace Design

variable {d : Design Network}

def settled (d : Design Network) : Design Network := (extractExdc.run.run d).2

def Fresh (d : Design Network) : Prop := ∀ m ∈ d.modules, m.exdc = none ∧ m.Unlinked

theorem Stops.settled_eq {v : Violation} {e : Design Network} (stops : Stops extractExdc d v e) :
    d.settled = e :=
  congrArg Prod.snd stops

theorem Yields.settled_eq {owner : Option Nat} {e : Design Network}
    (yields : Yields extractExdc d owner e) : d.settled = e :=
  congrArg Prod.snd yields

theorem extractExdc_of_none (absent : d.exdcOwner? = none) : Yields extractExdc d none d := by
  refine (yields_get d).andThen ?_
  simp only [absent]
  exact yields_pure none d

/-- The first `EXDC` module after the first module divides the list. -/
theorem exdcOwner?_eq_some {k : Nat} (found : d.exdcOwner? = some k) :
    ∃ before owner companion after, d.modules = before ++ owner :: companion :: after ∧
      before.length = k ∧ companion.name = exdcName ∧
      ∀ m ∈ (before ++ [owner]).tail, m.name ≠ exdcName := by
  obtain ⟨inside, named, earlier⟩ := List.findIdx?_eq_some_iff_getElem.mp found
  rw [List.length_tail] at inside
  have bound : k + 1 < d.modules.length := by omega
  refine ⟨d.modules.take k, d.modules[k], d.modules[k + 1], d.modules.drop (k + 2), ?_, ?_, ?_, ?_⟩
  · rw [List.getElem_cons_drop, List.getElem_cons_drop, List.take_append_drop]
  · rw [List.length_take]
    omega
  · simpa using named
  · rw [List.take_append_getElem, ← List.drop_one, List.drop_take, List.drop_one]
    intro m member
    obtain ⟨j, before, rfl⟩ := List.mem_iff_getElem.mp member
    simp only [List.length_take, List.length_tail] at before
    simpa using earlier j (by omega)

/-- Taking out a companion leaves its owner where it was. -/
theorem detach_companion {before after : List Network} {owner companion : Network}
    (divided : d.modules = before ++ owner :: companion :: after) :
    d.detach (before.length + 1) = some ({ companion with design := none },
      { d with
        modules := before ++ owner :: after
        topLevel := closeGap (before.length + 1) d.topLevel }) := by
  simp [detach, divided, List.eraseIdx_append_of_length_le]

theorem extractExdc_of_some {before after : List Network} {owner companion : Network}
    (divided : d.modules = before ++ owner :: companion :: after)
    (found : d.exdcOwner? = some before.length) (unattached : owner.exdc = none) :
    Yields extractExdc d (some before.length)
      { d with
        modules := before ++ { owner with exdc := some { companion with design := none } } :: after
        topLevel := closeGap (before.length + 1) d.topLevel } := by
  have attached : owner.attachExdc { companion with design := none } =
      .ok { owner with exdc := some { companion with design := none } } := by
    simp [Network.attachExdc, unattached]
  have here : (before ++ owner :: after)[before.length]? = some owner := by simp
  refine (yields_get d).andThen ?_
  simp only [found, detach_companion divided]
  refine (yields_set d _).andThen ?_
  simp only [here]
  refine (yields_ofExcept _ attached).andThen ((yields_set _ _).andThen ?_)
  simpa using yields_pure (some before.length) _

/-- An owner that has a don't-care circuit takes no other one, and the companion is lost. -/
theorem extractExdc_of_attached {before after : List Network} {owner companion : Network}
    (divided : d.modules = before ++ owner :: companion :: after)
    (found : d.exdcOwner? = some before.length) (attached : owner.exdc ≠ none) :
    Stops extractExdc d (.exdcAttached owner.name)
      { d with
        modules := before ++ owner :: after
        topLevel := closeGap (before.length + 1) d.topLevel } := by
  have refused : owner.attachExdc { companion with design := none } =
      .error (.exdcAttached owner.name) := by
    rw [Network.attachExdc, if_pos (Option.isSome_iff_ne_none.mpr attached)]
  have here : (before ++ owner :: after)[before.length]? = some owner := by simp
  refine (yields_get d).thenStops ?_
  simp only [found, detach_companion divided]
  refine (yields_set d _).thenStops ?_
  simp only [here]
  exact (stops_ofExcept _ refused).early _

/-- Extraction moves nothing, or moves a module into the one before it, or loses a module because the
one before it has a don't-care circuit already. -/
theorem extraction (d : Design Network) :
    (d.exdcOwner? = none ∧ Yields extractExdc d none d) ∨
    ∃ before owner companion after, d.modules = before ++ owner :: companion :: after ∧
      companion.name = exdcName ∧ (∀ m ∈ (before ++ [owner]).tail, m.name ≠ exdcName) ∧
      (owner.exdc = none ∧ Yields extractExdc d (some before.length)
          { d with
            modules := before ++ { owner with exdc := some { companion with design := none } } :: after
            topLevel := closeGap (before.length + 1) d.topLevel } ∨
        owner.exdc ≠ none ∧ Stops extractExdc d (.exdcAttached owner.name)
          { d with
            modules := before ++ owner :: after
            topLevel := closeGap (before.length + 1) d.topLevel }) := by
  cases searched : d.exdcOwner? with
  | none => exact .inl ⟨rfl, extractExdc_of_none searched⟩
  | some k =>
    obtain ⟨before, owner, companion, after, divided, rfl, named, earlier⟩ := exdcOwner?_eq_some searched
    refine .inr ⟨before, owner, companion, after, divided, named, earlier, ?_⟩
    by_cases unattached : owner.exdc = none
    · exact .inl ⟨unattached, extractExdc_of_some divided searched unattached⟩
    · exact .inr ⟨unattached, extractExdc_of_attached divided searched unattached⟩

/-- Extraction leaves modules as they were, or gives one of them another one without its links. -/
theorem mem_settled {m : Network} (member : m ∈ d.settled.modules) :
    ∃ o ∈ d.modules, m = o ∨ ∃ e ∈ d.modules, m = { o with exdc := some { e with design := none } } := by
  rcases d.extraction with ⟨-, yields⟩ | ⟨before, owner, companion, after, divided, -, -, found⟩
  · rw [Yields.settled_eq yields] at member
    exact ⟨m, member, .inl rfl⟩
  rw [divided]
  rcases found with ⟨-, yields⟩ | ⟨-, stops⟩
  · rw [Yields.settled_eq yields] at member
    simp only [List.mem_append, List.mem_cons] at member
    rcases member with early | rfl | late
    · exact ⟨m, by simp [early], .inl rfl⟩
    · exact ⟨owner, by simp, .inr ⟨companion, by simp, rfl⟩⟩
    · exact ⟨m, by simp [late], .inl rfl⟩
  · rw [Stops.settled_eq stops] at member
    simp only [List.mem_append, List.mem_cons] at member ⊢
    exact ⟨m, by tauto, .inl rfl⟩

/-- Extraction meets no violation, and what it leaves behind is one of two things. -/
theorem Fresh.extraction (fresh : d.Fresh) :
    (d.exdcOwner? = none ∧ Yields extractExdc d none d) ∨
    ∃ before owner companion after, d.modules = before ++ owner :: companion :: after ∧
      companion.name = exdcName ∧ (∀ m ∈ (before ++ [owner]).tail, m.name ≠ exdcName) ∧
      Yields extractExdc d (some before.length)
        { d with
          modules := before ++ { owner with exdc := some { companion with design := none } } :: after
          topLevel := closeGap (before.length + 1) d.topLevel } := by
  refine d.extraction.imp_right ?_
  rintro ⟨before, owner, companion, after, divided, named, earlier, ⟨-, yields⟩ | ⟨attached, -⟩⟩
  · exact ⟨before, owner, companion, after, divided, named, earlier, yields⟩
  · exact absurd (fresh owner (by simp [divided])).1 attached

theorem Fresh.unlinked (fresh : d.Fresh) : ∀ m ∈ d.settled.modules, m.Unlinked := by
  intro m member
  obtain ⟨o, old, rfl | ⟨e, -, rfl⟩⟩ := mem_settled member
  · exact (fresh m old).2
  · have kept := (fresh o old).2
    exact ⟨kept.hierarchy, kept.spec, kept.properties⟩

theorem Fresh.settled_id (fresh : d.Fresh) : d.settled.id = d.id := by
  rcases fresh.extraction with ⟨-, yields⟩ | ⟨_, _, _, _, -, -, -, yields⟩
  · rw [Yields.settled_eq yields]
  · rw [Yields.settled_eq yields]

theorem Fresh.settled_ne_nil (fresh : d.Fresh) (some : d.modules ≠ []) : d.settled.modules ≠ [] := by
  rcases fresh.extraction with ⟨-, yields⟩ | ⟨before, owner, companion, after, -, -, -, yields⟩
  · rw [Yields.settled_eq yields]
    exact some
  · rw [Yields.settled_eq yields]
    simp

end Design

end Netlist
