import Netlist.Proofs.SharedChannel
import Mathlib.Data.List.Induction

/-!
# Channels and their clones

What has been done to a channel decides which handlers it has: those installed since the last reset, or
the built-in one if there are none. A clone takes over what was done to its original before. From there
on the two go separate ways.
-/

namespace Netlist.Fault

variable {η σ τ : Type}

/-- A call on one of several channels, which are numbered as they come up. A handler that is installed may
be in a channel already. -/
inductive Call (η : Type) where
  | change (channel : Nat) (r : Reaction η)
  | clone (channel : Nat)
  deriving DecidableEq

def Call.after (apply : σ → Reaction η → σ) (all : List σ) : Call η → List σ
  | change i r => all.modify i (apply · r)
  | clone i => all ++ all[i]?.toList

def channels (calls : List (Call η)) : List (Channel η) :=
  calls.foldl (Call.after Reaction.apply) [{}]

/-- What was done to each channel, and to its originals before it was cloned from them. -/
def journals (calls : List (Call η)) : List (List (Reaction η)) :=
  calls.foldl (Call.after fun journal r => journal ++ [r]) [[]]

def InstalledSince (journal : List (Reaction η)) (hs : List η) : Prop :=
  journal = hs.map .install ∨ ∃ before, journal = before ++ .reset :: hs.map .install

theorem exists_installedSince (journal : List (Reaction η)) : ∃ hs, InstalledSince journal hs := by
  induction journal using List.reverseRecOn with
  | nil => exact ⟨[], .inl rfl⟩
  | append_singleton journal r ih =>
    cases r with
    | reset => exact ⟨[], .inr ⟨journal, rfl⟩⟩
    | install h =>
      obtain ⟨hs, rfl | ⟨before, rfl⟩⟩ := ih
      · exact ⟨hs ++ [h], .inl (by simp)⟩
      · exact ⟨hs ++ [h], .inr ⟨before, by simp⟩⟩

/-- The handlers of a channel can be told from what was done to it. -/
theorem InstalledSince.handlers_eq {journal : List (Reaction η)} {hs : List η}
    (since : InstalledSince journal hs) : (journal.foldl Reaction.apply {}).handlers =
      if hs.isEmpty then [.builtin] else hs.map .custom := by
  rcases since with rfl | ⟨before, rfl⟩
  · -- A fresh channel is like one that was reset.
    exact Reaction.handlers_after_reset {} [] hs
  · exact Reaction.handlers_after_reset {} before hs

theorem hasOnlyBuiltin_iff {c : Channel η} : c.hasOnlyBuiltin ↔ c.handlers = [.builtin] := by
  unfold Channel.hasOnlyBuiltin
  split <;> simp_all

theorem InstalledSince.hasOnlyBuiltin_iff {journal : List (Reaction η)} {hs : List η}
    (since : InstalledSince journal hs) :
    (journal.foldl Reaction.apply {}).hasOnlyBuiltin ↔ hs = [] := by
  rw [Fault.hasOnlyBuiltin_iff, since.handlers_eq]
  cases hs <;> simp

/-- Calls on all channels do to each of them what its journal tells. -/
theorem Call.map_after {f : σ → τ} {apply : σ → Reaction η → σ} {apply' : τ → Reaction η → τ}
    (follows : ∀ s r, f (apply s r) = apply' (f s) r) (all : List σ) (c : Call η) :
    (c.after apply all).map f = c.after apply' (all.map f) := by
  cases c with
  | change i r =>
    apply List.ext_getElem?
    intro j
    simp only [after, List.getElem?_map, List.getElem?_modify]
    cases all[j]? with
    | none => rfl
    | some s => by_cases here : i = j <;> simp [here, follows]
  | clone i => cases found : all[i]? <;> simp [after, found]

theorem channels_eq (calls : List (Call η)) :
    channels calls = (journals calls).map fun journal => journal.foldl Reaction.apply {} := by
  have follows (calls : List (Call η)) (all : List (List (Reaction η))) :
      calls.foldl (Call.after Reaction.apply) (all.map fun j => j.foldl Reaction.apply {}) =
        (calls.foldl (Call.after fun j r => j ++ [r]) all).map fun j => j.foldl Reaction.apply {} := by
    induction calls generalizing all with
    | nil => rfl
    | cons c calls ih =>
      rw [List.foldl_cons, List.foldl_cons, ← ih, Call.map_after]
      intro journal r
      simp
  exact follows calls [[]]

theorem getElem?_after {i : Nat} {s : σ} {all : List σ} {apply : σ → Reaction η → σ} {c : Call η}
    (here : all[i]? = some s) (other : ∀ r, c ≠ .change i r) : (c.after apply all)[i]? = some s := by
  cases c with
  | change j r =>
    have apart : j ≠ i := by
      rintro rfl
      exact other r rfl
    rw [Call.after, List.getElem?_modify_ne _ _ apart, here]
  | clone j =>
    have inside : i < all.length := (List.getElem?_eq_some_iff.mp here).1
    rw [Call.after, List.getElem?_append_left inside, here]

theorem getElem?_foldl_after {i : Nat} {s : σ} {all : List σ} {apply : σ → Reaction η → σ}
    {calls : List (Call η)} (here : all[i]? = some s) (others : ∀ r, .change i r ∉ calls) :
    (calls.foldl (Call.after apply) all)[i]? = some s := by
  induction calls generalizing all with
  | nil => exact here
  | cons c calls ih =>
    refine ih (getElem?_after here ?_) fun r later => others r (List.mem_cons_of_mem c later)
    rintro r rfl
    exact others r List.mem_cons_self

/-- Of all the channels that calls make of a fresh one, each has the handlers that were installed in it or
in its originals since the last reset, in their order, or the built-in one alone if there are none, and
that can be asked of it. It passes a message to each of them once, in this order. A clone starts as its
original, and no channel is changed by calls on others. -/
theorem channels_installed (calls : List (Call η)) :
    (∀ (i : Nat) c, (channels calls)[i]? = some c → ∃ journal hs,
      (journals calls)[i]? = some journal ∧ InstalledSince journal hs ∧
      c.handlers = (if hs.isEmpty then [.builtin] else hs.map .custom) ∧
      (c.hasOnlyBuiltin ↔ hs = []) ∧
      ∀ message, (∀ (b : Behavior η) (p : Process η),
          (p.emit b c message).calls = p.calls ++ c.handlers.map (⟨·, message⟩)) ∧
        ∀ react shared, (c.emit react [message] shared).1 = c.handlers.map (⟨·, message⟩)) ∧
    (∀ (i : Nat) c, (channels calls)[i]? = some c → channels (calls ++ [.clone i]) = channels calls ++ [c]) ∧
    ∀ (i : Nat) c later, (channels calls)[i]? = some c → (∀ r, .change i r ∉ later) →
      (channels (calls ++ later))[i]? = some c := by
  refine ⟨fun i c here => ?_, fun i c here => ?_, fun i c later here others => ?_⟩
  · rw [channels_eq, List.getElem?_map, Option.map_eq_some_iff] at here
    obtain ⟨journal, recorded, rfl⟩ := here
    obtain ⟨hs, since⟩ := exists_installedSince journal
    refine ⟨journal, hs, recorded, since, since.handlers_eq, since.hasOnlyBuiltin_iff, fun message => ?_⟩
    have delivered (c : Channel η) : c.deliver [message] = c.handlers.map (⟨·, message⟩) :=
      List.flatMap_singleton _ _
    refine ⟨fun b p => ?_, fun react shared => delivered _⟩
    rw [Process.emit_eq, delivered]
    rfl
  · have last : channels (calls ++ [.clone i]) = (Call.clone i).after Reaction.apply (channels calls) := by
      rw [channels, List.foldl_append]
      rfl
    rw [last, Call.after, here, Option.toList_some]
  · rw [channels, List.foldl_append]
    exact getElem?_foldl_after here others

/-- The second channel is a clone of the first one, which is then reset and given two handlers alike. -/
def parted : List (Call Nat) :=
  [.change 0 (.install 1), .clone 0, .change 0 .reset, .change 0 (.install 2), .change 0 (.install 2)]

theorem channels_installed_parted :
    (channels parted)[0]? = some ⟨[.custom 2, .custom 2]⟩ ∧ (channels parted)[1]? = some ⟨[.custom 1]⟩ ∧
    (∃ hs, InstalledSince [.install 1, .reset, .install 2, .install 2] hs ∧
      [Handler.custom 2, .custom 2] = if hs.isEmpty then [.builtin] else hs.map .custom) ∧
    (∀ react shared, (Channel.emit react ⟨[.custom 2, .custom 2]⟩ ["x"] shared).1 =
      [⟨.custom 2, "x"⟩, ⟨.custom 2, "x"⟩]) ∧
    (channels (parted ++ [.change 1 .reset, .clone 0]))[0]? = some ⟨[.custom 2, .custom 2]⟩ := by
  have first : (channels parted)[0]? = some ⟨[.custom 2, .custom 2]⟩ := by decide
  have done : (journals parted)[0]? = some [.install 1, .reset, .install 2, .install 2] := by decide
  obtain ⟨installed, -, apart⟩ := channels_installed parted
  obtain ⟨journal, hs, recorded, since, handlers, -, emitted⟩ := installed 0 _ first
  obtain rfl := Option.some.inj (done.symm.trans recorded)
  exact ⟨first, by decide, ⟨hs, since, handlers⟩, (emitted "x").2, apart 0 _ _ first (by simp)⟩

end Netlist.Fault
