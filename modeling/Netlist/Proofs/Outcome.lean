import Netlist.Traced
import Mathlib.Data.List.Forall2

/-!
# Outcomes of sequences

A sequence succeeds when each of its parts does, and its error is the error of one of them. The
outcome of a traced sequence is the sequence of the outcomes, so what is said here of plain results
holds of traced ones too.
-/

namespace List.Forall₂

variable {α β : Type} {R : α → β → Prop} {l : List α} {l' : List β}

theorem exists_mem_right (related : Forall₂ R l l') {b : β} (member : b ∈ l') : ∃ a ∈ l, R a b := by
  induction related with
  | nil => simp at member
  | @cons a b' _ _ head _ ih =>
    rcases List.mem_cons.mp member with rfl | later
    · exact ⟨a, List.mem_cons_self, head⟩
    · obtain ⟨a', earlier, holds⟩ := ih later
      exact ⟨a', List.mem_cons_of_mem a earlier, holds⟩

theorem exists_mem_left (related : Forall₂ R l l') {a : α} (member : a ∈ l) : ∃ b ∈ l', R a b :=
  exists_mem_right related.flip member

theorem exists_getElem? (related : Forall₂ R l l') {i : Nat} {a : α} (here : l[i]? = some a) :
    ∃ b, l'[i]? = some b ∧ R a b := by
  induction related generalizing i with
  | nil => simp at here
  | @cons a' b l l' head _ ih =>
    cases i with
    | zero =>
      obtain rfl : a' = a := by simpa using here
      exact ⟨b, rfl, head⟩
    | succ i => exact ih here

/-- A division of the second list divides the first one too. -/
theorem divided {before after : List β} (related : Forall₂ R l (before ++ after)) :
    ∃ l₁ l₂, l = l₁ ++ l₂ ∧ Forall₂ R l₁ before ∧ Forall₂ R l₂ after :=
  ⟨l.take before.length, l.drop before.length, (l.take_append_drop _).symm,
    forall₂_take_append l before after related, forall₂_drop_append l before after related⟩

/-- Two lists that go with the same third one go with each other. -/
theorem across {γ : Type} {S : γ → β → Prop} {k : List γ} (related : Forall₂ R l l')
    (others : Forall₂ S k l') :
    Forall₂ (fun a c => ∃ b, R a b ∧ S c b) l k := by
  induction related generalizing k with
  | nil =>
    cases others
    exact .nil
  | @cons _ b _ _ head _ ih =>
    cases others with
    | cons other others => exact .cons ⟨b, head, other⟩ (ih others)

end List.Forall₂

namespace Netlist

namespace Outcome

variable {ε α β : Type}

theorem bind_eq_ok {x : Except ε α} {f : α → Except ε β} {b : β} :
    x >>= f = .ok b ↔ ∃ a, x = .ok a ∧ f a = .ok b := by
  cases x with
  | ok a => simp [Bind.bind, Except.bind]
  | error e => simp [Bind.bind, Except.bind]

theorem bind_eq_error {x : Except ε α} {f : α → Except ε β} {e : ε} :
    x >>= f = .error e ↔ x = .error e ∨ ∃ a, x = .ok a ∧ f a = .error e := by
  cases x with
  | ok a => simp [Bind.bind, Except.bind]
  | error e => simp [Bind.bind, Except.bind]

theorem mapError_eq_ok {δ : Type} {f : ε → δ} {x : Except ε α} {a : α} :
    x.mapError f = .ok a ↔ x = .ok a := by
  cases x <;> simp [Except.mapError]

theorem mapError_eq_error {δ : Type} {f : ε → δ} {x : Except ε α} {e : δ} :
    x.mapError f = .error e ↔ ∃ d, x = .error d ∧ f d = e := by
  cases x <;> simp [Except.mapError]

def error? : Except ε α → Option ε
  | .ok _ => none
  | .error e => some e

theorem error?_eq_some {x : Except ε α} {e : ε} : error? x = some e ↔ x = .error e := by
  cases x <;> simp [error?]

/-- Brings a test of a computed result to the result itself. -/
theorem exists_ok_of_any {x : Except ε α} {p : α → Bool} (passed : x.toOption.any p) :
    ∃ a, x = .ok a ∧ p a := by
  cases x with
  | ok a => exact ⟨a, rfl, passed⟩
  | error e => cases passed

theorem mapM_eq_ok {f : α → Except ε β} {l : List α} {bs : List β} :
    l.mapM f = .ok bs ↔ List.Forall₂ (fun a b => f a = .ok b) l bs := by
  induction l generalizing bs with
  | nil => simp [pure, Except.pure, eq_comm]
  | cons a l ih =>
    rw [List.mapM_cons, bind_eq_ok, List.forall₂_cons_left_iff]
    constructor
    · rintro ⟨b, first, rest⟩
      obtain ⟨tail, rest, whole⟩ := bind_eq_ok.mp rest
      exact ⟨b, tail, first, ih.mp rest, (Except.ok.inj whole).symm⟩
    · rintro ⟨b, tail, first, rest, rfl⟩
      exact ⟨b, first, bind_eq_ok.mpr ⟨tail, ih.mpr rest, rfl⟩⟩

/-- The error of a sequence is that of the first part that fails. -/
theorem mapM_eq_error_iff {f : α → Except ε β} {l : List α} {e : ε} : l.mapM f = .error e ↔
    ∃ before a after, l = before ++ a :: after ∧ (∀ b ∈ before, ∃ c, f b = .ok c) ∧ f a = .error e := by
  induction l with
  | nil => simp [pure, Except.pure]
  | cons a l ih =>
    have later (b : β) : (l.mapM f >>= fun bs => pure (b :: bs)) = .error e ↔ l.mapM f = .error e := by
      simp [bind_eq_error, pure, Except.pure]
    simp only [List.mapM_cons, bind_eq_error, later, ih]
    constructor
    · rintro (here | ⟨b, succeeded, before, a', after, rfl, each, failed⟩)
      · exact ⟨[], a, l, rfl, nofun, here⟩
      · exact ⟨a :: before, a', after, rfl, List.forall_mem_cons.mpr ⟨⟨b, succeeded⟩, each⟩, failed⟩
    · rintro ⟨before, a', after, divided, each, failed⟩
      rcases List.cons_eq_append_iff.mp divided with ⟨rfl, same⟩ | ⟨before, rfl, rfl⟩
      · obtain ⟨rfl, rfl⟩ := List.cons.inj same
        exact .inl failed
      · obtain ⟨⟨b, succeeded⟩, each⟩ := List.forall_mem_cons.mp each
        exact .inr ⟨b, succeeded, before, a', after, rfl, each, failed⟩

theorem mapM_eq_error {f : α → Except ε β} {l : List α} {e : ε} (failed : l.mapM f = .error e) :
    ∃ a ∈ l, f a = .error e := by
  obtain ⟨before, a, after, rfl, -, failed⟩ := mapM_eq_error_iff.mp failed
  exact ⟨a, List.mem_append_right before List.mem_cons_self, failed⟩

theorem exists_mapM_eq_ok {f : α → Except ε β} {l : List α} (each : ∀ a ∈ l, ∃ b, f a = .ok b) :
    ∃ bs, l.mapM f = .ok bs := by
  cases ended : l.mapM f with
  | ok bs => exact ⟨bs, rfl⟩
  | error e =>
    obtain ⟨a, member, failed⟩ := mapM_eq_error ended
    obtain ⟨b, succeeded⟩ := each a member
    cases failed.symm.trans succeeded

theorem forM_eq_ok {f : α → Except ε Unit} {l : List α} :
    l.forM f = .ok () ↔ ∀ a ∈ l, f a = .ok () := by
  induction l with
  | nil => simp [pure, Except.pure]
  | cons a l ih =>
    have unfolded : (a :: l).forM f = f a >>= fun _ => l.forM f := rfl
    rw [unfolded, bind_eq_ok, ih, List.forall_mem_cons]
    exact ⟨fun ⟨_, first, rest⟩ => ⟨first, rest⟩, fun ⟨first, rest⟩ => ⟨(), first, rest⟩⟩

theorem forM_eq_bind_mapM (f : α → Except ε Unit) (l : List α) :
    l.forM f = l.mapM f >>= fun _ => .ok () := by
  induction l with
  | nil => rfl
  | cons a l ih =>
    have unfolded : (a :: l).forM f = f a >>= fun _ => l.forM f := rfl
    rw [unfolded, ih, List.mapM_cons, bind_assoc]
    apply bind_congr
    intro _
    rw [bind_assoc]
    rfl

/-- Both computations end well, with related values, or both in the same error. -/
inductive Alike {ε α β : Type} (R : α → β → Prop) : Except ε α → Except ε β → Prop where
  | ok {a : α} {b : β} (related : R a b) : Alike R (.ok a) (.ok b)
  | error (e : ε) : Alike R (.error e) (.error e)

theorem Alike.bind {ε α β γ δ : Type} {R : α → β → Prop} {S : γ → δ → Prop} {x : Except ε α}
    {x' : Except ε β} {f : α → Except ε γ} {f' : β → Except ε δ} (first : Alike R x x')
    (next : ∀ {a b}, R a b → Alike S (f a) (f' b)) : Alike S (x >>= f) (x' >>= f') := by
  cases first with
  | ok related => exact next related
  | error e => exact .error e

theorem Alike.mapError {ε δ α β : Type} {R : α → β → Prop} {x : Except ε α} {x' : Except ε β}
    (alike : Alike R x x') (f : ε → δ) : Alike R (x.mapError f) (x'.mapError f) := by
  cases alike with
  | ok related => exact .ok related
  | error e => exact .error (f e)

end Outcome

namespace Traced

variable {ε δ α β : Type}

@[simp] theorem outcome_emit (event : Event) : (emit event : Traced ε Unit).outcome = .ok () := rfl

@[simp] theorem outcome_ofExcept (x : Except ε α) : (ofExcept x).outcome = x := rfl

@[simp] theorem outcome_mapError (f : ε → δ) (x : Traced ε α) :
    (x.mapError f).outcome = x.outcome.mapError f := rfl

theorem outcome_bind (x : Traced ε α) (f : α → Traced ε β) :
    (x >>= f).outcome = x.outcome >>= fun a => (f a).outcome := by
  cases ended : x.outcome with
  | ok a => rw [bind_of_ok ended]; rfl
  | error e => rw [bind_of_error ended]; rfl

@[simp] theorem mapError_pure (f : ε → δ) (a : α) : (pure a : Traced ε α).mapError f = pure a := rfl

@[simp] theorem mapError_emit (f : ε → δ) (event : Event) : (emit event).mapError f = emit event := rfl

theorem mapError_bind (f : ε → δ) (x : Traced ε α) (g : α → Traced ε β) :
    (x >>= g).mapError f = x.mapError f >>= fun a => (g a).mapError f := by
  cases ended : x.outcome with
  | ok a =>
    have mapped : (x.mapError f).outcome = .ok a := by simp [ended, Except.mapError]
    rw [bind_of_ok ended, bind_of_ok mapped]
    rfl
  | error e =>
    have mapped : (x.mapError f).outcome = .error (f e) := by simp [ended, Except.mapError]
    rw [bind_of_error ended, bind_of_error mapped]
    rfl

theorem map_mapError (g : ε → δ) (f : α → β) (x : Traced ε α) :
    f <$> x.mapError g = (f <$> x).mapError g := by
  rw [map_eq_pure_bind, map_eq_pure_bind, mapError_bind]
  rfl

theorem mapError_mapError {γ : Type} (f : ε → δ) (g : δ → γ) (x : Traced ε α) :
    (x.mapError f).mapError g = x.mapError (g ∘ f) := by
  obtain ⟨events, outcome⟩ := x
  cases outcome <;> rfl

/-- What follows a computation matters for the value that it ends in only. -/
theorem bind_congr_of_ok {x : Traced ε α} {f g : α → Traced ε β}
    (same : ∀ a, x.outcome = .ok a → f a = g a) : x >>= f = x >>= g := by
  cases ended : x.outcome with
  | ok a => rw [bind_of_ok ended, bind_of_ok ended, same a ended]
  | error e => rw [bind_of_error ended, bind_of_error ended]

theorem ofExcept_bind (x : Except ε α) (f : α → Except ε β) :
    (ofExcept (x >>= f) : Traced ε β) = ofExcept x >>= fun a => ofExcept (f a) := by
  cases x with
  | ok a =>
    rw [bind_of_ok (outcome_ofExcept (.ok a))]
    rfl
  | error e =>
    rw [bind_of_error (outcome_ofExcept (.error e))]
    rfl

theorem outcome_mapM (f : α → Traced ε β) (l : List α) :
    (l.mapM f).outcome = l.mapM fun a => (f a).outcome := by
  induction l with
  | nil => rfl
  | cons a l ih =>
    rw [List.mapM_cons, List.mapM_cons, outcome_bind]
    apply bind_congr
    intro b
    rw [outcome_bind, ih]
    rfl

theorem outcome_forM (f : α → Traced ε Unit) (l : List α) :
    (l.forM f).outcome = l.forM fun a => (f a).outcome := by
  induction l with
  | nil => rfl
  | cons a l ih =>
    have unfolded : (a :: l).forM f = f a >>= fun _ => l.forM f := rfl
    rw [unfolded, outcome_bind]
    exact bind_congr fun _ => ih

end Traced

end Netlist
