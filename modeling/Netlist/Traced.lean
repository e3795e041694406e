import Netlist.Event

/-!
# Traced computations

A traced computation ends in a value or in an error and tells what happened on the way. The events
of a sequence are those of its parts one after the other, and the first error ends it.
-/

namespace Netlist

structure Traced (ε α : Type) where
  events : List Event
  outcome : Except ε α
  deriving Repr

namespace Traced

variable {ε δ α β : Type}

def emit (event : Event) : Traced ε Unit := ⟨[event], .ok ()⟩

def fail (error : ε) : Traced ε α := ⟨[], .error error⟩

def ofExcept (outcome : Except ε α) : Traced ε α := ⟨[], outcome⟩

def bind (x : Traced ε α) (f : α → Traced ε β) : Traced ε β :=
  match x.outcome with
  | .ok a =>
    let y := f a
    ⟨x.events ++ y.events, y.outcome⟩
  | .error e => ⟨x.events, .error e⟩

instance : Monad (Traced ε) where
  pure a := ⟨[], .ok a⟩
  bind := bind

def mapError (f : ε → δ) (x : Traced ε α) : Traced δ α :=
  ⟨x.events, x.outcome.mapError f⟩

@[simp] theorem outcome_pure (a : α) : (pure a : Traced ε α).outcome = .ok a := rfl

theorem bind_of_ok {x : Traced ε α} (h : x.outcome = .ok a) (f : α → Traced ε β) :
    x >>= f = ⟨x.events ++ (f a).events, (f a).outcome⟩ := by
  simp only [Bind.bind, bind, h]

theorem bind_of_error {x : Traced ε α} (h : x.outcome = .error e) (f : α → Traced ε β) :
    x >>= f = ⟨x.events, .error e⟩ := by
  simp only [Bind.bind, bind, h]

instance : LawfulMonad (Traced ε) := LawfulMonad.mk' (Traced ε)
  (fun x => by rcases x with ⟨events, _ | _⟩ <;> simp [Functor.map, bind])
  (fun a f => by simp [Bind.bind, bind, pure])
  (fun x f g => by
    rcases x with ⟨events, e | a⟩
    · rfl
    · simp only [Bind.bind, bind]
      cases (f a).outcome <;> simp)

end Traced

end Netlist
