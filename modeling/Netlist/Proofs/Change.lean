import Netlist.Violation

/-!
# How changes end

`Yields x s a t` says that the change `x`, started in `s`, answers `a` and leaves `t`, and `Stops x s e t`
that it stops at `e` and leaves `t`. The rules follow the ways in which changes are put together.
-/

namespace Netlist

variable {ε σ α β : Type}

/-- From `s` the change goes through to the end, with answer `a` and new state `t`. -/
def Yields (x : ExceptT ε (StateM σ) α) (s : σ) (a : α) (t : σ) : Prop := x.run.run s = (.ok a, t)

theorem yields_pure (a : α) (s : σ) : Yields (pure a : ExceptT ε (StateM σ) α) s a s := rfl

theorem yields_get (s : σ) : Yields (get : ExceptT ε (StateM σ) σ) s s s := rfl

theorem yields_modify (f : σ → σ) (s : σ) :
    Yields (modify f : ExceptT ε (StateM σ) Unit) s () (f s) := rfl

theorem yields_set (s t : σ) : Yields (set t : ExceptT ε (StateM σ) Unit) s () t := rfl

theorem yields_ofExcept {x : Except ε α} {a : α} (s : σ) (ok : x = .ok a) :
    Yields (MonadExcept.ofExcept x : ExceptT ε (StateM σ) α) s a s := by
  subst ok
  rfl

theorem yields_modifyGet (f : σ → α × σ) (s : σ) :
    Yields (modifyGet f : ExceptT ε (StateM σ) α) s (f s).1 (f s).2 := rfl

theorem Yields.andThen {x : ExceptT ε (StateM σ) α} {f : α → ExceptT ε (StateM σ) β} {s t u : σ}
    {a : α} {b : β} (first : Yields x s a t) (rest : Yields (f a) t b u) : Yields (x >>= f) s b u := by
  unfold Yields at *
  rw [ExceptT.run_bind, StateT.run_bind, first]
  exact rest

/-- From `s` the change gets as far as the error `e`, and leaves the state `t`. -/
def Stops (x : ExceptT ε (StateM σ) α) (s : σ) (e : ε) (t : σ) : Prop := x.run.run s = (.error e, t)

theorem stops_throw (e : ε) (s : σ) : Stops (throw e : ExceptT ε (StateM σ) α) s e s := rfl

theorem stops_ofExcept {x : Except ε α} {e : ε} (s : σ) (error : x = .error e) :
    Stops (MonadExcept.ofExcept x : ExceptT ε (StateM σ) α) s e s := by
  subst error
  rfl

theorem Stops.early {x : ExceptT ε (StateM σ) α} {s t : σ} {e : ε} (stops : Stops x s e t)
    (f : α → ExceptT ε (StateM σ) β) : Stops (x >>= f) s e t := by
  unfold Stops at *
  rw [ExceptT.run_bind, StateT.run_bind, stops]
  rfl

theorem Yields.thenStops {x : ExceptT ε (StateM σ) α} {f : α → ExceptT ε (StateM σ) β} {s t u : σ}
    {a : α} {e : ε} (first : Yields x s a t) (rest : Stops (f a) t e u) : Stops (x >>= f) s e u := by
  unfold Yields Stops at *
  rw [ExceptT.run_bind, StateT.run_bind, first]
  exact rest

/-- A change for each element, when each moves the state on by `step` and keeps `good`. -/
theorem yields_forM {f : α → ExceptT ε (StateM σ) Unit} {step : σ → α → σ} {good : σ → Prop}
    (each : ∀ s a, good s → Yields (f a) s () (step s a) ∧ good (step s a)) (l : List α) {s : σ}
    (start : good s) : Yields (l.forM f) s () (l.foldl step s) ∧ good (l.foldl step s) := by
  induction l generalizing s with
  | nil => exact ⟨rfl, start⟩
  | cons a l ih =>
    obtain ⟨first, kept⟩ := each s a start
    obtain ⟨rest, done⟩ := ih kept
    exact ⟨first.andThen rest, done⟩

end Netlist
