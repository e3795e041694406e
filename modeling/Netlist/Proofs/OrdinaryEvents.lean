import Netlist.Blif.Load
import Netlist.Proofs.Outcome

/-!
# What the parts of a load tell of

A traced computation tells of nothing else than what its parts tell of. Most parts of a load report no
fault and say nothing of the stages of reading, the choice of the root reports faults only, and the
stages are told of between the parts.
-/

namespace Netlist

namespace Event

def isStage : Event → Bool
  | advanced .. | failed _ => true
  | _ => false

def Ordinary (e : Event) : Prop := e.fault? = none ∧ e.isStage = false

end Event

namespace Traced

variable {ε δ α β : Type} {p q : Event → Prop}

def Tells (p : Event → Prop) (x : Traced ε α) : Prop := ∀ e ∈ x.events, p e

namespace Tells

theorem mono {x : Traced ε α} (tells : x.Tells p) (weaker : ∀ e, p e → q e) : x.Tells q :=
  fun e member => weaker e (tells e member)

theorem pure (a : α) : (Pure.pure a : Traced ε α).Tells p := by
  intro e member
  cases member

theorem ofExcept (x : Except ε α) : (Traced.ofExcept x).Tells p := by
  intro e member
  cases member

theorem emit {event : Event} (holds : p event) : (Traced.emit event : Traced ε Unit).Tells p := by
  intro e member
  obtain rfl := List.mem_singleton.mp member
  exact holds

theorem mapError {x : Traced ε α} (tells : x.Tells p) (f : ε → δ) : (x.mapError f).Tells p := tells

theorem bind {x : Traced ε α} {f : α → Traced ε β} (first : x.Tells p) (next : ∀ a, (f a).Tells p) :
    (x >>= f).Tells p := by
  intro e member
  cases ended : x.outcome with
  | ok a =>
    rw [bind_of_ok ended] at member
    rcases List.mem_append.mp member with early | late
    · exact first e early
    · exact next a e late
  | error _ =>
    rw [bind_of_error ended] at member
    exact first e member

theorem mapM {f : α → Traced ε β} (each : ∀ a, (f a).Tells p) (l : List α) : (l.mapM f).Tells p := by
  induction l with
  | nil => exact pure []
  | cons a l ih =>
    rw [List.mapM_cons]
    exact bind (each a) fun b => bind ih fun bs => pure (b :: bs)

theorem forM {f : α → Traced ε Unit} (each : ∀ a, (f a).Tells p) (l : List α) : (l.forM f).Tells p := by
  induction l with
  | nil => exact pure ()
  | cons a l ih => exact bind (each a) fun _ => ih

end Tells

end Traced

open Traced

theorem Circuit.check_ordinary (c : Circuit) : c.check.Tells Event.Ordinary := by
  intro e member
  obtain ⟨net, -, rfl⟩ := List.mem_map.mp member
  exact ⟨rfl, rfl⟩

namespace Blif

open Design

variable {d : Design Network}

theorem declaration_ordinary (models : List Model) (s : Section) :
    (s.declaration models).Tells Event.Ordinary := by
  have alone {α : Type} (x : Except ReadError Unit) (answer : α) :
      (Traced.ofExcept x >>= fun _ => pure answer).Tells Event.Ordinary :=
    .bind (.ofExcept x) fun _ => .pure answer
  unfold Section.declaration
  cases s.directive with
  | names => exact .bind (.ofExcept _) fun _ => .pure _
  | reset => exact .bind (.ofExcept _) fun _ => .pure _
  | latch => exact .bind (.ofExcept _) fun _ => alone _ _
  | subckt => exact .bind (.ofExcept _) fun _ => alone _ _
  | other keyword => exact .bind (.emit ⟨rfl, rfl⟩) fun _ => alone _ _
  | _ => exact alone _ _

theorem definition_ordinary (models : List Model) (m : Model) :
    (m.definition models).Tells Event.Ordinary := by
  refine .bind (.bind (.ofExcept _) fun _ => ?_) fun _ => .pure _
  exact .bind (.mapM (declaration_ordinary models) _) fun _ => .pure _

theorem circuit_ordinary (d : Definition) : d.circuit.Tells Event.Ordinary := by
  refine .bind (.ofExcept _) ?_
  rintro ⟨circuit, none | latch⟩
  · exact .pure circuit
  · exact .bind (.emit ⟨rfl, rfl⟩) fun _ => .pure circuit

theorem checkAll_ordinary (d : Design Network) : (checkAll d).Tells Event.Ordinary :=
  .bind (.mapError (.forM (fun m => m.check_ordinary) _) _) fun _ => .emit ⟨rfl, rfl⟩

theorem settleExdc_ordinary (d : Design Network) : (settleExdc d).Tells Event.Ordinary := by
  unfold settleExdc
  obtain ⟨owner, e⟩ := extractExdc.run.run d
  refine .bind (.ofExcept _) ?_
  rintro (none | i)
  · exact .pure e
  · exact .bind (.ofExcept _) fun _ => .bind (.emit ⟨rfl, rfl⟩) fun _ => .pure e

theorem takeRoot_ordinary (d : Design Network) (root : Nat) (file : Option String)
    (properties : List String) : (takeRoot d root file properties).Tells Event.Ordinary := by
  unfold takeRoot
  cases d.detach root with
  | none => exact .ofExcept _
  | some taken => exact .bind (.emit ⟨rfl, rfl⟩) fun _ => .pure _

theorem searchBelow_ordinary (answer : Except Violation (Except Cycle Unit)) (root : Nat) :
    (do match ← Load.ofViolation answer with
      | .ok () => return root
      | .error cycle => .fail (.cyclic cycle) : Load Nat).Tells Event.Ordinary := by
  refine .bind (.ofExcept _) ?_
  rintro (cycle | _)
  · exact .ofExcept _
  · exact .pure root

/-- The choice of the root says nothing of the stages. -/
theorem chooseRoot_stageless (d : Design Network) : (chooseRoot d).Tells (·.isStage = false) := by
  have search (root : Nat) := (searchBelow_ordinary (d.checkAcyclic root) root).mono fun _ => And.right
  rw [chooseRoot]
  split
  · exact .bind (.ofExcept _) fun _ => .bind (.emit rfl) fun _ => search _
  · exact search _

theorem link_stageless (d : Design Network) (file : Option String) (properties : List String) :
    (link d file properties).Tells (·.isStage = false) := by
  have weaken {α : Type} {x : Load α} (ordinary : x.Tells Event.Ordinary) : x.Tells (·.isStage = false) :=
    ordinary.mono fun _ => And.right
  exact .bind (weaken (checkAll_ordinary d)) fun _ => .bind (weaken (settleExdc_ordinary d)) fun _ =>
    .bind (chooseRoot_stageless _) fun _ => weaken (takeRoot_ordinary _ _ _ _)

end Blif

end Netlist
