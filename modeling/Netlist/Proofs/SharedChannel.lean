import Netlist.Fault
import Netlist.Proofs.Faults

/-!
# Runs on the shared channel

All of a process shares one channel. A message that is emitted there, and each fault of a load, goes to
the handlers of a snapshot that is taken before, one call after the other, and a handler may reset the
channel and install others on it while it is being called. Here the calls are made one by one, from the
state that the calls before them left. What a step delivers depends on the snapshot alone, and what it
leaves behind depends on what the called handlers did.
-/

namespace Netlist.Fault

open Blif (load Contents rootWarnings load_messages severalRoots cycleBelowFirstTop)

variable {η : Type}

inductive Reaction (η : Type) where
  | reset
  | install (handler : η)
  deriving DecidableEq, Repr

def Reaction.apply (c : Channel η) : Reaction η → Channel η
  | reset => c.reset
  | install handler => c.install handler

namespace Reaction

/-- A handler that joins others is appended. -/
theorem handlers_installed {c : Channel η} (joins : c.hasOnlyBuiltin = false) (hs : List η) :
    ((hs.map install).foldl apply c).handlers = c.handlers ++ hs.map .custom := by
  induction hs generalizing c with
  | nil => simp
  | cons h hs ih =>
    have first : apply c (.install h) = ⟨c.handlers ++ [.custom h]⟩ := by
      simp [apply, Channel.install, joins]
    have more : (⟨c.handlers ++ [.custom h]⟩ : Channel η).hasOnlyBuiltin = false := by
      unfold Channel.hasOnlyBuiltin
      split
      next alone => simpa using congrArg List.getLast? alone
      next => rfl
    rw [List.map_cons, List.foldl_cons, first, ih more]
    simp

/-- A reset undoes what was changed before it. The handlers installed since are there, or else the
built-in one. -/
theorem handlers_after_reset (c : Channel η) (before : List (Reaction η)) (hs : List η) :
    ((before ++ reset :: hs.map install).foldl apply c).handlers =
      if hs.isEmpty then [.builtin] else hs.map .custom := by
  rw [List.foldl_append, List.foldl_cons]
  cases hs with
  | nil => rfl
  | cons h hs =>
    have first : apply (apply (before.foldl apply c) reset) (.install h) = ⟨[.custom h]⟩ := rfl
    rw [List.map_cons, List.foldl_cons, first, handlers_installed rfl]
    simp

end Reaction

/-- What the custom handlers do to the shared channel when they are called with a message. It may depend on
the calls before, which are never the same for two calls of a run. -/
abbrev Behavior (η : Type) := List (Delivery η) → η → String → List (Reaction η)

namespace Behavior

def reactions (b : Behavior η) (past : List (Delivery η)) (call : Delivery η) : List (Reaction η) :=
  match call.handler with
  | .builtin => []
  | .custom handler => b past handler call.message

def changes (b : Behavior η) : List (Delivery η) → List (Delivery η) → List (Reaction η)
  | _, [] => []
  | past, call :: calls => b.reactions past call ++ b.changes (past ++ [call]) calls

def steady (ops : η → List (Reaction η)) : Behavior η := fun _ handler _ => ops handler

end Behavior

/-- A step of the process: a change that no handler makes, an emission or a load. -/
inductive Step (η : Type) where
  | change (r : Reaction η)
  | emit (message : String)
  | load (text : String) (file : Option String) (id : DesignId)

/-- The shared channel, and the calls of handlers so far. -/
structure Process (η : Type) where
  shared : Channel η := {}
  calls : List (Delivery η) := []

namespace Step

def messages : Step η → List String
  | change _ => []
  | emit message => [message]
  | load text file id => faults (Blif.load text file id).events

def own : Step η → List (Reaction η)
  | change r => [r]
  | _ => []

end Step

namespace Process

variable (b : Behavior η)

def call (p : Process η) (d : Delivery η) : Process η where
  shared := (b.reactions p.calls d).foldl Reaction.apply p.shared
  calls := p.calls ++ [d]

/-- Calls the handlers of a snapshot in turn. -/
def emit (snapshot : Channel η) (p : Process η) (message : String) : Process η :=
  snapshot.handlers.foldl (fun p handler => p.call b ⟨handler, message⟩) p

def hear (snapshot : Channel η) (p : Process η) (e : Event) : Process η :=
  match e.fault? with
  | none => p
  | some message => p.emit b snapshot message

def step (p : Process η) : Step η → Process η
  | .change r => { p with shared := r.apply p.shared }
  | .emit message => p.emit b p.shared message
  | .load text file id => (Blif.load text file id).events.foldl (hear b p.shared) p

def run (p : Process η) (steps : List (Step η)) : Process η := steps.foldl (step b) p

/-! ## One step -/

def after (p : Process η) (ds : List (Delivery η)) : Process η where
  shared := (b.changes p.calls ds).foldl Reaction.apply p.shared
  calls := p.calls ++ ds

variable {b : Behavior η} {p : Process η}

theorem after_nil : p.after b [] = p := by
  simp [after, Behavior.changes]

theorem after_cons (d : Delivery η) (ds : List (Delivery η)) :
    p.after b (d :: ds) = (p.call b d).after b ds := by
  simp [after, call, Behavior.changes]

theorem foldl_call (ds : List (Delivery η)) : ds.foldl (call b) p = p.after b ds := by
  induction ds generalizing p with
  | nil => exact after_nil.symm
  | cons d ds ih => rw [List.foldl_cons, ih, after_cons]

theorem after_append (ds ds' : List (Delivery η)) :
    p.after b (ds ++ ds') = (p.after b ds).after b ds' := by
  simp only [← foldl_call, List.foldl_append]

theorem emit_eq (snapshot : Channel η) (message : String) :
    p.emit b snapshot message = p.after b (snapshot.deliver [message]) := by
  rw [← foldl_call, Channel.deliver, List.flatMap_singleton, List.foldl_map]
  rfl

/-- The faults among the events are delivered one after the other. -/
theorem hear_eq (snapshot : Channel η) (events : List Event) :
    events.foldl (hear b snapshot) p = p.after b (snapshot.deliver (faults events)) := by
  induction events generalizing p with
  | nil => exact after_nil.symm
  | cons e events ih =>
    rw [List.foldl_cons, ih, hear]
    cases told : e.fault? with
    | none => simp [faults, told]
    | some message =>
      have first : faults (e :: events) = [message] ++ faults events := by simp [faults, told]
      simp only [first, Channel.deliver, List.flatMap_append, after_append]
      rw [emit_eq, Channel.deliver]

/-- A step makes the calls that the channel before it prescribes. The handlers change the channel after
the step itself did. -/
theorem step_eq (s : Step η) : p.step b s =
    ({ p with shared := s.own.foldl Reaction.apply p.shared } : Process η).after b
      (p.shared.deliver s.messages) := by
  cases s with
  | change r => exact after_nil.symm
  | emit message => exact emit_eq p.shared message
  | load text file id => exact hear_eq p.shared _

theorem step_calls (s : Step η) : (p.step b s).calls = p.calls ++ p.shared.deliver s.messages := by
  rw [step_eq]
  rfl

theorem step_shared (s : Step η) : (p.step b s).shared =
    (s.own ++ b.changes p.calls (p.shared.deliver s.messages)).foldl Reaction.apply p.shared := by
  rw [step_eq, List.foldl_append]
  rfl

/-! ## Handlers that always do the same -/

theorem reactions_steady (ops : η → List (Reaction η)) (past calls : List (Delivery η))
    (c : Channel η) :
    Fault.reactions (fun handler shared => (ops handler).foldl Reaction.apply shared) calls c =
      ((Behavior.steady ops).changes past calls).foldl Reaction.apply c := by
  induction calls generalizing past c with
  | nil => rfl
  | cons call calls ih =>
    rw [Fault.reactions, List.foldl_cons, ← Fault.reactions, ih (past ++ [call])]
    rw [Behavior.changes, List.foldl_append]
    cases call with
    | mk handler message => cases handler <;> rfl

/-- Passing on all messages at once comes to the same as one call after the other. -/
theorem step_steady {ops : η → List (Reaction η)} (s : Step η) (told : s.own = []) :
    p.shared.emit (fun handler shared => (ops handler).foldl Reaction.apply shared) s.messages
      p.shared = (p.shared.deliver s.messages, (p.step (.steady ops) s).shared) := by
  rw [Channel.emit, reactions_steady ops p.calls, step_shared, told]
  rfl

/-! ## Runs -/

theorem run_nil : p.run b [] = p := rfl

/-- A run takes back no call. -/
theorem run_calls (steps : List (Step η)) : p.calls <+: (p.run b steps).calls := by
  induction steps generalizing p with
  | nil => exact List.prefix_rfl
  | cons s steps ih =>
    have first : p.calls <+: (p.step b s).calls := by
      rw [step_calls]
      exact List.prefix_append _ _
    exact first.trans ih

/-- Each call in a run goes to a handler that was there when the step began. -/
theorem run_calls_registered {d : Delivery η} (steps : List (Step η))
    (made : d ∈ (p.run b steps).calls) :
    d ∈ p.calls ∨ ∃ before s later, steps = before ++ s :: later ∧
      d.handler ∈ (p.run b before).shared.handlers ∧ d.message ∈ s.messages := by
  induction steps generalizing p with
  | nil => exact .inl made
  | cons s steps ih =>
    rcases ih (p := p.step b s) made with first | ⟨before, t, later, rfl, registered, told⟩
    · rw [step_calls] at first
      rcases List.mem_append.mp first with earlier | now
      · exact .inl earlier
      · simp only [Channel.deliver, List.mem_flatMap, List.mem_map] at now
        obtain ⟨message, told, handler, registered, rfl⟩ := now
        exact .inr ⟨[], s, steps, rfl, registered, told⟩
    · exact .inr ⟨s :: before, t, later, rfl, registered, told⟩

/-- In every run, whatever the called handlers do to the shared channel, a step passes each of its
messages to the handlers that were there before the step, in their order, so that a load that warns and
then fails tells both to the same handlers. It leaves the channel with all that the called handlers did
to it, in the order of the calls. -/
theorem run_delivers (b : Behavior η) (start : Process η) (before later : List (Step η)) (s : Step η) :
    ∃ p q made, start.run b before = p ∧ p.step b s = q ∧
      start.run b (before ++ s :: later) = q.run b later ∧
      made = s.messages.flatMap (fun message => p.shared.handlers.map (⟨·, message⟩)) ∧
      q.calls = p.calls ++ made ∧ q.calls <+: (start.run b (before ++ s :: later)).calls ∧
      q.shared = (s.own ++ b.changes p.calls made).foldl Reaction.apply p.shared ∧
      (∀ ops, b = .steady ops → s.own = [] →
        p.shared.emit (fun handler shared => (ops handler).foldl Reaction.apply shared) s.messages
          p.shared = (made, q.shared)) ∧
      ∀ text file id cycle, s = .load text file id →
        (load text file id).outcome = .error (.cyclic cycle) →
        ∃ contents, (Contents.ofText text).outcome = .ok contents ∧
          s.messages = rootWarnings (contents.design id (file.getD "")).settled ++ [cycle.message] := by
  have whole : start.run b (before ++ s :: later) = ((start.run b before).step b s).run b later :=
    List.foldl_append
  refine ⟨_, _, _, rfl, rfl, whole, rfl, step_calls s, ?_, step_shared s, ?_, ?_⟩
  · rw [whole]
    exact run_calls later
  · rintro ops rfl told
    exact step_steady s told
  · rintro text file id cycle rfl failed
    rcases load_messages text file id with
      ⟨e, failed', other, -⟩ | ⟨contents, read, ⟨cycle', failed', told⟩ | ⟨n, loaded, -⟩⟩
    · exact absurd (Except.error.inj (failed'.symm.trans failed)) (other cycle)
    · cases failed.symm.trans failed'
      exact ⟨contents, read, told⟩
    · cases failed.symm.trans loaded

/-- The first handler resets the channel in each call, and every handler installs one that was never
there. -/
def renewing : Behavior Nat := fun past handler _ =>
  if handler = 1 then [.reset, .install past.length] else [.install past.length]

def twoHandlers : Process Nat := { shared := ⟨[.custom 1, .custom 2]⟩ }

theorem run_delivers_renewing :
    (twoHandlers.run renewing [.load cycleBelowFirstTop none ⟨0⟩]).calls =
      [⟨.custom 1, severalRoots 2 "top"⟩, ⟨.custom 2, severalRoots 2 "top"⟩,
        ⟨.custom 1, Cycle.message ⟨"top", "a"⟩⟩, ⟨.custom 2, Cycle.message ⟨"top", "a"⟩⟩] ∧
    (twoHandlers.run renewing [.load cycleBelowFirstTop none ⟨0⟩]).shared = ⟨[.custom 2, .custom 3]⟩ := by
  have told : (Step.load cycleBelowFirstTop none ⟨0⟩ : Step Nat).messages =
      [severalRoots 2 "top", Cycle.message ⟨"top", "a"⟩] := by
    decide +kernel
  obtain ⟨p, q, made, first, -, whole, delivered, calls, -, shared, -⟩ :=
    run_delivers renewing twoHandlers [] [] (.load cycleBelowFirstTop none ⟨0⟩)
  rw [run_nil] at first whole
  subst first
  rw [told] at delivered
  subst delivered
  rw [List.nil_append] at whole
  rw [whole]
  exact ⟨calls, shared⟩

end Process

end Netlist.Fault
