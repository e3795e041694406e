/-!
# Faults

A channel passes every fault to each of its handlers, in the order in which they were installed. A
fresh channel has the built-in handler alone, and the first handler installed takes its place. One
channel is shared by the whole process, and a handler may change it while it is being called. Such a
change concerns later faults only: a fault goes to the handlers that were there when it arose.

A recorder is a handler that keeps the messages it receives, each under its tag. When it is called it
may also reset the shared channel, install another recorder there, or do both in this order.

A location in a source is written as file, function and line with colons between them. A part that
holds a space, a tab or a line break stands between double quotes.
-/

namespace Netlist.Fault

inductive Handler (η : Type) where
  | builtin
  | custom (handler : η)
  deriving DecidableEq, Repr

structure Channel (η : Type) where
  handlers : List (Handler η) := [.builtin]
  deriving DecidableEq, Repr

structure Delivery (η : Type) where
  handler : Handler η
  message : String
  deriving DecidableEq, Repr

def builtinOutput (message : String) : String := "abc-mini error: " ++ message ++ "\n"

namespace Channel

variable {η : Type}

def hasOnlyBuiltin (c : Channel η) : Bool :=
  match c.handlers with
  | [.builtin] => true
  | _ => false

def install (c : Channel η) (handler : η) : Channel η where
  handlers := if c.hasOnlyBuiltin then [.custom handler] else c.handlers ++ [.custom handler]

def reset (_ : Channel η) : Channel η := {}

/-- The calls that the faults cause. -/
def deliver (c : Channel η) (messages : List String) : List (Delivery η) :=
  messages.flatMap fun message => c.handlers.map fun handler => ⟨handler, message⟩

end Channel

/-- The shared channel after the given calls, when a custom handler changes it by `react`. -/
def reactions (react : η → Channel η → Channel η) (calls : List (Delivery η))
    (shared : Channel η) : Channel η :=
  calls.foldl (fun shared call =>
    match call.handler with
    | .builtin => shared
    | .custom handler => react handler shared) shared

/-- Passes messages to the handlers of a channel, which may be the shared one. Answers with the calls
and with the shared channel after them. -/
def Channel.emit (react : η → Channel η → Channel η) (c : Channel η) (messages : List String)
    (shared : Channel η) : List (Delivery η) × Channel η :=
  let calls := c.deliver messages
  (calls, reactions react calls shared)

def printed (print : η → String → String) (calls : List (Delivery η)) : String :=
  String.join (calls.map fun call =>
    match call.handler with
    | .builtin => builtinOutput call.message
    | .custom handler => print handler call.message)

/-! ## Recorders -/

structure Recorder where
  tag : String
  resets : Bool := false
  /-- The tag of the recorder that it installs. -/
  installs : Option String := none
  deriving DecidableEq, Repr

namespace Recorder

/-- The entry that a message leaves; an empty tag is left out. -/
def entry (r : Recorder) (message : String) : String :=
  if r.tag.isEmpty then message else r.tag ++ ":" ++ message

def react (r : Recorder) (shared : Channel Recorder) : Channel Recorder :=
  let shared := if r.resets then shared.reset else shared
  match r.installs with
  | some tag => shared.install { tag }
  | none => shared

end Recorder

def recorded (calls : List (Delivery Recorder)) : List String :=
  calls.filterMap fun call =>
    match call.handler with
    | .builtin => none
    | .custom r => some (r.entry call.message)

/-! ## Locations -/

structure Location where
  file : String
  function : String
  line : Nat
  deriving DecidableEq, Repr

def Location.quoteIfSpaced (s : String) : String :=
  if s.toList.any (· ∈ [' ', '\t', '\r', '\n']) then "\"" ++ s ++ "\"" else s

instance : ToString Location :=
  ⟨fun l => s!"{Location.quoteIfSpaced l.file}:{Location.quoteIfSpaced l.function}:{l.line}"⟩

end Netlist.Fault
