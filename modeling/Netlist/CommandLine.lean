import Netlist.Blif.Load
import Netlist.Fault

/-!
# The command line

The program is given one file. While the file is loaded, every fault is printed by the handlers of a
channel, and a summary of the root network follows. The program declares its options, and leaves to the
platform how arguments are read by them, how a file is read, and what a tracing subscriber writes about
the events of a load.
-/

namespace Netlist

namespace Network

def hierarchySummary : Option (Design Network) → List String
  | none => []
  | some rest =>
    s!"  submodules: {rest.modules.length}" :: rest.modules.map fun m => s!"    {m.name}"

def summary (n : Network) : List String :=
  [s!"network {Text.inQuotes n.name} ({n.type.name}, {n.function.name})"] ++
    (n.spec.map fun file => s!"  read from: {file}").toList ++
    (Kind.all.map fun kind => s!"  {kind}: {n.graph.tally.of kind}") ++
    (n.exdc.map fun e => s!"  exdc: {Text.inQuotes e.name} with {e.graph.live} objects").toList ++
    hierarchySummary n.hierarchy ++
    n.properties.map fun property => s!"  ltl: {property}"

end Network

namespace CommandLine

structure Flag where
  names : List String
  help : String
  deriving DecidableEq, Repr

/-- What a program declares of its arguments: its flags, and one argument that it requires. -/
structure Usage where
  description : String
  flags : List Flag
  argument : String
  argumentHelp : String
  deriving DecidableEq, Repr

/-- What the arguments of a run say by the usage declared. -/
structure Given where
  flags : List Flag
  argument : String
  deriving DecidableEq, Repr

/-- Texts for standard output and standard error. -/
structure Written where
  output : String := ""
  notes : String := ""
  deriving DecidableEq, Repr

instance : Append Written := ⟨fun a b => ⟨a.output ++ b.output, a.notes ++ b.notes⟩⟩

structure Reply extends Written where
  code : Nat
  deriving DecidableEq, Repr

/-- What the program is not in charge of. -/
structure Platform (m : Type → Type) where
  /-- Reads the arguments by the usage, or ends the run. -/
  readArguments : Usage → List String → Except Reply Given
  /-- The text of a file, or why there is none. -/
  readFile : String → m (Except String String)
  /-- What the tracing subscriber writes about an event that follows others. There is none to be had if
  the process has one already. -/
  subscriber : Option (List Event → Event → Written)

def verbose : Flag := ⟨["-v", "--verbose"], "Log import stages"⟩

def defaultHandler : Flag := ⟨["--default-handler"], "Report faults with the built-in handler"⟩

def usage : Usage where
  description := "Import a hierarchical BLIF netlist and summarize its root network."
  flags := [verbose, defaultHandler]
  argument := "INPUT"
  argumentHelp := "BLIF file to read"

/-- What the handler prints that the program installs. -/
def banner (message : String) : String := "ABC MINI ERROR:\n" ++ message ++ "\n"

/-- The channel that faults go to; a handler is what it prints. -/
def Given.channel (g : Given) : Fault.Channel (String → String) :=
  if defaultHandler ∈ g.flags then {} else ({} : Fault.Channel (String → String)).install banner

namespace Platform

variable {m : Type → Type} (p : Platform m) (g : Given)

def started : Written :=
  if verbose ∈ g.flags ∧ p.subscriber.isNone then
    { notes := "abc-mini: a tracing subscriber is already installed\n" }
  else {}

/-- What the subscriber writes about an event that follows others. -/
def logged (past : List Event) (e : Event) : Written :=
  if verbose ∈ g.flags then
    match p.subscriber with
    | some write => write past e
    | none => {}
  else {}

/-- What is written about events that follow others. The subscriber hears of each before the handlers do,
which hear of the faults only. -/
def narrated (past : List Event) : List Event → Written
  | [] => {}
  | e :: events =>
    p.logged g past e ++ { output := Fault.printed id (g.channel.deliver e.fault?.toList) } ++
      narrated (past ++ [e]) events

def reply (text : String) : Reply :=
  let loaded := Blif.load text (some g.argument) ⟨0⟩
  let written := p.started g ++ p.narrated g [] loaded.events
  match loaded.outcome with
  | .ok n => ⟨written ++ { output := String.join (n.summary.map (· ++ "\n")) }, 0⟩
  | .error _ => ⟨written, 1⟩

end Platform

def run {m : Type → Type} [Monad m] (p : Platform m) (args : List String) : m Reply := do
  match p.readArguments usage args with
  | .error reply => return reply
  | .ok g =>
    match ← p.readFile g.argument with
    | .error reason =>
      return ⟨p.started g ++ { notes := s!"abc-mini: cannot read {g.argument}: {reason}\n" }, 1⟩
    | .ok text => return p.reply g text

end CommandLine

end Netlist
