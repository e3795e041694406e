import Netlist.CommandLine

/-!
# The program

A platform for the command line. Flags and the required argument may come in any order; short flags may
be joined, a single dash is no flag, and after `--` no argument is one. The first argument that does not
fit the usage ends the run, as does the request for help. The subscriber writes each event on a line.
-/

namespace Netlist.Program

open CommandLine (Flag Usage Given Reply Platform run)

inductive Refusal where
  | help
  | unknownOption (name : String)
  | missing (argument : String)
  | unexpected (argument : String)
  deriving DecidableEq, Repr

structure Reading where
  flags : List Flag := []
  arguments : List String := []
  deriving DecidableEq, Repr

namespace Reading

variable (u : Usage) (r : Reading)

def addOption (name : String) : Except Refusal Reading :=
  if name ∈ ["-h", "--help"] then .error .help
  else match u.flags.find? (name ∈ ·.names) with
    | some flag => .ok { r with flags := r.flags ++ [flag] }
    | none => .error (.unknownOption name)

def addArgument (arg : String) : Except Refusal Reading :=
  match arg.toList with
  | '-' :: '-' :: _ => r.addOption u arg
  | '-' :: c :: cs => (c :: cs).foldlM (fun r c => r.addOption u (String.ofList ['-', c])) r
  | _ => .ok { r with arguments := r.arguments ++ [arg] }

end Reading

def read (u : Usage) (args : List String) : Except Refusal Given := do
  let r ← (args.takeWhile (· ≠ "--")).foldlM (Reading.addArgument u) {}
  match r.arguments ++ (args.dropWhile (· ≠ "--")).drop 1 with
  | [] => throw (.missing u.argument)
  | [argument] => return { flags := r.flags, argument }
  | _ :: extra :: _ => throw (.unexpected extra)

def synopsis (u : Usage) : String := s!"Usage:\n    abc-mini [OPTIONS] {u.argument}\n"

def helpLine (name explanation : String) : String :=
  "  " ++ name ++ "".pushn ' ' (22 - name.length) ++ explanation ++ "\n"

def help (u : Usage) : String :=
  synopsis u ++ s!"\n{u.description}\n" ++
    "\nPositional arguments:\n" ++ helpLine u.argument u.argumentHelp ++
    "\nOptional arguments:\n" ++ helpLine "-h,--help" "Show this help message and exit" ++
    String.join (u.flags.map fun flag => helpLine (",".intercalate flag.names) flag.help)

def Refusal.reply (u : Usage) : Refusal → Reply
  | help => ⟨{ output := Program.help u }, 0⟩
  | unknownOption name => misuse s!"unknown option {name}"
  | missing argument => misuse s!"argument {argument} is required"
  | unexpected argument => misuse s!"unexpected argument {argument}"
where
  misuse (message : String) : Reply := ⟨{ notes := synopsis u ++ s!"abc-mini: {message}\n" }, 2⟩

def platform {m : Type → Type} (readFile : String → m (Except String String)) : Platform m where
  readArguments u args := (read u args).mapError (Refusal.reply u)
  readFile := readFile
  subscriber := some fun _ e => { notes := e.line ++ "\n" }

def readText (file : String) : IO (Except String String) := do
  try
    match String.fromUTF8? (← IO.FS.readBinFile file) with
    | some text => return .ok text
    | none => return .error "stream did not contain valid UTF-8"
  catch e => return .error (toString e)

def main (args : List String) : IO UInt32 := do
  let reply ← run (platform readText) args
  IO.print reply.output
  IO.eprint reply.notes
  return reply.code.toUInt32

end Netlist.Program
