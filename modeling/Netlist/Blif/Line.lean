import Netlist.Blif.LogicalLine
import Netlist.Blif.ReadError

/-!
# Lines of directives and rows

A line may start with a directive, a dot and its keyword; a line without one is a row of a table. The
rest are arguments: strings, which hold anything between two double quotes, and words, which end at a
space, a tab, a carriage return or a quote. A keyword ends at the first character that no keyword
holds, so that an argument may follow it at once.
-/

namespace Netlist.Blif

inductive Directive where
  | model
  | inputs
  | outputs
  | names
  | latch
  | reset
  | subckt
  | blackbox
  | exdc
  | property
  | endModel
  | other (keyword : String)
  deriving DecidableEq, Repr

def Directive.ofKeyword : String → Directive
  | "model" => model
  | "inputs" => inputs
  | "outputs" => outputs
  | "names" => names
  | "latch" => latch
  | "reset" => reset
  | "subckt" => subckt
  | "blackbox" => blackbox
  | "exdc" => exdc
  | "ltlformula" => property
  | "end" => endModel
  | keyword => other keyword

structure Line where
  number : Nat
  directive : Option Directive
  args : List String
  deriving DecidableEq, Repr

def isSeparator (c : Char) : Bool := c = ' ' || c = '\t' || c = '\r'

def isKeywordChar (c : Char) : Bool := c.isAlphanum || c = '_' || c = '-'

/-- The directive's keyword, if the text starts with a directive, and what follows it. -/
def splitKeyword (text : List Char) : Option (List Char) × List Char :=
  match text with
  | '.' :: rest =>
    let keyword := rest.takeWhile isKeywordChar
    if keyword.isEmpty then (none, text) else (some keyword, rest.dropWhile isKeywordChar)
  | _ => (none, text)

/-- Where in a line a character stands; an argument's characters so far are kept in reverse. -/
inductive Place where
  | between
  | inWord (read : List Char)
  | inString (read : List Char)

/-- The arguments from a place on, unless the last string is left open. -/
def arguments : Place → List Char → Option (List (List Char))
  | .between, [] => some []
  | .inWord read, [] => some [read.reverse]
  | .inString _, [] => none
  | .between, c :: cs =>
    if c = '"' then arguments (.inString []) cs
    else if isSeparator c then arguments .between cs
    else arguments (.inWord [c]) cs
  | .inWord read, c :: cs =>
    if c = '"' then (arguments (.inString []) cs).map (read.reverse :: ·)
    else if isSeparator c then (arguments .between cs).map (read.reverse :: ·)
    else arguments (.inWord (c :: read)) cs
  | .inString read, c :: cs =>
    if c = '"' then (arguments .between cs).map (read.reverse :: ·)
    else arguments (.inString (c :: read)) cs

def expectedAt (text : List Char) : Expected :=
  match text with
  | '"' :: rest => if '"' ∈ rest then .argument else .line
  | '.' :: '"' :: rest => if '"' ∈ rest then .argument else .keyword
  | _ => .argument

def Line.ofLogical (line : LogicalLine) : Except ReadError Line :=
  let (keyword, rest) := splitKeyword (line.text.dropWhile isSeparator)
  match arguments .between rest with
  | some args => .ok
    { number := line.number
      directive := keyword.map fun k => .ofKeyword (String.ofList k)
      args := args.map String.ofList }
  | none => .error (.inLine line.number (.malformed (expectedAt line.text)))

def Line.ofText (text : String) : Except ReadError (List Line) :=
  (LogicalLine.ofText text).mapM Line.ofLogical

end Netlist.Blif
