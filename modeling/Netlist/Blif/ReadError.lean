import Netlist.Text.Quoted

/-!
# Reasons to refuse a text

Every reason but one belongs to a line of the text.
-/

namespace Netlist.Blif

open Netlist.Text (inQuotes)

/-- What a line could have continued with at its unterminated quote. -/
inductive Expected where
  | line
  | keyword
  | argument
  deriving DecidableEq, Repr

def Expected.description : Expected → String
  | line => "line"
  | keyword => "EOI, keyword, string, or word"
  | argument => "EOI, string, or word"

inductive Defect where
  | malformed (expected : Expected)
  | rowOutsideModel
  | directiveOutsideModel
  | notTerminated (model : String)
  | modelArguments
  | modelTwice (model : String)
  | rowOutsideTable
  | namesArguments
  | rowShape (output : String)
  | rowWidth (inputs : String) (output : String) (fanins : Nat)
  | rowLiteral (inputs : String) (literal : Char)
  | outputValue (value : String)
  | resetArguments
  | resetWithoutRow (latch : String)
  | resetSecondRow (latch : String)
  | resetValue (latch : String)
  | notALatch (name : String)
  | latchArguments
  | latchType (type : String)
  | latchInit (digit : String)
  | subcktArguments
  | modelUndefined (model : String)
  | bindingShape (binding : String)
  | notAPort (formal model : String)
  deriving DecidableEq, Repr

def Defect.message : Defect → String
  | malformed expected => s!"malformed line: expected {expected.description}"
  | rowOutsideModel => "table row outside of a model"
  | directiveOutsideModel => "directive outside of a model"
  | notTerminated model => s!"model {inQuotes model} is not terminated with .end"
  | modelArguments => ".model must be followed by exactly one model name"
  | modelTwice model => s!"model {inQuotes model} is defined twice"
  | rowOutsideTable => "table row outside of a .names or .reset table"
  | namesArguments => ".names must name at least the driven signal"
  | rowShape output => s!"malformed cover row for {inQuotes output}"
  | rowWidth inputs output fanins =>
    s!"cover row {inQuotes inputs} has {inputs.utf8ByteSize} literals, " ++
    s!"but {inQuotes output} has {fanins} fan-ins"
  | rowLiteral inputs literal => s!"cover row {inQuotes inputs} contains literal '{literal}'"
  | outputValue value => s!"output value {inQuotes value} is not 0 or 1"
  | resetArguments => ".reset must name exactly one latch output"
  | resetWithoutRow latch => s!"reset of {inQuotes latch} has no value row"
  | resetSecondRow latch => s!"reset of {inQuotes latch} has more than one row"
  | resetValue latch => s!"reset value of {inQuotes latch} must be 0 or 1"
  | notALatch name => s!"{inQuotes name} is not the output of a latch"
  | latchArguments => ".latch takes 2 to 5 arguments"
  | latchType type => s!"unknown latch type {inQuotes type}"
  | latchInit digit => s!"latch initial value {inQuotes digit} is not 0, 1, 2 or 3"
  | subcktArguments => ".subckt must name the instantiated model"
  | modelUndefined model => s!"model {inQuotes model} is not defined"
  | bindingShape binding => s!"binding {inQuotes binding} is not of the form formal=actual"
  | notAPort formal model => s!"{inQuotes formal} is not a port of model {inQuotes model}"

inductive ReadError where
  | noModels
  | inLine (number : Nat) (defect : Defect)
  deriving DecidableEq, Repr

def ReadError.message : ReadError → String
  | noModels => "the input contains no models"
  | inLine number defect => s!"line {number}: {defect.message}"

end Netlist.Blif
