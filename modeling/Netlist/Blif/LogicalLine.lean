import Netlist.Text.Words

/-!
# Logical lines

A physical line loses its comment, which starts at a `#` outside double quotes, and the blanks around
what is left. A backslash at its end is taken off and joins the next physical line to it. What
physical lines so joined have to say, less the empty ones, makes a logical line, with single spaces
between. Logical lines without text are dropped, and the others bear the number of their first
physical line.
-/

namespace Netlist.Blif

structure LogicalLine where
  number : Nat
  text : List Char
  deriving DecidableEq, Repr

/-- The line up to its comment. Quotes are counted from the start of the physical line, and
`quoted` tells whether the part before `cs` leaves one open. -/
def stripComment (quoted : Bool) : List Char → List Char
  | [] => []
  | c :: cs =>
    if c = '"' then c :: stripComment (!quoted) cs
    else if c = '#' ∧ ¬quoted then []
    else c :: stripComment quoted cs

/-- A physical line without comment, surrounding blanks and continuation mark. -/
structure Piece where
  text : List Char
  continued : Bool
  deriving DecidableEq, Repr

def Piece.ofPhysical (line : List Char) : Piece :=
  let code := Text.trimEnd (stripComment false line)
  if code.getLast? = some '\\' then ⟨Text.trim code.dropLast, true⟩ else ⟨Text.trim code, false⟩

def pieces (text : List Char) : List Piece :=
  (Text.cut (· = '\n') text).map Piece.ofPhysical

namespace LogicalLine

def extend (line : LogicalLine) (text : List Char) : LogicalLine :=
  if text.isEmpty then line
  else if line.text.isEmpty then { line with text }
  else { line with text := line.text ++ ' ' :: text }

/-- The line, unless it has no text. -/
def close (line : LogicalLine) : List LogicalLine := if line.text.isEmpty then [] else [line]

/-- Joins the pieces from physical line `number` on to the logical line that is open before them. -/
def join (number : Nat) (pending : Option LogicalLine) : List Piece → List LogicalLine
  | [] => (pending.map close).getD []
  | piece :: rest =>
    let line := (pending.getD ⟨number, []⟩).extend piece.text
    if piece.continued then join (number + 1) (some line) rest
    else line.close ++ join (number + 1) none rest

def ofText (text : String) : List LogicalLine := join 1 none (pieces text.toList)

end LogicalLine

end Netlist.Blif
