import Netlist.Proofs.Positional
import Netlist.Proofs.Outcome
import Mathlib.Data.Option.Basic

/-!
# Offsets in lines

Each offset at which the positional reader divides a text is the length of what stands before it, so
it falls between two characters. Lines and tokens are then those of the plain reader.
-/

namespace Netlist.Blif.Positional

theorem bytes_cons (c : Char) (cs : List Char) : bytes (c :: cs) = c.utf8Size + bytes cs := rfl

theorem bytes_append (as bs : List Char) : bytes (as ++ bs) = bytes as + bytes bs := by
  induction as with
  | nil => exact (Nat.zero_add _).symm
  | cons a as ih => rw [List.cons_append, bytes_cons, bytes_cons, ih, Nat.add_assoc]

/-- What the recursion over an offset finds at a character that lies before it. -/
theorem bytes_cons_succ (c : Char) (cs : List Char) :
    ∃ n, bytes (c :: cs) = n + 1 ∧ c.utf8Size ≤ n + 1 ∧ n + 1 - c.utf8Size = bytes cs := by
  have positive := Char.utf8Size_pos c
  refine ⟨c.utf8Size + bytes cs - 1, ?_, ?_, ?_⟩
  · rw [bytes_cons]
    omega
  · omega
  · omega

/-- Dividing a text at the length of a first part gives that part. -/
theorem upTo_bytes (before after : List Char) :
    upTo (bytes before) (before ++ after) = pure before := by
  induction before with
  | nil => cases after <;> rfl
  | cons c cs ih =>
    obtain ⟨n, whole, enough, rest⟩ := bytes_cons_succ c cs
    rw [whole, List.cons_append, upTo, if_pos enough, rest, ih, pure_bind]

theorem since_bytes (before after : List Char) :
    since (bytes before) (before ++ after) = pure after := by
  induction before with
  | nil => cases after <;> rfl
  | cons c cs ih =>
    obtain ⟨n, whole, enough, rest⟩ := bytes_cons_succ c cs
    rw [whole, List.cons_append, since, if_pos enough, rest, ih]

/-- The offset, counted on from `start`, is the one at which `line` has `kept` before it. -/
def Divides (start : Nat) (line kept : List Char) : Option Nat → Prop
  | none => kept = line
  | some offset => offset = start + bytes kept ∧ ∃ comment, line = kept ++ comment

theorem Divides.cons {start : Nat} {line kept : List Char} {offset : Option Nat} (c : Char)
    (divides : Divides (start + c.utf8Size) line kept offset) :
    Divides start (c :: line) (c :: kept) offset := by
  cases offset with
  | none => exact congrArg _ divides
  | some offset =>
    obtain ⟨position, comment, whole⟩ := divides
    refine ⟨?_, comment, congrArg _ whole⟩
    rw [position, bytes_cons, Nat.add_assoc]

/-- A comment starts behind what is left of its line without it. -/
theorem commentAt?_divides (quoted : Bool) (start : Nat) (line : List Char) :
    Divides start line (stripComment quoted line) (commentAt? quoted start line) := by
  induction line generalizing quoted start with
  | nil => rfl
  | cons c cs ih =>
    unfold commentAt? stripComment
    by_cases quote : c = '"'
    · rw [if_pos quote, if_pos quote]
      exact (ih (!quoted) (start + c.utf8Size)).cons c
    · rw [if_neg quote, if_neg quote]
      by_cases starts : c = '#' ∧ ¬quoted
      · rw [if_pos starts, if_pos starts]
        exact ⟨rfl, c :: cs, rfl⟩
      · rw [if_neg starts, if_neg starts]
        exact (ih quoted (start + c.utf8Size)).cons c

theorem code_eq (physical : List Char) : code physical = pure (stripComment false physical) := by
  have divides := commentAt?_divides false 0 physical
  unfold code
  generalize commentAt? false 0 physical = found at divides
  cases found with
  | none =>
    have whole : stripComment false physical = physical := divides
    rw [whole]
  | some offset =>
    obtain ⟨position, comment, whole⟩ := divides
    have divided := upTo_bytes (stripComment false physical) comment
    rw [← whole] at divided
    rw [position, Nat.zero_add]
    exact divided

theorem logicalLines_eq (text : String) : logicalLines text = pure (LogicalLine.ofText text) := by
  have each : ∀ lines : List (List Char),
      lines.mapM code = pure (lines.map (stripComment false)) := by
    intro lines
    induction lines with
    | nil => rfl
    | cons line lines ih => rw [List.mapM_cons, code_eq, pure_bind, ih, pure_bind, List.map_cons]
  rw [logicalLines, each, pure_bind, LogicalLine.ofText, pieces, List.map_map]
  rfl

inductive Token.Denotes : Token → List Char → Prop where
  | word (text : List Char) : Denotes ⟨.word, text⟩ text
  | string (text : List Char) : Denotes ⟨.string, '"' :: text ++ ['"']⟩ text

/-- Tokens found are those of the arguments found, and neither side finds any without the other. -/
def Agree : Option (List Token) → Option (List (List Char)) → Prop :=
  Option.Rel (List.Forall₂ Token.Denotes)

theorem Agree.cons {found : Option (List Token)} {args : Option (List (List Char))} {token : Token}
    {text : List Char} (agree : Agree found args) (denotes : token.Denotes text) :
    Agree (found.map (token :: ·)) (args.map (text :: ·)) := by
  cases agree with
  | none => exact .none
  | some all => exact .some (.cons denotes all)

theorem tokens_agree (place : Place) (cs : List Char) : Agree (tokens place cs) (arguments place cs) := by
  induction cs generalizing place with
  | nil =>
    cases place with
    | between => exact .some .nil
    | inWord read => exact .some (.cons (.word _) .nil)
    | inString read => exact .none
  | cons c cs ih =>
    cases place with
    | between =>
      unfold tokens arguments
      split
      · exact ih _
      · split
        · exact ih _
        · exact ih _
    | inWord read =>
      unfold tokens arguments
      split
      · exact (ih _).cons (.word _)
      · split
        · exact (ih _).cons (.word _)
        · exact ih _
    | inString read =>
      unfold tokens arguments
      split
      · exact (ih _).cons (.string _)
      · exact ih _

/-- A token is taken as the argument that it stands for. -/
theorem takeToken_denotes {token : Token} {text : List Char} (denotes : token.Denotes text)
    (line : Line) :
    takeToken line token = pure { line with args := line.args ++ [String.ofList text] } := by
  cases denotes with
  | word => rfl
  | string =>
    have quote : bytes ['"'] = 1 := by decide
    have before : bytes ('"' :: text ++ ['"']) - 1 = bytes ('"' :: text) := by
      rw [bytes_append, quote, Nat.add_sub_cancel]
    have closed := upTo_bytes ('"' :: text) ['"']
    have opened := since_bytes ['"'] text
    rw [quote] at opened
    simp only [takeToken]
    rw [before, closed, pure_bind]
    have inner : since 1 ('"' :: text) = pure text := opened
    rw [inner, pure_bind]

theorem takeTokens_eq {found : List Token} {args : List (List Char)}
    (denote : List.Forall₂ Token.Denotes found args) (line : Line) :
    found.foldlM takeToken line =
      pure { line with args := line.args ++ args.map String.ofList } := by
  induction denote generalizing line with
  | nil => simp
  | cons denotes _ ih =>
    rw [List.foldlM_cons, takeToken_denotes denotes, pure_bind, ih]
    simp

/-- The first token of a line is its directive, if it has one. -/
theorem takeDirective_eq (keyword : Option (List Char)) (line : Line) (none : line.directive = none) :
    (keyword.toList.map fun keyword => (⟨.directive, '.' :: keyword⟩ : Token)).foldlM takeToken line =
      pure { line with directive := keyword.map fun k => .ofKeyword (String.ofList k) } := by
  cases keyword with
  | none =>
    rw [Option.map_none, ← none]
    rfl
  | some keyword =>
    have dot : bytes ['.'] = 1 := by decide
    have opened := since_bytes ['.'] keyword
    rw [dot] at opened
    have after : since 1 ('.' :: keyword) = pure keyword := opened
    simp [takeToken, after]

/-- Tokenizing by offsets refuses the same lines and reads the others alike. -/
theorem tokenize_eq (stage : Stage) (line : LogicalLine) :
    tokenize stage line = ofRead stage (Line.ofLogical line) := by
  unfold tokenize grammar Line.ofLogical
  generalize splitKeyword (line.text.dropWhile isSeparator) = divided
  obtain ⟨keyword, rest⟩ := divided
  have agree := tokens_agree .between rest
  cases found : tokens .between rest with
  | none =>
    rw [found] at agree
    cases refused : arguments .between rest with
    | none => simp [refused, found]
    | some args =>
      rw [refused] at agree
      cases agree
  | some inner =>
    rw [found] at agree
    cases read : arguments .between rest with
    | none =>
      rw [read] at agree
      cases agree
    | some args =>
      rw [read] at agree
      cases agree with
      | some denote =>
        simp only [found, read, Option.pure_def, Option.bind_eq_bind, Option.bind_some,
          List.head?_cons, List.foldlM_append]
        rw [takeDirective_eq _ _ rfl, pure_bind, takeTokens_eq denote, pure_bind]
        rfl

theorem lines_eq (stage : Stage) (text : String) :
    (logicalLines text >>= fun lines => lines.mapM (tokenize stage)) =
      ofRead stage (Line.ofText text) := by
  have each : tokenize stage = fun line => ofRead stage (Line.ofLogical line) :=
    funext (tokenize_eq stage)
  rw [logicalLines_eq, pure_bind, Line.ofText, ofRead_mapM, each]

end Netlist.Blif.Positional
