import Netlist.Proofs.PositionalTokens
import Mathlib.Data.List.TakeWhile

/-!
# The grammar of lines

The grammar of lines is one of parsing expressions. An alternative is tried only if the one before it
failed, and a repetition takes what it can and gives nothing back. Separators are skipped between the
parts of a line, and not inside a directive, a string or a word. How the strings and the words of a
text lie, `Layout`, says at once what the grammar matches and what tokens the reader of lines finds,
and these are the same.
-/

namespace Netlist.Blif.Grammar

open Positional (Rule Token tokens grammar)

/-- A parsing expression. `absent` looks ahead and takes nothing. Of a rule only the text that it matched
is kept, as a token, and not the tokens inside. -/
inductive Pattern where
  | empty
  | char (p : Char → Bool)
  | seq (first second : Pattern)
  | choice (first second : Pattern)
  | many (a : Pattern)
  | absent (a : Pattern)
  | rule (name : Rule) (a : Pattern)

structure Match where
  tokens : List Token
  rest : List Char

def Match.append (m n : Match) : Match := ⟨m.tokens ++ n.tokens, n.rest⟩

/-- A pattern ends on an input with a match or in failure. -/
inductive Runs : Pattern → List Char → Option Match → Prop where
  | empty : Runs .empty input (some ⟨[], input⟩)
  | char (holds : p c) : Runs (.char p) (c :: input) (some ⟨[], input⟩)
  | char_other (fails : p c = false) : Runs (.char p) (c :: input) none
  | char_end : Runs (.char p) [] none
  | seq (first : Runs a input (some m)) (second : Runs b m.rest (some n)) :
      Runs (.seq a b) input (some (m.append n))
  | seq_first (first : Runs a input none) : Runs (.seq a b) input none
  | seq_second (first : Runs a input (some m)) (second : Runs b m.rest none) :
      Runs (.seq a b) input none
  | choice_first (first : Runs a input (some m)) : Runs (.choice a b) input (some m)
  | choice_second (first : Runs a input none) (second : Runs b input outcome) :
      Runs (.choice a b) input outcome
  | many_end (stop : Runs a input none) : Runs (.many a) input (some ⟨[], input⟩)
  | many_next (next : Runs a input (some m)) (more : Runs (.many a) m.rest (some n)) :
      Runs (.many a) input (some (m.append n))
  | absent (fails : Runs a input none) : Runs (.absent a) input (some ⟨[], input⟩)
  | absent_found (found : Runs a input (some m)) : Runs (.absent a) input none
  | rule (inside : Runs a input (some m)) (took : input = text ++ m.rest) :
      Runs (.rule name a) input (some ⟨[⟨name, text⟩], m.rest⟩)
  | rule_fails (inside : Runs a input none) : Runs (.rule name a) input none

theorem Runs.deterministic (one : Runs a input outcome) (other : Runs a input outcome') :
    outcome = outcome' := by
  induction one generalizing outcome' with
  | empty => cases other; rfl
  | char holds => cases other with
    | char => rfl
    | char_other fails => simp [holds] at fails
  | char_other fails => cases other with
    | char holds => simp [holds] at fails
    | char_other => rfl
  | char_end => cases other; rfl
  | seq _ _ ih_first ih_second => cases other with
    | seq first second =>
      cases ih_first first
      cases ih_second second
      rfl
    | seq_first first => cases ih_first first
    | seq_second first second =>
      cases ih_first first
      cases ih_second second
  | seq_first _ ih => cases other with
    | seq first => cases ih first
    | seq_first => rfl
    | seq_second first => cases ih first
  | seq_second _ _ ih_first ih_second => cases other with
    | seq first second =>
      cases ih_first first
      cases ih_second second
    | seq_first first => cases ih_first first
    | seq_second => rfl
  | choice_first _ ih => cases other with
    | choice_first first => exact ih first
    | choice_second first => cases ih first
  | choice_second _ _ ih_first ih_second => cases other with
    | choice_first first => cases ih_first first
    | choice_second _ second => exact ih_second second
  | many_end _ ih => cases other with
    | many_end => rfl
    | many_next next => cases ih next
  | many_next _ _ ih_next ih_more => cases other with
    | many_end stop => cases ih_next stop
    | many_next next more =>
      cases ih_next next
      cases ih_more more
      rfl
  | absent _ ih => cases other with
    | absent => rfl
    | absent_found found => cases ih found
  | absent_found _ ih => cases other with
    | absent fails => cases ih fails
    | absent_found => rfl
  | rule _ took ih => cases other with
    | rule inside took' =>
      cases ih inside
      cases List.append_cancel_right (took.symm.trans took')
      rfl
    | rule_fails inside => cases ih inside
  | rule_fails _ ih => cases other with
    | rule inside => cases ih inside
    | rule_fails => rfl

/-- Behind a first match, the second pattern decides how a sequence ends. -/
theorem Runs.followed (first : Runs a input (some m)) (second : Runs b m.rest outcome) :
    Runs (.seq a b) input (outcome.map m.append) := by
  cases outcome with
  | none => exact .seq_second first second
  | some n => exact .seq first second

/-- If a repetition goes on with a match, the sequence goes on behind it. -/
theorem Runs.seq_many_next {a b : Pattern} (next : Runs a input (some m))
    (more : Runs (.seq (.many a) b) m.rest outcome) :
    Runs (.seq (.many a) b) input (outcome.map m.append) := by
  cases more with
  | @seq _ _ n _ k first second =>
    have run := Runs.seq (.many_next next first) second
    simpa only [Option.map_some, Match.append, List.append_assoc] using run
  | seq_first first => cases first
  | seq_second first second => exact .seq_second (.many_next next first) second

/-! ## Patterns of one character -/

structure OneOf (a : Pattern) (p : Char → Bool) : Prop where
  taken : ∀ c input, p c → Runs a (c :: input) (some ⟨[], input⟩)
  refused : ∀ input, (∀ c ∈ input.head?, p c = false) → Runs a input none

namespace OneOf

variable {a b : Pattern} {p q : Char → Bool}

theorem char (p : Char → Bool) : OneOf (.char p) p where
  taken _ _ holds := .char holds
  refused input fails := by
    cases input with
    | nil => exact .char_end
    | cons c input => exact .char_other (fails c rfl)

theorem choice (one : OneOf a p) (other : OneOf b q) : OneOf (.choice a b) fun c => p c || q c where
  taken c input holds := by
    cases first : p c with
    | true => exact .choice_first (one.taken c input first)
    | false =>
      have second : q c := by simpa [first] using holds
      exact .choice_second (one.refused _ (by simpa using first)) (other.taken c input second)
  refused input fails := by
    simp only [Bool.or_eq_false_iff] at fails
    exact .choice_second (one.refused input fun c head => (fails c head).1)
      (other.refused input fun c head => (fails c head).2)

/-- Any character that another pattern refuses. -/
theorem except (one : OneOf a p) : OneOf (.seq (.absent a) (.char fun _ => true)) fun c => !p c where
  taken c input fails :=
    .seq (.absent (one.refused _ (by simpa using fails))) (.char rfl)
  refused input holds := by
    cases input with
    | nil => exact .seq_second (.absent (one.refused [] (by simp))) .char_end
    | cons c input => exact .seq_first (.absent_found (one.taken c input (by simpa using holds)))

/-- A repetition takes a run to its end. -/
theorem many (one : OneOf a p) {run rest : List Char} (inside : ∀ c ∈ run, p c)
    (bound : ∀ c ∈ rest.head?, p c = false) : Runs (.many a) (run ++ rest) (some ⟨[], rest⟩) := by
  induction run with
  | nil => exact .many_end (one.refused rest bound)
  | cons c run ih =>
    obtain ⟨here, later⟩ := List.forall_mem_cons.mp inside
    exact .many_next (one.taken c _ here) (ih later)

theorem atLeastOne (one : OneOf a p) {run rest : List Char} (present : run ≠ [])
    (inside : ∀ c ∈ run, p c) (bound : ∀ c ∈ rest.head?, p c = false) :
    Runs (.seq a (.many a)) (run ++ rest) (some ⟨[], rest⟩) := by
  obtain ⟨c, run, rfl⟩ := List.exists_cons_of_ne_nil present
  obtain ⟨here, later⟩ := List.forall_mem_cons.mp inside
  exact .seq (one.taken c _ here) (one.many later bound)

end OneOf

/-! ## The rules -/

def literal (c : Char) : Pattern := .char (· = c)

def optional (a : Pattern) : Pattern := .choice a .empty

def atLeastOne (a : Pattern) : Pattern := .seq a (.many a)

def anyBut (a : Pattern) : Pattern := .seq (.absent a) (.char fun _ => true)

def separator : Pattern := .choice (.choice (literal ' ') (literal '\t')) (literal '\r')

def skip : Pattern := .many separator

/-- A sequence with separators between its parts. -/
def spaced (a b : Pattern) : Pattern := .seq a (.seq skip b)

def spacedMany (a : Pattern) : Pattern := optional (.seq a (.many (.seq skip a)))

def keyword : Pattern :=
  .rule .keyword (atLeastOne (.choice (.choice (.char Char.isAlphanum) (literal '_')) (literal '-')))

def directive : Pattern := .rule .directive (.seq (literal '.') keyword)

def string : Pattern :=
  .rule .string (.seq (literal '"') (.seq (.many (anyBut (literal '"'))) (literal '"')))

def word : Pattern := .rule .word (atLeastOne (anyBut (.choice separator (literal '"'))))

def endOfInput : Pattern := .rule .endOfInput (.absent (.char fun _ => true))

def argument : Pattern := .choice string word

/-- A line from its start, where the first separators are skipped too. -/
def line : Pattern :=
  spaced .empty (spaced (optional directive) (spaced (spacedMany argument) endOfInput))

def isWordChar (c : Char) : Bool := !(isSeparator c || c = '"')

theorem oneOf_separator : OneOf separator isSeparator :=
  ((OneOf.char _).choice (.char _)).choice (.char _)

theorem oneOf_wordChar : OneOf (anyBut (.choice separator (literal '"'))) isWordChar :=
  (oneOf_separator.choice (.char _)).except

theorem oneOf_keywordChar :
    OneOf (.choice (.choice (.char Char.isAlphanum) (literal '_')) (literal '-')) isKeywordChar :=
  ((OneOf.char _).choice (.char _)).choice (.char _)

theorem runs_skip {blanks rest : List Char} (inside : ∀ c ∈ blanks, isSeparator c)
    (bound : ∀ c ∈ rest.head?, isSeparator c = false) : Runs skip (blanks ++ rest) (some ⟨[], rest⟩) :=
  oneOf_separator.many inside bound

theorem head_dropWhile (p : Char → Bool) (text : List Char) :
    ∀ c ∈ (text.dropWhile p).head?, p c = false := by
  intro c head
  have fails := List.head?_dropWhile_not p text
  rw [Option.mem_def.mp head] at fails
  simpa using fails

/-- A text begins with a run of characters of a class, which may be empty. -/
theorem exists_run (p : Char → Bool) (text : List Char) : ∃ run rest, text = run ++ rest ∧
    (∀ c ∈ run, p c) ∧ ∀ c ∈ rest.head?, p c = false :=
  ⟨text.takeWhile p, text.dropWhile p, List.takeWhile_append_dropWhile.symm,
    fun _ mem => List.mem_takeWhile_imp mem, head_dropWhile p text⟩

theorem dropWhile_run {p : Char → Bool} {run rest : List Char} (inside : ∀ c ∈ run, p c)
    (bound : ∀ c ∈ rest.head?, p c = false) : (run ++ rest).dropWhile p = rest := by
  cases rest with
  | nil => simpa using inside
  | cons c rest => simp [List.dropWhile_append_of_pos inside, bound c rfl]

theorem takeWhile_run {p : Char → Bool} {run rest : List Char} (inside : ∀ c ∈ run, p c)
    (bound : ∀ c ∈ rest.head?, p c = false) : (run ++ rest).takeWhile p = run := by
  cases rest with
  | nil => simpa using inside
  | cons c rest => simp [List.takeWhile_append_of_pos inside, bound c rfl]

theorem runs_skip_all (text : List Char) :
    Runs skip text (some ⟨[], text.dropWhile isSeparator⟩) := by
  obtain ⟨blanks, rest, rfl, inside, bound⟩ := exists_run isSeparator text
  rw [dropWhile_run inside bound]
  exact runs_skip inside bound

theorem runs_word {text rest : List Char} (present : text ≠ []) (plain : ∀ c ∈ text, isWordChar c)
    (bound : ∀ c ∈ rest.head?, isWordChar c = false) :
    Runs word (text ++ rest) (some ⟨[⟨.word, text⟩], rest⟩) :=
  .rule (oneOf_wordChar.atLeastOne present plain bound) rfl

theorem word_fails {rest : List Char} (bound : ∀ c ∈ rest.head?, isWordChar c = false) :
    Runs word rest none :=
  .rule_fails (.seq_first (oneOf_wordChar.refused rest bound))

/-- A string goes on to the next quote. -/
theorem runs_inside {text : List Char} (plain : '"' ∉ text) (rest : List Char)
    (bound : ∀ c ∈ rest.head?, c = '"') :
    Runs (.many (anyBut (literal '"'))) (text ++ rest) (some ⟨[], rest⟩) :=
  (OneOf.char (· = '"')).except.many (by simpa using fun c mem => ne_of_mem_of_not_mem mem plain)
    (by simpa using bound)

theorem runs_string {text : List Char} (plain : '"' ∉ text) (rest : List Char) :
    Runs string ('"' :: text ++ '"' :: rest) (some ⟨[⟨.string, '"' :: text ++ ['"']⟩], rest⟩) := by
  have inner := runs_inside plain ('"' :: rest) (by simp)
  exact .rule (.seq (.char rfl) (.seq inner (.char rfl))) (by simp [Match.append])

/-- No string closes without a second quote. -/
theorem string_open {text : List Char} (plain : '"' ∉ text) : Runs string ('"' :: text) none := by
  have inner := runs_inside plain [] (by simp)
  rw [List.append_nil] at inner
  exact .rule_fails (.seq_second (.char rfl) (.seq_second inner .char_end))

theorem string_fails {rest : List Char} (bound : ∀ c ∈ rest.head?, c ≠ '"') :
    Runs string rest none :=
  .rule_fails (.seq_first ((OneOf.char _).refused rest (by simpa using bound)))

/-! ## How a text is laid out -/

inductive Item where
  | word (text : List Char)
  | string (text : List Char)

namespace Item

def text : Item → List Char
  | word text => text
  | string text => text

def token : Item → Token
  | word text => ⟨.word, text⟩
  | string text => ⟨.string, '"' :: text ++ ['"']⟩

end Item

/-- How the strings and the words of a text lie, unless it leaves a string open. -/
inductive Layout : List Char → Option (List Item) → Prop where
  | blank (blanks : ∀ c ∈ space, isSeparator c) : Layout space (some [])
  | word (blanks : ∀ c ∈ space, isSeparator c) (present : text ≠ []) (plain : ∀ c ∈ text, isWordChar c)
      (bound : ∀ c ∈ rest.head?, isWordChar c = false) (later : Layout rest items) :
      Layout (space ++ (text ++ rest)) (items.map (.word text :: ·))
  | string (blanks : ∀ c ∈ space, isSeparator c) (plain : '"' ∉ text) (later : Layout rest items) :
      Layout (space ++ ('"' :: text ++ '"' :: rest)) (items.map (.string text :: ·))
  | open (blanks : ∀ c ∈ space, isSeparator c) (plain : '"' ∉ text) :
      Layout (space ++ '"' :: text) none

theorem exists_layout (text : List Char) : ∃ items, Layout text items := by
  induction length : text.length using Nat.strong_induction_on generalizing text with
  | _ n ih =>
    obtain ⟨space, behind, rfl, blanks, bound⟩ := exists_run isSeparator text
    cases behind with
    | nil => exact ⟨_, by simpa using Layout.blank blanks⟩
    | cons c behind =>
      by_cases quote : c = '"'
      · subst quote
        by_cases closes : '"' ∈ behind
        · obtain ⟨inside, rest, rfl, plain⟩ := List.eq_append_cons_of_mem closes
          obtain ⟨items, later⟩ := ih rest.length (by simp at length; omega) rest rfl
          exact ⟨_, .string blanks plain later⟩
        · exact ⟨none, .open blanks closes⟩
      · obtain ⟨text, rest, divided, plain, ended⟩ := exists_run isWordChar (c :: behind)
        have starts : isWordChar c := by simpa [isWordChar, quote] using bound c rfl
        have present : text ≠ [] := by
          rintro rfl
          rw [List.nil_append] at divided
          subst divided
          simp [starts] at ended
        have shorter : rest.length < n := by
          have positive := List.length_pos_of_ne_nil present
          have total := congrArg List.length divided
          simp only [List.length_append] at length total
          omega
        obtain ⟨items, later⟩ := ih rest.length shorter rest rfl
        rw [divided]
        exact ⟨_, .word blanks present plain ended later⟩

theorem denotes_unique {token : Token} {text text' : List Char} (one : token.Denotes text)
    (other : token.Denotes text') : text = text' := by
  cases one with
  | word => cases other; rfl
  | string =>
    generalize same : '"' :: text ++ ['"'] = whole at other
    cases other with
    | string => simpa using same

theorem Item.denotes (item : Item) : item.token.Denotes item.text := by
  cases item with
  | word text => exact .word text
  | string text => exact .string text

theorem Item.texts_eq {items : List Item} {texts : List (List Char)}
    (denote : List.Forall₂ Token.Denotes (items.map token) texts) : items.map text = texts := by
  induction items generalizing texts with
  | nil => cases denote; rfl
  | cons item items ih =>
    cases denote with
    | cons first later => rw [List.map_cons, denotes_unique item.denotes first, ih later]

namespace Layout

theorem tokens_space {space : List Char} (blanks : ∀ c ∈ space, isSeparator c) (rest : List Char) :
    tokens .between (space ++ rest) = tokens .between rest := by
  induction space with
  | nil => rfl
  | cons c space ih =>
    obtain ⟨here, later⟩ := List.forall_mem_cons.mp blanks
    have other : c ≠ '"' := by
      rintro rfl
      simp [isSeparator] at here
    simpa [tokens, other, here] using ih later

theorem tokens_inString {text : List Char} (plain : '"' ∉ text) (read rest : List Char) :
    tokens (.inString read) (text ++ '"' :: rest) =
      (tokens .between rest).map (⟨.string, '"' :: (read.reverse ++ text) ++ ['"']⟩ :: ·) := by
  induction text generalizing read with
  | nil => simp [tokens]
  | cons c text ih =>
    obtain ⟨here, later⟩ := List.ne_and_not_mem_of_not_mem_cons plain
    simpa [tokens, here.symm] using ih later (c :: read)

theorem tokens_open {text : List Char} (plain : '"' ∉ text) (read : List Char) :
    tokens (.inString read) text = none := by
  induction text generalizing read with
  | nil => rfl
  | cons c text ih =>
    obtain ⟨here, later⟩ := List.ne_and_not_mem_of_not_mem_cons plain
    simpa [tokens, here.symm] using ih later (c :: read)

theorem tokens_inWord {text rest : List Char} (plain : ∀ c ∈ text, isWordChar c)
    (bound : ∀ c ∈ rest.head?, isWordChar c = false) (read : List Char) :
    tokens (.inWord read) (text ++ rest) =
      (tokens .between rest).map (⟨.word, read.reverse ++ text⟩ :: ·) := by
  induction text generalizing read with
  | nil =>
    cases rest with
    | nil => simp [tokens]
    | cons c rest =>
      have ends : isSeparator c ∨ c = '"' := by
        simpa [isWordChar, or_iff_not_imp_left] using bound c rfl
      by_cases quote : c = '"'
      · simp [tokens, quote]
      · simp [tokens, quote, ends.resolve_right quote]
  | cons c text ih =>
    obtain ⟨here, later⟩ := List.forall_mem_cons.mp plain
    simp only [isWordChar, Bool.not_eq_true', Bool.or_eq_false_iff, decide_eq_false_iff_not] at here
    simpa [tokens, here.1, here.2] using ih later (c :: read)

/-- The reader finds the items that are laid out. -/
theorem tokens_eq (layout : Layout text items) :
    tokens .between text = items.map (List.map Item.token) := by
  induction layout with
  | @blank space blanks => simpa [tokens] using tokens_space blanks []
  | @word space text rest items blanks present plain bound later ih =>
    rw [tokens_space blanks]
    obtain ⟨c, text, rfl⟩ := List.exists_cons_of_ne_nil present
    obtain ⟨here, later⟩ := List.forall_mem_cons.mp plain
    simp only [isWordChar, Bool.not_eq_true', Bool.or_eq_false_iff, decide_eq_false_iff_not] at here
    simp [tokens, here.1, here.2, tokens_inWord later bound, ih, Function.comp_def, Item.token]
  | string blanks plain later ih =>
    rw [tokens_space blanks]
    simp [tokens, tokens_inString plain, ih, Function.comp_def, Item.token]
  | «open» blanks plain =>
    rw [tokens_space blanks]
    simp [tokens, tokens_open plain]

theorem arguments_eq (layout : Layout text items) :
    arguments .between text = items.map (List.map Item.text) := by
  have agree := Positional.tokens_agree .between text
  rw [layout.tokens_eq] at agree
  cases items with
  | none =>
    cases args : arguments .between text with
    | none => rfl
    | some read =>
      rw [args] at agree
      cases agree
  | some items =>
    cases args : arguments .between text with
    | none =>
      rw [args] at agree
      cases agree
    | some read =>
      rw [args] at agree
      cases agree with
      | some denote => exact congrArg some (Item.texts_eq denote).symm

end Layout

/-! ## What the grammar matches -/

theorem isSeparator_eq_false {c : Char} (inside : isWordChar c) : isSeparator c = false := by
  simp only [isWordChar, Bool.not_eq_true', Bool.or_eq_false_iff] at inside
  exact inside.1

theorem runs_argument_word {text rest : List Char} (present : text ≠ [])
    (plain : ∀ c ∈ text, isWordChar c) (bound : ∀ c ∈ rest.head?, isWordChar c = false) :
    Runs argument (text ++ rest) (some ⟨[⟨.word, text⟩], rest⟩) := by
  refine .choice_second (string_fails fun c head => ?_) (runs_word present plain bound)
  obtain ⟨first, text, rfl⟩ := List.exists_cons_of_ne_nil present
  have holds := plain first (by simp)
  obtain rfl : first = c := by simpa using head
  rintro rfl
  simp [isWordChar] at holds

theorem runs_argument_string {text : List Char} (plain : '"' ∉ text) (rest : List Char) :
    Runs argument ('"' :: text ++ '"' :: rest) (some ⟨[⟨.string, '"' :: text ++ ['"']⟩], rest⟩) :=
  .choice_first (runs_string plain rest)

theorem argument_end : Runs argument [] none :=
  .choice_second (string_fails (by simp)) (word_fails (by simp))

theorem argument_open {text : List Char} (plain : '"' ∉ text) : Runs argument ('"' :: text) none :=
  .choice_second (string_open plain) (word_fails (by simp [isWordChar]))

/-- The arguments that are laid out are matched, and then the end of the text, unless a string is left
open. -/
theorem Layout.runs (layout : Layout text items) :
    Runs (.seq (.many (.seq skip argument)) (.seq skip endOfInput)) text
      (items.map fun found => ⟨found.map Item.token ++ [⟨.endOfInput, []⟩], []⟩) := by
  induction layout with
  | @blank space blanks =>
    have skipped : Runs skip (space ++ []) (some ⟨[], []⟩) := runs_skip blanks (by simp)
    rw [List.append_nil] at skipped
    have ended : Runs endOfInput [] (some ⟨[⟨.endOfInput, []⟩], []⟩) := .rule (.absent .char_end) rfl
    exact .seq (.many_end (.seq_second skipped argument_end)) (.seq skipped ended)
  | @word space text rest items blanks present plain bound later ih =>
    have begins : ∀ c ∈ (text ++ rest).head?, isSeparator c = false := by
      obtain ⟨first, text, rfl⟩ := List.exists_cons_of_ne_nil present
      simpa using isSeparator_eq_false (plain first (by simp))
    have skipped := runs_skip blanks begins
    have run := Runs.seq_many_next (.seq skipped (runs_argument_word present plain bound)) ih
    simpa [Function.comp_def, Match.append, Item.token] using run
  | @string space text rest items blanks plain later ih =>
    have skipped : Runs skip (space ++ ('"' :: text ++ '"' :: rest)) (some ⟨[], _⟩) :=
      runs_skip blanks (by simp [isSeparator])
    have run := Runs.seq_many_next (.seq skipped (runs_argument_string plain rest)) ih
    simpa [Function.comp_def, Match.append, Item.token] using run
  | @«open» space text blanks plain =>
    have skipped : Runs skip (space ++ '"' :: text) (some ⟨[], '"' :: text⟩) :=
      runs_skip blanks (by simp [isSeparator])
    have goesOn : Runs endOfInput ('"' :: text) none := .rule_fails (.absent_found (.char rfl))
    exact .seq_second (.many_end (.seq_second skipped (argument_open plain)))
      (.seq_second skipped goesOn)

/-- Where there is nothing to skip, a spaced repetition is one that skips before each part. -/
theorem Runs.spacedMany {a b : Pattern} {input : List Char} {outcome : Option Match}
    (begins : ∀ c ∈ input.head?, isSeparator c = false)
    (run : Runs (.seq (.many (.seq skip a)) b) input outcome) :
    Runs (.seq (spacedMany a) b) input outcome := by
  have skipped : Runs skip input (some ⟨[], input⟩) := .many_end (oneOf_separator.refused input begins)
  have same {first : Option Match} (many : Runs (.many (.seq skip a)) input first) :
      Runs (Grammar.spacedMany a) input first := by
    cases many with
    | many_end stop =>
      cases stop with
      | seq_first first => cases skipped.deterministic first
      | seq_second first second =>
        cases skipped.deterministic first
        exact .choice_second (.seq_first second) .empty
    | many_next next more =>
      cases next with
      | seq first second =>
        cases skipped.deterministic first
        exact .choice_first (.seq second more)
  cases run with
  | seq first second => exact .seq (same first) second
  | seq_first first => exact .seq_first (same first)
  | seq_second first second => exact .seq_second (same first) second

theorem runs_directive (text : List Char) : Runs (optional directive) text
    (some ⟨(splitKeyword text).1.toList.map fun keyword => ⟨.directive, '.' :: keyword⟩,
      (splitKeyword text).2⟩) := by
  unfold splitKeyword
  split
  next rest =>
    obtain ⟨run, rest, rfl, inside, bound⟩ := exists_run isKeywordChar rest
    simp only [takeWhile_run inside bound, dropWhile_run inside bound]
    split
    next missing =>
      obtain rfl := List.isEmpty_iff.mp missing
      have fails : Runs keyword rest none :=
        .rule_fails (.seq_first (oneOf_keywordChar.refused rest bound))
      exact .choice_second (.rule_fails (.seq_second (.char rfl) fails)) .empty
    next present =>
      have found : Runs keyword (run ++ rest) (some ⟨[⟨.keyword, run⟩], rest⟩) :=
        .rule (oneOf_keywordChar.atLeastOne (by simpa using present) inside bound) rfl
      exact .choice_first (.rule (.seq (.char rfl) found) rfl)
  next other =>
    have fails : Runs (literal '.') text none :=
      (OneOf.char _).refused text fun c head => by
        obtain ⟨rest, rfl⟩ := List.head?_eq_some_iff.mp head
        simpa using fun dot => other rest (by rw [dot])
    exact .choice_second (.rule_fails (.seq_first fails)) .empty

theorem tokens_dropWhile (text : List Char) :
    tokens .between (text.dropWhile isSeparator) = tokens .between text := by
  obtain ⟨space, rest, rfl, blanks, bound⟩ := exists_run isSeparator text
  rw [dropWhile_run blanks bound, Layout.tokens_space blanks]

theorem grammar_eq (text : List Char) : grammar text =
    (tokens .between (splitKeyword (text.dropWhile isSeparator)).2).map fun inner =>
      [(splitKeyword (text.dropWhile isSeparator)).1.toList.map
          (fun keyword => ⟨.directive, '.' :: keyword⟩) ++ inner ++ [⟨.endOfInput, []⟩]] := by
  simp only [grammar, Option.pure_def, Option.bind_eq_bind]
  cases tokens .between (splitKeyword (text.dropWhile isSeparator)).2 <;> rfl

/-- The grammar matches just the tokens that the reader of lines finds, and fails where it fails. -/
theorem runs_line (text : List Char) :
    Runs line text ((grammar text).map fun found => ⟨found.flatten, []⟩) := by
  rw [grammar_eq, ← tokens_dropWhile]
  have head := runs_directive (text.dropWhile isSeparator)
  generalize (splitKeyword (text.dropWhile isSeparator)).2 = behind at head
  obtain ⟨items, layout⟩ := exists_layout (behind.dropWhile isSeparator)
  have body := layout.runs.spacedMany (head_dropWhile isSeparator behind)
  have run : Runs line text _ := .followed .empty
    (.followed (runs_skip_all text) (.followed head (.followed (runs_skip_all behind) body)))
  rw [layout.tokens_eq]
  simpa [Match.append, Function.comp_def] using run

/-- The grammar matches the whole line, and taking the tokens in turn makes up the result. -/
def Tokenizes (logical : LogicalLine) (l : Line) : Prop :=
  ∃ found, Runs line logical.text (some ⟨found, []⟩) ∧
    found.foldlM Positional.takeToken { number := logical.number, directive := none, args := [] } =
      pure l

/-- Either the grammar fails and the line is malformed, or its tokens make up the line that is read. -/
theorem runs_cases (logical : LogicalLine) :
    (Runs line logical.text none ∧ ∃ e, Line.ofLogical logical = .error e) ∨
      ∃ l, Tokenizes logical l ∧ Line.ofLogical logical = .ok l := by
  have run := runs_line logical.text
  have folded := Positional.tokenize_eq .empty logical
  have agree := Positional.tokens_agree .between (splitKeyword (logical.text.dropWhile isSeparator)).2
  rw [grammar_eq] at run
  simp only [Positional.tokenize, grammar_eq, Line.ofLogical] at folded
  simp only [Tokenizes, Line.ofLogical]
  generalize tokens .between (splitKeyword (logical.text.dropWhile isSeparator)).2 = inner
    at run folded agree
  generalize arguments .between (splitKeyword (logical.text.dropWhile isSeparator)).2 = args
    at folded agree ⊢
  cases agree with
  | none => exact .inl ⟨run, _, rfl⟩
  | some denote =>
    rw [Option.map_some, Option.map_some, List.flatten_singleton] at run
    exact .inr ⟨_, ⟨_, run, folded⟩, rfl⟩

theorem tokenizes_iff {logical : LogicalLine} {l : Line} :
    Tokenizes logical l ↔ Line.ofLogical logical = .ok l := by
  rcases runs_cases logical with ⟨failed, e, refused⟩ | ⟨l', ⟨found, run, taken⟩, read⟩
  · constructor
    · rintro ⟨found, run, -⟩
      cases failed.deterministic run
    · intro read
      cases refused.symm.trans read
  · constructor
    · rintro ⟨found', run', taken'⟩
      cases run.deterministic run'
      have same := congrArg Traced.outcome (taken.symm.trans taken')
      rwa [← Except.ok.inj same]
    · intro read'
      cases read.symm.trans read'
      exact ⟨found, run, taken⟩

/-- Only malformed lines fail to match. -/
theorem runs_none_iff {logical : LogicalLine} :
    Runs line logical.text none ↔ ∃ e, Line.ofLogical logical = .error e := by
  rcases runs_cases logical with ⟨failed, refused⟩ | ⟨l, ⟨found, run, -⟩, read⟩
  · exact iff_of_true failed refused
  · refine iff_of_false (fun failed => ?_) fun ⟨e, refused⟩ => ?_
    · cases run.deterministic failed
    · cases read.symm.trans refused

end Netlist.Blif.Grammar
