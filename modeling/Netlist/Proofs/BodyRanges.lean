import Netlist.Proofs.Blocks
import Netlist.Proofs.PositionalBodies

/-!
# Where the bodies stand

The positional reader keeps a body as a range of the lines. The ranges begin right after the lines
that open a description, do not overlap, increase, and hold just the lines that belong to a body.
-/

namespace Netlist.Blif

def Line.Opens (line : Line) : Prop := line.directive = some .model ∨ line.directive = some .exdc

instance (line : Line) : Decidable line.Opens := by
  unfold Line.Opens
  infer_instance

/-- The positions of the lines that open a description, when the first line stands at `offset`. -/
def openings (offset : Nat) : List Line → List Nat
  | [] => []
  | line :: lines => (if line.Opens then [offset] else []) ++ openings (offset + 1) lines

theorem openings_append (offset : Nat) (l₁ l₂ : List Line) :
    openings offset (l₁ ++ l₂) = openings offset l₁ ++ openings (offset + l₁.length) l₂ := by
  induction l₁ generalizing offset with
  | nil => simp [openings]
  | cons line l₁ ih => simp [openings, ih, Nat.add_assoc, Nat.add_comm 1]

/-- A range of positions, without its end. -/
structure Extent where
  start : Nat
  stop : Nat

/-- The ranges are those of the bodies in lines of which the first stands at `offset`. -/
structure Extents (offset : Nat) (lines : List Line) (bodies : List (List Line))
    (extents : List Extent) : Prop where
  starts : extents.map Extent.start = (openings offset lines).map (· + 1)
  sizes : extents.map (fun e => e.stop - e.start) = bodies.map List.length
  bounds : ∀ e ∈ extents, offset < e.start ∧ e.start ≤ e.stop ∧ e.stop ≤ offset + lines.length
  apart : extents.Pairwise fun a b => a.stop < b.start
  inner : ∀ i line, lines[i]? = some line →
    (line.Inner ↔ ∃ e ∈ extents, e.start ≤ offset + i ∧ offset + i < e.stop)

variable {offset : Nat} {lines l₁ l₂ : List Line} {bodies bodies₁ bodies₂ : List (List Line)}
  {extents extents₁ extents₂ : List Extent} {line : Line}

theorem extents_nil (offset : Nat) : Extents offset [] [] [] where
  starts := rfl
  sizes := rfl
  bounds := by simp
  apart := .nil
  inner := by simp

theorem Extents.append (first : Extents offset l₁ bodies₁ extents₁)
    (second : Extents (offset + l₁.length) l₂ bodies₂ extents₂) :
    Extents offset (l₁ ++ l₂) (bodies₁ ++ bodies₂) (extents₁ ++ extents₂) where
  starts := by rw [openings_append, List.map_append, List.map_append, first.starts, second.starts]
  sizes := by rw [List.map_append, List.map_append, first.sizes, second.sizes]
  bounds := by
    intro e member
    rw [List.length_append]
    rcases List.mem_append.mp member with early | late
    · have := first.bounds e early
      omega
    · have := second.bounds e late
      omega
  apart := by
    refine List.pairwise_append.mpr ⟨first.apart, second.apart, ?_⟩
    intro a early b late
    have := first.bounds a early
    have := second.bounds b late
    omega
  inner := by
    intro i line here
    by_cases early : i < l₁.length
    · rw [List.getElem?_append_left early] at here
      rw [first.inner i line here]
      constructor
      · rintro ⟨e, member, inside⟩
        exact ⟨e, List.mem_append_left _ member, inside⟩
      · rintro ⟨e, member, inside⟩
        rcases List.mem_append.mp member with member | later
        · exact ⟨e, member, inside⟩
        · have := second.bounds e later
          omega
    · rw [List.getElem?_append_right (Nat.le_of_not_lt early)] at here
      have position : offset + l₁.length + (i - l₁.length) = offset + i := by omega
      rw [second.inner _ line here, position]
      constructor
      · rintro ⟨e, member, inside⟩
        exact ⟨e, List.mem_append_right _ member, inside⟩
      · rintro ⟨e, member, inside⟩
        rcases List.mem_append.mp member with earlier | member
        · have := first.bounds e earlier
          omega
        · exact ⟨e, member, inside⟩

theorem Line.Opens.not_inner (opens : line.Opens) : ¬ line.Inner := by
  rintro ⟨notModel, notExdc, -⟩
  rcases opens with isModel | isExdc
  · exact notModel isModel
  · exact notExdc isExdc

theorem Line.Inner.not_opens (inner : line.Inner) : ¬ line.Opens := fun opens => opens.not_inner inner

theorem openings_of_inner (offset : Nat) (inner : ∀ line ∈ lines, line.Inner) :
    openings offset lines = [] := by
  induction lines generalizing offset with
  | nil => rfl
  | cons line lines ih =>
    obtain ⟨here, later⟩ := List.forall_mem_cons.mp inner
    simp [openings, here.not_opens, ih _ later]

theorem extents_part {p : Part} (opens : p.head.Opens) (inner : ∀ line ∈ p.body, line.Inner)
    (offset : Nat) :
    Extents offset p.lines [p.body] [⟨offset + 1, offset + 1 + p.body.length⟩] where
  starts := by simp [Part.lines, openings, opens, openings_of_inner _ inner]
  sizes := by simp
  bounds := by
    simp only [Part.lines, List.mem_singleton, List.length_cons, forall_eq]
    omega
  apart := List.pairwise_singleton _ _
  inner := by
    intro i line here
    cases i with
    | zero =>
      obtain rfl : p.head = line := by simpa [Part.lines] using here
      exact iff_of_false opens.not_inner (by simp)
    | succ i =>
      have here : p.body[i]? = some line := by simpa [Part.lines] using here
      have bound := (List.getElem?_eq_some_iff.mp here).1
      refine iff_of_true (inner line (List.mem_of_getElem? here)) ⟨_, List.mem_cons_self, ?_⟩
      simp only
      omega

theorem extents_parts {ps : List Part} (opens : ∀ p ∈ ps, p.head.Opens)
    (inner : ∀ p ∈ ps, ∀ line ∈ p.body, line.Inner) (offset : Nat) :
    ∃ extents, Extents offset (ps.flatMap Part.lines) (ps.map Part.body) extents := by
  induction ps generalizing offset with
  | nil => exact ⟨[], extents_nil offset⟩
  | cons p ps ih =>
    obtain ⟨opensFirst, opens⟩ := List.forall_mem_cons.mp opens
    obtain ⟨innerFirst, inner⟩ := List.forall_mem_cons.mp inner
    obtain ⟨rest, right⟩ := ih opens inner (offset + p.lines.length)
    exact ⟨_, (extents_part opensFirst innerFirst offset).append right⟩

/-- The last line of a block belongs to no body. -/
theorem extents_last (closes : line.directive = some .endModel) (offset : Nat) :
    Extents offset [line] [] [] where
  starts := by simp [openings, Line.Opens, closes]
  sizes := rfl
  bounds := by simp
  apart := .nil
  inner := by
    intro i other here
    obtain ⟨-, rfl⟩ : 0 = i ∧ line = other := by
      cases i <;> simp_all
    exact iff_of_false (fun inner => inner.2.2 closes) (by simp)

theorem extents_block {b : Block} (valid : b.Valid) (offset : Nat) :
    ∃ extents, Extents offset b.lines (b.models.map Model.body) extents ∧
      ∀ e ∈ extents, e.stop < offset + b.lines.length := by
  have opens : ∀ p ∈ b.parts, p.head.Opens :=
    List.forall_mem_cons.mpr ⟨.inl valid.opens, fun p member => .inr (valid.exdcs p member)⟩
  obtain ⟨extents, right⟩ := extents_parts opens valid.inner offset
  have whole := right.append (extents_last valid.closes _)
  rw [List.append_nil, List.append_nil] at whole
  refine ⟨extents, ?_, ?_⟩
  · rw [b.models_bodies]
    exact whole
  · intro e member
    have := right.bounds e member
    simp only [Block.lines, List.length_append, List.length_singleton]
    omega

theorem extents_blocks {blocks : List Block} (valid : ∀ b ∈ blocks, b.Valid) (offset : Nat) :
    ∃ extents, Extents offset (blocks.flatMap Block.lines)
        ((blocks.flatMap Block.models).map Model.body) extents ∧
      ∀ e ∈ extents, e.stop < offset + (blocks.flatMap Block.lines).length := by
  induction blocks generalizing offset with
  | nil => exact ⟨[], extents_nil offset, by simp⟩
  | cons b blocks ih =>
    obtain ⟨first, valid⟩ := List.forall_mem_cons.mp valid
    obtain ⟨early, right, inside⟩ := extents_block first offset
    obtain ⟨late, rightLate, insideLate⟩ := ih valid (offset + b.lines.length)
    refine ⟨early ++ late, ?_, ?_⟩
    · have whole := right.append rightLate
      rw [← List.map_append] at whole
      exact whole
    · intro e member
      rw [List.flatMap_cons, List.length_append]
      rcases List.mem_append.mp member with member | member
      · have := inside e member
        omega
      · have := insideLate e member
        omega

namespace Positional

open Reader

variable {r r' : Reader} {index : Nat}

def Draft.extent (k : Draft) : Extent := ⟨k.start, k.stop⟩

theorem entry_eq_ok {α : Type} {l : List α} {i : Nat} {a : α} (found : (entry l i).outcome = .ok a) :
    l[i]? = some a := by
  unfold entry at found
  split at found
  · next b here =>
    obtain rfl := Except.ok.inj found
    exact here
  · cases found

theorem refuse_ne_ok {α : Type} {r : Reader} {number : Nat} {defect : Defect} {a : α} :
    (r.refuse number defect).outcome ≠ .ok a := by
  intro impossible
  cases impossible

/-- The drafts keep their starts, and a line that opens a description adds the position after it. -/
theorem scanLine_starts {line : Line} (taken : (r.scanLine index line).outcome = .ok r') :
    r'.models.map Draft.start = r.models.map Draft.start ++ if line.Opens then [index + 1] else [] := by
  have put_starts {i : Nat} {k k' : Draft} (here : r.models[i]? = some k) (same : k'.start = k.start) :
      (r.put i k').models.map Draft.start = r.models.map Draft.start := map_set_of_eq here same
  unfold scanLine at taken
  cases directive : line.directive with
  | none =>
    have closed : ¬ line.Opens := by simp [Line.Opens, directive]
    simp only [directive] at taken
    split at taken
    · exact absurd taken refuse_ne_ok
    · obtain rfl := Except.ok.inj taken
      simp [closed]
  | some d =>
    by_cases isModel : d = .model
    · subst isModel
      have opens : line.Opens := .inl directive
      simp only [directive, openModel] at taken
      split at taken
      · obtain ⟨k, -, impossible⟩ := Outcome.bind_eq_ok.mp ((Traced.outcome_bind _ _).symm.trans taken)
        exact absurd impossible refuse_ne_ok
      · split at taken
        · exact absurd taken refuse_ne_ok
        · obtain rfl := Except.ok.inj taken
          simp [opens]
      · exact absurd taken refuse_ne_ok
    · cases current : r.current with
      | none =>
        cases d <;> simp_all [refuse_ne_ok]
      | some i =>
        -- Whatever the directive, the open draft is fetched first.
        cases d with
        | model => exact absurd rfl isModel
        | exdc =>
          have opens : line.Opens := .inr directive
          simp only [directive, current, Traced.outcome_bind, Outcome.bind_eq_ok] at taken
          obtain ⟨k, found, taken⟩ := taken
          obtain rfl := Except.ok.inj taken
          have kept := @put_starts i k { k with stop := index } (entry_eq_ok found) rfl
          simp [opens, kept]
        | inputs | outputs | blackbox | endModel =>
          have closed : ¬ line.Opens := by simp [Line.Opens, directive]
          simp only [directive, current, Traced.outcome_bind, Outcome.bind_eq_ok] at taken
          obtain ⟨k, found, taken⟩ := taken
          obtain rfl := Except.ok.inj taken
          simp only [closed, if_false, List.append_nil]
          exact put_starts (entry_eq_ok found) rfl
        | _ =>
          have closed : ¬ line.Opens := by simp [Line.Opens, directive]
          simp only [directive, current, Traced.outcome_bind, Outcome.bind_eq_ok] at taken
          obtain ⟨k, -, taken⟩ := taken
          obtain rfl := Except.ok.inj taken
          simp [closed]

theorem scanLines_starts (taken : (scanLines index lines r).outcome = .ok r') :
    r'.models.map Draft.start = r.models.map Draft.start ++ (openings index lines).map (· + 1) := by
  induction lines generalizing index r with
  | nil =>
    obtain rfl := Except.ok.inj taken
    simp [openings]
  | cons line lines ih =>
    rw [scanLines, Traced.outcome_bind] at taken
    obtain ⟨mid, first, rest⟩ := Outcome.bind_eq_ok.mp taken
    rw [ih rest, scanLine_starts first, openings, List.map_append, List.append_assoc]
    split <;> rfl

theorem readInterfaces_starts (scanned : (preparsed lines).readInterfaces.outcome = .ok r) :
    r.models.map Draft.start = (openings 0 lines).map (· + 1) := by
  have unfolded :
      (preparsed lines).readInterfaces = scanLines 0 lines (preparsed lines) >>= endScan := rfl
  rw [unfolded, Traced.outcome_bind] at scanned
  obtain ⟨mid, taken, ended⟩ := Outcome.bind_eq_ok.mp scanned
  have starts := scanLines_starts taken
  have kept : r.models = mid.models := by
    unfold endScan at ended
    split at ended
    · obtain ⟨k, -, impossible⟩ := Outcome.bind_eq_ok.mp ((Traced.outcome_bind _ _).symm.trans ended)
      exact absurd impossible refuse_ne_ok
    · split at ended
      · cases ended
      · obtain rfl := Except.ok.inj ended
        rfl
  rw [kept]
  exact starts

theorem extents_eq_of_ended {drafts : List Draft} {ms : List Model}
    (ended : List.Forall₂ (Draft.Ended lines) drafts ms) :
    drafts.map (fun k => k.stop - k.start) = (ms.map Model.body).map List.length ∧
      ∀ k ∈ drafts, k.start ≤ k.stop := by
  induction ended with
  | nil => exact ⟨rfl, by simp⟩
  | @cons k m _ _ shows _ ih =>
    have size : k.stop - k.start = m.body.length := by
      have := shows.inside
      rw [← shows.body, List.length_take, List.length_drop]
      omega
    exact ⟨by simp [size, ih.1], List.forall_mem_cons.mpr ⟨shows.ordered, ih.2⟩⟩

/-- Ranges are told by where they start and how long they are. -/
theorem extent_eq {drafts : List Draft} {extents : List Extent}
    (starts : drafts.map Draft.start = extents.map Extent.start)
    (sizes : drafts.map (fun k => k.stop - k.start) = extents.map fun e => e.stop - e.start)
    (drafts_ordered : ∀ k ∈ drafts, k.start ≤ k.stop)
    (extents_ordered : ∀ e ∈ extents, e.start ≤ e.stop) :
    drafts.map Draft.extent = extents := by
  induction drafts generalizing extents with
  | nil =>
    have none := List.map_eq_nil_iff.mp starts.symm
    simp [none]
  | cons k drafts ih =>
    cases extents with
    | nil => cases starts
    | cons e extents =>
      simp only [List.map_cons, List.cons.injEq] at starts sizes
      obtain ⟨kOrdered, drafts_ordered⟩ := List.forall_mem_cons.mp drafts_ordered
      obtain ⟨eOrdered, extents_ordered⟩ := List.forall_mem_cons.mp extents_ordered
      have stop : k.stop = e.stop := by omega
      have first : k.extent = e := by simp [Draft.extent, starts.1, stop]
      rw [List.map_cons, first, ih starts.2 sizes.2 drafts_ordered extents_ordered]

/-- The positional reader finds the descriptions of the parts of the blocks, with the ranges of their
bodies, exactly if the lines are a sequence of blocks. -/
theorem readInterfaces_exact (lines : List Line) :
    ((∃ r, (preparsed lines).readInterfaces.outcome = .ok r) ↔ ∃ blocks, Blocks lines blocks) ∧
    ((∃ ms, Model.ofLines lines = .ok ms) ↔ ∃ blocks, Blocks lines blocks) ∧
    ∀ r, (preparsed lines).readInterfaces.outcome = .ok r →
      ∃ blocks, Blocks lines blocks ∧ Model.ofLines lines = .ok (blocks.flatMap Block.models) ∧
        List.Forall₂ (Draft.Ended lines) r.models (blocks.flatMap Block.models) ∧
        r.models.map Draft.start = (openings 0 lines).map (· + 1) ∧
        (∀ k ∈ r.models, k.start ≤ k.stop ∧ k.stop < lines.length) ∧
        r.models.Pairwise (fun a b => a.stop < b.start) ∧
        ∀ i line, lines[i]? = some line →
          (line.Inner ↔ ∃ k ∈ r.models, k.start ≤ i ∧ i < k.stop) := by
  have found : (∃ ms, Model.ofLines lines = .ok ms) ↔ ∃ blocks, Blocks lines blocks := by
    constructor
    · rintro ⟨ms, scanned⟩
      obtain ⟨blocks, divided, -⟩ := ofLines_eq_ok.mp scanned
      exact ⟨blocks, divided⟩
    · rintro ⟨blocks, divided⟩
      exact ⟨_, ofLines_eq_ok.mpr ⟨blocks, divided, rfl⟩⟩
  rcases readInterfaces_eq lines with
    ⟨e, refused, reader⟩ | ⟨ms, drafts, names, scan, reader, ended, -⟩
  · have failed : ¬ ∃ r, (preparsed lines).readInterfaces.outcome = .ok r := by
      rw [reader]
      rintro ⟨r, impossible⟩
      cases impossible
    rw [refused] at found
    have absent : ¬ ∃ blocks, Blocks lines blocks := by
      intro some
      obtain ⟨ms, impossible⟩ := found.mpr some
      cases impossible
    refine ⟨iff_of_false failed absent, ?_, fun r ok => absurd ⟨r, ok⟩ failed⟩
    rw [refused]
    exact found
  · have outcome : (preparsed lines).readInterfaces.outcome = .ok (scanned lines drafts names) := by
      rw [reader]
      rfl
    refine ⟨iff_of_true ⟨_, outcome⟩ (found.mp ⟨ms, scan⟩), found, ?_⟩
    intro r ok
    have starts := readInterfaces_starts ok
    obtain rfl := Except.ok.inj (outcome.symm.trans ok)
    obtain ⟨blocks, divided, rfl⟩ := ofLines_eq_ok.mp scan
    obtain ⟨extents, right, before⟩ := extents_blocks divided.valid 0
    rw [← divided.whole] at right before
    obtain ⟨sizes, ordered⟩ := extents_eq_of_ended ended
    have same : drafts.map Draft.extent = extents :=
      extent_eq (starts.trans right.starts.symm) (sizes.trans right.sizes.symm) ordered
        fun e member => (right.bounds e member).2.1
    subst same
    refine ⟨blocks, divided, scan, ended, starts, ?_, ?_, ?_⟩
    · intro k member
      have inside := before k.extent (List.mem_map_of_mem member)
      rw [Nat.zero_add] at inside
      exact ⟨ordered k member, inside⟩
    · exact List.pairwise_map.mp right.apart
    · intro i line here
      rw [right.inner i line here]
      simp [Draft.extent, Reader.scanned]

end Positional

end Netlist.Blif
