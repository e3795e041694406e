import Netlist.Buffer
import Mathlib.Data.List.Basic

/-!
# Buffers that calls have made

Whatever is called on a buffer, its entries stay those of a plain list on which the same is done, and
each call answers what the list gives. The capacity never falls. It never lags behind the size, and
nothing but a reservation of more room or a push onto a full buffer changes it.
-/

namespace Netlist.Buffer

variable {α : Type}

inductive Origin (α : Type) where
  | empty
  | withCapacity (n : Nat)
  | collected (l : List α)

def Origin.buffer : Origin α → Buffer α
  | empty => ∅
  | withCapacity n => .withCapacity n
  | collected l => .ofList l

def Origin.entries : Origin α → List α
  | collected l => l
  | _ => []

inductive Call (α : Type) where
  | push (a : α)
  | append (l : List α)
  | reserve (n : Nat)
  | get (i : Nat)
  | replace (i : Nat) (a : α)
  | eraseAt (i : Nat)
  | erase (a : α)
  deriving DecidableEq

inductive Answer (α : Type) where
  | done
  | entry (a : α)
  | outOfRange (e : OutOfRange)
  | violated (v : Violation)
  deriving DecidableEq

namespace Call

def asksForRoom : Call α → Bool
  | push _ | append _ | reserve _ => true
  | _ => false

def position? : Call α → Option Nat
  | get i | replace i _ | eraseAt i => some i
  | _ => none

/-- What a call does to a plain list. Of several equal entries the last one is erased. -/
inductive OnList : Call α → List α → Answer α → List α → Prop where
  | push (a : α) (l : List α) : OnList (.push a) l .done (l ++ [a])
  | append (more l : List α) : OnList (.append more) l .done (l ++ more)
  | reserve (n : Nat) (l : List α) : OnList (.reserve n) l .done l
  | get (before : List α) (a : α) (after : List α) :
      OnList (.get before.length) (before ++ a :: after) (.entry a) (before ++ a :: after)
  | replace (before : List α) (old new : α) (after : List α) :
      OnList (.replace before.length new) (before ++ old :: after) (.entry old) (before ++ new :: after)
  | eraseAt (before : List α) (a : α) (after : List α) :
      OnList (.eraseAt before.length) (before ++ a :: after) (.entry a) (before ++ after)
  | outside {c : Call α} {i : Nat} {l : List α} (at_position : c.position? = some i)
      (beyond : l.length ≤ i) : OnList c l (.outOfRange ⟨i, l.length⟩) l
  | erase (before : List α) (a : α) (after : List α) (last : a ∉ after) :
      OnList (.erase a) (before ++ a :: after) .done (before ++ after)
  | absent (a : α) (l : List α) (absent : a ∉ l) : OnList (.erase a) l (.violated .absentEntry) l

inductive AllOnList : List (Call α) → List α → List (Answer α) → List α → Prop where
  | nil (l : List α) : AllOnList [] l [] l
  | cons {c : Call α} {calls : List (Call α)} {l l' l'' : List α} {a : Answer α}
      {answers : List (Answer α)} (first : c.OnList l a l') (rest : AllOnList calls l' answers l'') :
      AllOnList (c :: calls) l (a :: answers) l''

end Call

/-- The answer to a call that may find its position outside of `b`, and what it leaves. -/
def answer (b : Buffer α) : Except OutOfRange (α × Buffer α) → Answer α × Buffer α
  | .ok (a, changed) => (.entry a, changed)
  | .error e => (.outOfRange e, b)

variable {b : Buffer α} {x : α} {before after : List α} {i : Nat}

/-! ### Entries -/

theorem length_toList (b : Buffer α) : b.toList.length = b.size := Array.length_toList

theorem get_eq (b : Buffer α) (i : Nat) :
    b.get i = (b.toList[i]?).elim (.error ⟨i, b.size⟩) .ok := by
  rw [get, toList, Array.getElem?_toList]
  cases b.items[i]? <;> rfl

theorem get_inside (here : b.toList = before ++ x :: after) : b.get before.length = .ok x := by
  simp [get_eq, here]

theorem get_outside (beyond : b.size ≤ i) : b.get i = .error ⟨i, b.size⟩ := by
  rw [get_eq, List.getElem?_eq_none (by rwa [length_toList])]
  rfl

theorem replace_inside (here : b.toList = before ++ x :: after) (new : α) :
    ∃ changed, b.replace before.length new = .ok (x, changed) ∧
      changed.toList = before ++ new :: after ∧ changed.capacity = b.capacity := by
  refine ⟨{ b with items := b.items.setIfInBounds before.length new }, ?_, ?_, rfl⟩
  · rw [replace, get_inside here]
    rfl
  · have entries : b.items.toList = before ++ x :: after := here
    simp [toList, entries]

theorem eraseAt_inside (here : b.toList = before ++ x :: after) :
    ∃ changed, b.eraseAt before.length = .ok (x, changed) ∧
      changed.toList = before ++ after ∧ changed.capacity = b.capacity := by
  refine ⟨{ b with items := b.items.eraseIdxIfInBounds before.length }, ?_, ?_, rfl⟩
  · rw [eraseAt, get_inside here]
    rfl
  · have entries : b.items.toList = before ++ x :: after := here
    simp [toList, entries, List.eraseIdx_append_of_length_le]

/-! ### Room -/

def Fits (b : Buffer α) : Prop := b.size ≤ b.capacity

theorem size_push (b : Buffer α) (x : α) : (b.push x).size = b.size + 1 := by
  rw [← length_toList, ← length_toList, toList_push, List.length_append, List.length_singleton]

theorem capacity_push (b : Buffer α) (x : α) : (b.push x).capacity =
    if b.size = b.capacity then if b.capacity < 16 then 16 else 2 * b.capacity else b.capacity := by
  by_cases full : b.size = b.capacity
  · have target : b.capacity ≤ if b.capacity < 16 then 16 else 2 * b.capacity := by
      split <;> omega
    rw [push, makeRoom, if_pos full, if_pos full]
    exact Nat.max_eq_right target
  · rw [push, makeRoom, if_neg full, if_neg full]

theorem Fits.push (fits : b.Fits) (x : α) : (b.push x).Fits := by
  unfold Fits at *
  rw [size_push, capacity_push]
  split_ifs <;> omega

theorem capacity_le_push (b : Buffer α) (x : α) : b.capacity ≤ (b.push x).capacity := by
  rw [capacity_push]
  split_ifs <;> omega

theorem Fits.append (fits : b.Fits) (l : List α) : (b.append l).Fits := by
  unfold Buffer.append
  induction l generalizing b with
  | nil => exact fits
  | cons x l ih => exact ih (fits.push x)

theorem capacity_le_append (b : Buffer α) (l : List α) : b.capacity ≤ (b.append l).capacity := by
  unfold Buffer.append
  induction l generalizing b with
  | nil => exact Nat.le_refl _
  | cons x l ih => exact Nat.le_trans (b.capacity_le_push x) (ih (b.push x))

theorem Origin.toList_buffer (o : Origin α) : o.buffer.toList = o.entries := by
  cases o with
  | empty => rfl
  | withCapacity n => rfl
  | collected l => exact toList_ofList l

theorem Origin.fits (o : Origin α) : o.buffer.Fits := by
  cases o with
  | empty => exact Nat.zero_le _
  | withCapacity n => exact Nat.zero_le _
  | collected l => exact Fits.append (b := ∅) (Nat.zero_le _) l

variable [DecidableEq α]

theorem erase_last (here : b.toList = before ++ x :: after) (last : x ∉ after) :
    ∃ changed, b.erase x = .ok changed ∧
      changed.toList = before ++ after ∧ changed.capacity = b.capacity := by
  refine ⟨_, if_pos (by simp [here]), ?_, rfl⟩
  have other : x ∉ after.reverse := by simpa using last
  calc (b.toList.reverse.erase x).reverse
      = ((after.reverse ++ x :: before.reverse).erase x).reverse := by simp [here]
    _ = (after.reverse ++ before.reverse).reverse := by
      rw [List.erase_append_right _ other, List.erase_cons_head]
    _ = before ++ after := by simp

theorem erase_absent (absent : x ∉ b.toList) : b.erase x = .error .absentEntry := if_neg absent

/-- A call with its answer and what it leaves of the buffer, also if it fails. -/
def Call.run (b : Buffer α) : Call α → Answer α × Buffer α
  | push a => (.done, b.push a)
  | append l => (.done, b.append l)
  | reserve n => (.done, b.reserve n)
  | get i => b.answer ((b.get i).map (·, b))
  | replace i a => b.answer (b.replace i a)
  | eraseAt i => b.answer (b.eraseAt i)
  | erase a =>
    match b.erase a with
    | .ok changed => (.done, changed)
    | .error v => (.violated v, b)

def run (b : Buffer α) : List (Call α) → List (Answer α) × Buffer α
  | [] => ([], b)
  | c :: calls => ((c.run b).1 :: (run (c.run b).2 calls).1, (run (c.run b).2 calls).2)

variable {c : Call α} {a : Answer α} {l l' : List α}

theorem Call.run_outside (at_position : c.position? = some i) (beyond : b.size ≤ i) :
    c.run b = (.outOfRange ⟨i, b.size⟩, b) := by
  cases c with
  | get j =>
    obtain rfl := Option.some.inj at_position
    rw [run, get_outside beyond]
    rfl
  | replace j new =>
    obtain rfl := Option.some.inj at_position
    rw [run, Buffer.replace, get_outside beyond]
    rfl
  | eraseAt j =>
    obtain rfl := Option.some.inj at_position
    rw [run, Buffer.eraseAt, get_outside beyond]
    rfl
  | _ => cases at_position

/-- A call that makes no room does to the buffer what it does to a list. -/
theorem Call.OnList.run_plain (onList : c.OnList l a l') (entries : b.toList = l)
    (plain : c.asksForRoom = false) :
    ∃ changed, c.run b = (a, changed) ∧ changed.toList = l' ∧ changed.capacity = b.capacity := by
  cases onList with
  | push | append | reserve => cases plain
  | get before x after =>
    refine ⟨b, ?_, entries, rfl⟩
    rw [run, get_inside entries]
    rfl
  | replace before old new after =>
    obtain ⟨changed, ended, left⟩ := replace_inside entries new
    refine ⟨changed, ?_, left⟩
    rw [run, ended]
    rfl
  | eraseAt before x after =>
    obtain ⟨changed, ended, left⟩ := eraseAt_inside entries
    refine ⟨changed, ?_, left⟩
    rw [run, ended]
    rfl
  | outside at_position beyond =>
    have size : b.size = l.length := by rw [← entries, length_toList]
    refine ⟨b, ?_, entries, rfl⟩
    rw [run_outside at_position (by rwa [size]), size]
  | erase before x after last =>
    obtain ⟨changed, ended, left⟩ := erase_last entries last
    refine ⟨changed, ?_, left⟩
    rw [run, ended]
  | absent x l absent =>
    refine ⟨b, ?_, entries, rfl⟩
    rw [run, erase_absent (by rwa [entries])]

/-- What a list makes of a call is what the buffer makes of it. -/
theorem Call.OnList.run_eq (onList : c.OnList l a l') (entries : b.toList = l) :
    (c.run b).1 = a ∧ (c.run b).2.toList = l' := by
  cases asked : c.asksForRoom with
  | false =>
    obtain ⟨changed, ended, left, -⟩ := onList.run_plain entries asked
    rw [ended]
    exact ⟨rfl, left⟩
  | true =>
    cases onList with
    | push x => exact ⟨rfl, by simp [run, entries]⟩
    | append more => exact ⟨rfl, by simp [run, entries]⟩
    | reserve n => exact ⟨rfl, entries⟩
    | outside at_position =>
      cases c with
      | push | append | reserve => cases at_position
      | _ => cases asked
    | _ => cases asked

omit [DecidableEq α] in
/-- A position is outside of a list or divides it at an entry. -/
theorem outside_or_divides (i : Nat) (l : List α) :
    l.length ≤ i ∨ ∃ before x after, l = before ++ x :: after ∧ i = before.length := by
  by_cases beyond : l.length ≤ i
  · exact .inl beyond
  · have inside : i < l.length := Nat.lt_of_not_le beyond
    refine .inr ⟨l.take i, l[i], l.drop (i + 1), ?_, by simp [Nat.le_of_lt inside]⟩
    rw [List.getElem_cons_drop, List.take_append_drop]

/-- A list makes something of every call. -/
theorem Call.exists_onList (c : Call α) (l : List α) : ∃ a l', c.OnList l a l' := by
  cases c with
  | push x => exact ⟨_, _, .push x l⟩
  | append more => exact ⟨_, _, .append more l⟩
  | reserve n => exact ⟨_, _, .reserve n l⟩
  | get i =>
    rcases outside_or_divides i l with beyond | ⟨before, x, after, rfl, rfl⟩
    · exact ⟨_, _, .outside rfl beyond⟩
    · exact ⟨_, _, .get before x after⟩
  | replace i new =>
    rcases outside_or_divides i l with beyond | ⟨before, x, after, rfl, rfl⟩
    · exact ⟨_, _, .outside rfl beyond⟩
    · exact ⟨_, _, .replace before x new after⟩
  | eraseAt i =>
    rcases outside_or_divides i l with beyond | ⟨before, x, after, rfl, rfl⟩
    · exact ⟨_, _, .outside rfl beyond⟩
    · exact ⟨_, _, .eraseAt before x after⟩
  | erase x =>
    by_cases member : x ∈ l.reverse
    · obtain ⟨later, earlier, backwards, last⟩ := List.eq_append_cons_of_mem member
      have whole : l = earlier.reverse ++ x :: later.reverse := by
        simpa using congrArg List.reverse backwards
      rw [whole]
      exact ⟨_, _, .erase earlier.reverse x later.reverse (by simpa using last)⟩
    · exact ⟨_, _, .absent x l (by simpa using member)⟩

theorem Call.onList_iff :
    c.OnList b.toList a l ↔ (c.run b).1 = a ∧ (c.run b).2.toList = l := by
  refine ⟨fun onList => onList.run_eq rfl, ?_⟩
  rintro ⟨rfl, rfl⟩
  obtain ⟨a, l, onList⟩ := c.exists_onList b.toList
  obtain ⟨answered, left⟩ := onList.run_eq rfl
  rwa [answered, left]

theorem allOnList_iff {calls : List (Call α)} {answers : List (Answer α)} :
    Call.AllOnList calls b.toList answers l ↔ (b.run calls).1 = answers ∧ (b.run calls).2.toList = l := by
  induction calls generalizing b answers with
  | nil =>
    constructor
    · rintro ⟨⟩
      exact ⟨rfl, rfl⟩
    · rintro ⟨rfl, rfl⟩
      exact .nil _
  | cons c calls ih =>
    constructor
    · rintro (_ | ⟨first, rest⟩)
      obtain ⟨rfl, rfl⟩ := Call.onList_iff.mp first
      obtain ⟨rfl, rfl⟩ := ih.mp rest
      exact ⟨rfl, rfl⟩
    · rintro ⟨rfl, rfl⟩
      exact .cons (Call.onList_iff.mpr ⟨rfl, rfl⟩) (ih.mpr ⟨rfl, rfl⟩)

/-! ### Capacity of calls -/

omit [DecidableEq α] in
theorem Call.OnList.length_le (onList : c.OnList l a l') (plain : c.asksForRoom = false) :
    l'.length ≤ l.length := by
  cases onList with
  | push | append | reserve => cases plain
  | eraseAt before x after | erase before x after last => simp
  | replace before old new after => simp
  | _ => exact Nat.le_refl _

theorem Call.capacity_run (b : Buffer α) (plain : c.asksForRoom = false) :
    (c.run b).2.capacity = b.capacity := by
  obtain ⟨a, l, onList⟩ := c.exists_onList b.toList
  obtain ⟨changed, ended, -, kept⟩ := onList.run_plain rfl plain
  rw [ended]
  exact kept

theorem Call.size_run (b : Buffer α) (plain : c.asksForRoom = false) : (c.run b).2.size ≤ b.size := by
  obtain ⟨a, l, onList⟩ := c.exists_onList b.toList
  have left := (onList.run_eq rfl).2
  rw [← length_toList, ← length_toList, left]
  exact onList.length_le plain

/-- There is still room for all entries after a call, and no less of it. -/
theorem Fits.run_call (fits : b.Fits) (c : Call α) :
    (c.run b).2.Fits ∧ b.capacity ≤ (c.run b).2.capacity := by
  cases asked : c.asksForRoom with
  | false =>
    have kept := Call.capacity_run b asked
    have fewer := Call.size_run b asked
    exact ⟨Nat.le_trans fewer (kept ▸ fits), Nat.le_of_eq kept.symm⟩
  | true =>
    cases c with
    | push x => exact ⟨fits.push x, b.capacity_le_push x⟩
    | append more => exact ⟨fits.append more, b.capacity_le_append more⟩
    | reserve n => exact ⟨Nat.le_trans fits (Nat.le_max_left _ n), Nat.le_max_left _ n⟩
    | _ => cases asked

theorem Fits.run (fits : b.Fits) (calls : List (Call α)) : (b.run calls).2.Fits := by
  induction calls generalizing b with
  | nil => exact fits
  | cons c calls ih => exact ih (fits.run_call c).1

inductive Call.Widens (b : Buffer α) : Call α → Nat → Prop where
  | reserve (n : Nat) (larger : b.capacity < n) : Widens b (.reserve n) n
  | first (x : α) (full : b.size = b.capacity) (low : b.capacity < 16) : Widens b (.push x) 16
  | double (x : α) (full : b.size = b.capacity) (high : 16 ≤ b.capacity) :
      Widens b (.push x) (2 * b.capacity)

theorem Call.widens_iff (single : ∀ more, c ≠ .append more) {n : Nat} :
    c.Widens b n ↔ (c.run b).2.capacity = n ∧ n ≠ b.capacity := by
  constructor
  · rintro (⟨n, larger⟩ | ⟨x, full, low⟩ | ⟨x, full, high⟩)
    · exact ⟨Nat.max_eq_right (Nat.le_of_lt larger), Nat.ne_of_gt larger⟩
    · rw [run, capacity_push, if_pos full, if_pos low]
      omega
    · rw [run, capacity_push, if_pos full, if_neg (Nat.not_lt.mpr high)]
      omega
  · rintro ⟨rfl, changed⟩
    cases c with
    | push x =>
      simp only [run, capacity_push] at changed ⊢
      split_ifs at changed ⊢ with full low
      · exact .first x full low
      · exact .double x full (Nat.le_of_not_lt low)
      · exact absurd rfl changed
    | append more => exact absurd rfl (single more)
    | reserve n =>
      have larger : b.capacity < n := by
        by_contra small
        exact changed (Nat.max_eq_left (Nat.le_of_not_lt small))
      have exactly : (b.reserve n).capacity = n := Nat.max_eq_right (Nat.le_of_lt larger)
      rw [run, exactly]
      exact .reserve n larger
    | _ => exact absurd (capacity_run b rfl) changed

/-- To append is to push one entry after the other. -/
theorem run_pushes (b : Buffer α) (l : List α) : (b.run (l.map .push)).2 = b.append l := by
  unfold append
  induction l generalizing b with
  | nil => rfl
  | cons x l ih => exact ih (b.push x)

theorem run_append (b : Buffer α) (calls more : List (Call α)) :
    (b.run (calls ++ more)).2 = ((b.run calls).2.run more).2 := by
  induction calls generalizing b with
  | nil => rfl
  | cons c calls ih => exact ih (c.run b).2

/-- After any calls on a buffer of any origin, the answers and the entries are those of a plain list, and
there is room for all entries. Whatever is called next, the capacity does not fall. A single call changes
it only if it reserves more than there is, or pushes onto a full buffer, and to append is to push one entry
after the other. A call that fails leaves the buffer as it was. -/
theorem run_refines_list (o : Origin α) (calls : List (Call α)) :
    let b := (o.buffer.run calls).2
    (∀ answers l, Call.AllOnList calls o.entries answers l ↔
      (o.buffer.run calls).1 = answers ∧ b.toList = l) ∧
    b.size ≤ b.capacity ∧
    (∀ c, b.capacity ≤ (o.buffer.run (calls ++ [c])).2.capacity) ∧
    (∀ (c : Call α) n, (∀ l, c ≠ .append l) →
      (c.Widens b n ↔ (o.buffer.run (calls ++ [c])).2.capacity = n ∧ n ≠ b.capacity)) ∧
    (∀ l, (o.buffer.run (calls ++ [.append l])).2 = (o.buffer.run (calls ++ l.map .push)).2) ∧
    (∀ (c : Call α) i, c.position? = some i → b.size ≤ i → c.run b = (.outOfRange ⟨i, b.size⟩, b)) ∧
    ∀ x, x ∉ b.toList → (Call.erase x).run b = (.violated .absentEntry, b) := by
  intro b
  have fits : b.Fits := o.fits.run calls
  have next (more : List (Call α)) : (o.buffer.run (calls ++ more)).2 = (b.run more).2 :=
    run_append o.buffer calls more
  refine ⟨fun answers l => ?_, fits, fun c => ?_, fun c n single => ?_, fun l => ?_, fun c i => ?_,
    fun x absent => ?_⟩
  · rw [← o.toList_buffer]
    exact allOnList_iff
  · rw [next]
    exact (fits.run_call c).2
  · rw [next]
    exact Call.widens_iff single
  · rw [next, next, run_pushes]
    rfl
  · exact Call.run_outside
  · rw [Call.run, erase_absent absent]

/-- Eight slots, then nine, then sixteen; the last of four equal entries goes. -/
def mixedCalls : List (Call Nat) :=
  [.append [1, 2, 3, 2, 1, 2, 3, 4], .reserve 9, .push 2, .push 5, .erase 2, .eraseAt 0]

theorem run_refines_list_mixedCalls :
    let b := ((Origin.withCapacity 3).buffer.run mixedCalls).2
    Call.AllOnList mixedCalls [] [.done, .done, .done, .done, .done, .entry 1] [2, 3, 2, 1, 2, 3, 4, 5] ∧
    (Call.replace 8 0).run b = (.outOfRange ⟨8, 8⟩, b) ∧
    (Call.erase 7).run b = (.violated .absentEntry, b) ∧
    (Call.push 5).Widens ((Origin.withCapacity 3).buffer.run (mixedCalls.take 3)).2 16 := by
  obtain ⟨onList, -, -, -, -, outside, absent⟩ := run_refines_list (.withCapacity 3) mixedCalls
  obtain ⟨-, -, -, widens, -⟩ := run_refines_list (.withCapacity 3) (mixedCalls.take 3)
  have size : ((Origin.withCapacity 3).buffer.run mixedCalls).2.size = 8 := by decide +kernel
  refine ⟨(onList _ _).mpr ⟨by decide +kernel, by decide +kernel⟩, ?_, absent 7 (by decide +kernel), ?_⟩
  · simpa only [size] using outside (.replace 8 0) 8 rfl (Nat.le_of_eq size)
  · exact (widens (.push 5) 16 nofun).mpr ⟨by decide +kernel, by decide +kernel⟩

end Netlist.Buffer
