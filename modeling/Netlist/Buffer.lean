import Netlist.Violation

/-!
# Buffers grow by a fixed policy

A buffer records its capacity apart from its entries, so that growth can be followed exactly. A
requested capacity of one to seven slots is rounded up to eight. A push onto a full buffer takes
the capacity to sixteen, and once it has reached sixteen doubles it. `reserve` takes it to the
requested number. Nothing lowers it. Two buffers are equal when both entries and capacity agree.
-/

namespace Netlist

structure OutOfRange where
  index : Nat
  size : Nat
  deriving DecidableEq, Repr

def OutOfRange.message (e : OutOfRange) : String :=
  s!"index {e.index} is out of range for an array of size {e.size}"

structure Buffer (α : Type) where
  capacity : Nat := 0
  items : Array α := #[]
  deriving DecidableEq, Repr

namespace Buffer

variable {α : Type}

instance : EmptyCollection (Buffer α) := ⟨{}⟩

def withCapacity (n : Nat) : Buffer α :=
  { capacity := if 0 < n ∧ n < 8 then 8 else n }

def size (b : Buffer α) : Nat := b.items.size

def isEmpty (b : Buffer α) : Bool := b.items.isEmpty

def toList (b : Buffer α) : List α := b.items.toList

def reserve (b : Buffer α) (n : Nat) : Buffer α :=
  { b with capacity := max b.capacity n }

def makeRoom (b : Buffer α) : Buffer α :=
  if b.size = b.capacity then b.reserve (if b.capacity < 16 then 16 else 2 * b.capacity) else b

def push (b : Buffer α) (a : α) : Buffer α :=
  let roomy := b.makeRoom
  { roomy with items := roomy.items.push a }

def append (b : Buffer α) (l : List α) : Buffer α := l.foldl push b

def ofList (l : List α) : Buffer α := append ∅ l

@[simp] theorem toList_makeRoom (b : Buffer α) : b.makeRoom.toList = b.toList := by
  unfold makeRoom
  split <;> rfl

@[simp] theorem toList_push (b : Buffer α) (a : α) : (b.push a).toList = b.toList ++ [a] := by
  have roomy : b.makeRoom.items.toList = b.items.toList := b.toList_makeRoom
  simp only [push, toList, Array.toList_push, roomy]

@[simp] theorem toList_append (b : Buffer α) (l : List α) :
    (b.append l).toList = b.toList ++ l := by
  unfold append
  induction l generalizing b with
  | nil => simp
  | cons a l ih => simp [ih]

@[simp] theorem toList_ofList (l : List α) : (ofList l).toList = l := by
  simp only [ofList, toList_append]
  rfl

def get (b : Buffer α) (i : Nat) : Except OutOfRange α :=
  match b.items[i]? with
  | some a => .ok a
  | none => .error ⟨i, b.size⟩

def replace (b : Buffer α) (i : Nat) (a : α) : Except OutOfRange (α × Buffer α) := do
  let old ← b.get i
  return (old, { b with items := b.items.setIfInBounds i a })

/-- Removes the entry at position `i`; later entries move up by one. -/
def eraseAt (b : Buffer α) (i : Nat) : Except OutOfRange (α × Buffer α) := do
  let old ← b.get i
  return (old, { b with items := b.items.eraseIdxIfInBounds i })

/-- Access for a caller that promises that `i` is a position of the buffer. -/
def fetch (b : Buffer α) (i : Nat) : Except Violation α :=
  (b.get i).mapError fun e => .indexOutOfBounds e.size e.index

def set (b : Buffer α) (i : Nat) (a : α) : Except Violation (Buffer α) :=
  match b.replace i a with
  | .ok (_, b) => .ok b
  | .error e => .error (.indexOutOfBounds e.size e.index)

def fill (b : Buffer α) (a : α) : Buffer α := { b with items := b.items.map fun _ => a }

def head? (b : Buffer α) : Option α := b.items[0]?

variable [DecidableEq α]

def contains (b : Buffer α) (a : α) : Bool := b.items.contains a

/-- Removes the last entry equal to `a`, for a caller that promises that there is one. -/
def erase (b : Buffer α) (a : α) : Except Violation (Buffer α) :=
  if a ∈ b.toList then .ok { b with items := (b.toList.reverse.erase a).reverse.toArray }
  else .error .absentEntry

end Buffer

def Buffer.listing (render : α → String) (b : Buffer α) : String :=
  "[" ++ ", ".intercalate (b.toList.map render) ++ "]"

end Netlist
