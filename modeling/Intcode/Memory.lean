import Intcode.Fault

/-!
# Memory

Memory is a row of integer cells that grows when an address beyond its end is reached. New cells
hold zero, so growth is visible in the size alone and never in `Memory.read`. Growth is kept when
the access that caused it fails afterwards.
-/

namespace Intcode

/-- The cells of a machine, from address zero on. -/
structure Memory where
  cells : Array Int
deriving DecidableEq, Repr, Inhabited

namespace Memory

/-- A memory that holds exactly the given cells. -/
def ofImage (image : Array Int) : Memory := ⟨image⟩

/-- The number of cells. -/
def size (m : Memory) : Nat := m.cells.size

/-- The cell at an address, if there is one. -/
def get? (m : Memory) (a : Nat) : Option Int := m.cells[a]?

/-- The value at an address, which is zero beyond the end. -/
def read (m : Memory) (a : Nat) : Int := (m.get? a).getD 0

/-- Append zeros up to a size of at least `n`. -/
def extend (m : Memory) (n : Nat) : Memory :=
  ⟨m.cells ++ Array.replicate (n - m.cells.size) 0⟩

/-- Overwrite an existing cell. -/
def write (m : Memory) (a : Nat) (v : Int) : Memory := ⟨m.cells.setIfInBounds a v⟩

/-- The number that the parameter cell at `location` gives for the address of its operand. -/
def denoted (m : Memory) (mode : Mode) (location : Nat) (base : Int) : Int :=
  match mode with
  | .immediate => location
  | .position => m.read location
  | .relative => m.read location + base

/-- The cells that differ from zero, with their addresses in increasing order. -/
def nonzero (m : Memory) : List (Nat × Int) :=
  m.cells.toList.zipIdx.filterMap fun (v, a) => if v = 0 then none else some (a, v)

@[simp] theorem size_extend (m : Memory) (n : Nat) : (m.extend n).size = max m.size n := by
  simp only [size, extend, Array.size_append, Array.size_replicate]
  omega

@[simp] theorem size_write (m : Memory) (a : Nat) (v : Int) : (m.write a v).size = m.size := by
  simp [size, write]

/-- Growth cannot be seen by reading. -/
@[simp] theorem read_extend (m : Memory) (n a : Nat) : (m.extend n).read a = m.read a := by
  simp only [read, get?, extend, Array.getElem?_append, Array.getElem?_replicate]
  split
  · rfl
  · next h =>
    rw [Array.getElem?_eq_none (Nat.le_of_not_lt h)]
    split <;> rfl

theorem read_write (m : Memory) (a b : Nat) (v : Int) (h : a < m.size) :
    (m.write a v).read b = if a = b then v else m.read b := by
  simp only [size] at h
  by_cases hab : a = b
  · subst hab
    simp [read, get?, write, h]
  · simp [read, get?, write, hab]

/-- A memory that is long enough stays as it is. -/
theorem extend_of_le (m : Memory) (n : Nat) (h : n ≤ m.size) : m.extend n = m := by
  simp only [size] at h
  simp [extend, Nat.sub_eq_zero_of_le h]

end Memory

/-- A computation that may grow and change memory and may fail, keeping what it did so far. -/
abbrev Access (α : Type) := ExceptT Fault (StateM Memory) α

namespace Access

variable {α β : Type}

/-- An access given by its result and the memory that it leaves. -/
def of (f : Memory → Except Fault α × Memory) : Access α := ExceptT.mk f

/-- Run an access on a memory. -/
def exec (x : Access α) (m : Memory) : Except Fault α × Memory := (x.run).run m

@[simp] theorem exec_of (f : Memory → Except Fault α × Memory) (m : Memory) :
    (of f).exec m = f m := rfl

@[simp] theorem exec_pure (a : α) (m : Memory) : exec (pure a) m = (.ok a, m) := rfl

@[simp] theorem exec_throw (e : Fault) (m : Memory) :
    exec (throw e : Access α) m = (.error e, m) := rfl

@[simp] theorem exec_lift (r : Except Fault α) (m : Memory) :
    exec (liftM r : Access α) m = (r, m) := rfl

/-- The second access starts from the memory that the first one leaves. -/
theorem exec_bind (x : Access α) (f : α → Access β) (m : Memory) :
    exec (x >>= f) m =
      match x.exec m with
      | (.ok a, m') => (f a).exec m'
      | (.error e, m') => (.error e, m') := by
  change StateT.run ((x >>= f).run) m = _
  simp only [ExceptT.run_bind, StateT.run_bind, exec]
  rcases StateT.run x.run m with ⟨_ | _, _⟩ <;> rfl

end Access

namespace Memory

/-- Grow memory until an address is valid. Only the last address of all is out of reach. -/
def ensure (a : Nat) : Access Unit := .of fun m =>
  if a < m.size then (.ok (), m)
  else if a + 1 < addressSpace then (.ok (), m.extend (a + 1))
  else (.error (.addressOutOfRange a), m)

/-- In a memory that fits the address space, every address but the last is made valid. -/
theorem exec_ensure (a : Nat) (m : Memory) (h : m.size < addressSpace) :
    (ensure a).exec m =
      if a + 1 < addressSpace then (.ok (), m.extend (a + 1))
      else (.error (.addressOutOfRange a), m) := by
  simp only [ensure, Access.exec_of]
  by_cases ha : a < m.size
  · have hs : a + 1 < addressSpace := by omega
    rw [if_pos ha, if_pos hs, extend_of_le m (a + 1) ha]
  · rw [if_neg ha]

/-- Read the cell at an address, growing memory if needed. -/
def load (a : Nat) : Access Int := do
  ensure a
  .of fun m => (.ok (m.read a), m)

/-- Loading gives the value that reading gives, and grows memory just far enough. -/
theorem exec_load (a : Nat) (m : Memory) (h : m.size < addressSpace) :
    (load a).exec m =
      if a + 1 < addressSpace then (.ok (m.read a), m.extend (a + 1))
      else (.error (.addressOutOfRange a), m) := by
  simp only [load, Access.exec_bind, exec_ensure a m h]
  by_cases hs : a + 1 < addressSpace
  · simp [hs]
  · simp [hs]

/-- Write the cell at an address, growing memory if needed. -/
def store (a : Nat) (v : Int) : Access Unit := do
  ensure a
  .of fun m => (.ok (), m.write a v)

/-- Storing grows memory just far enough and then writes. -/
theorem exec_store (a : Nat) (v : Int) (m : Memory) (h : m.size < addressSpace) :
    (store a v).exec m =
      if a + 1 < addressSpace then (.ok (), (m.extend (a + 1)).write a v)
      else (.error (.addressOutOfRange a), m) := by
  simp only [store, Access.exec_bind, exec_ensure a m h]
  by_cases hs : a + 1 < addressSpace
  · simp [hs]
  · simp [hs]

/-- Take a number for an address. -/
def toAddress (v : Int) : Except Fault Nat :=
  if v < 0 then .error (.negativeAddress v)
  else if v.toNat < addressSpace then .ok v.toNat
  else .error (.addressOutOfRange v.toNat)

/-- Find the operand of the parameter cell at `location` and make its address valid. -/
def resolve (mode : Mode) (location : Nat) (base : Int) : Access Nat := do
  let a ← match mode with
    | .immediate => pure location
    | .position => do toAddress (← load location)
    | .relative => do toAddress ((← load location) + base)
  ensure a
  return a

/-- The operations that the holder of a memory can perform. -/
inductive Op
  | measure
  | get (a : Nat)
  | load (a : Nat)
  | store (a : Nat) (v : Int)
  | resolve (mode : Mode) (location : Nat) (base : Int)
  /-- Drop all cells and take over an image. -/
  | reset (image : Array Int)
  /-- List the cells that differ from zero. -/
  | dump

/-- The answers to memory operations. -/
inductive Reply
  | done
  | size (n : Nat)
  | value (v : Option Int)
  | address (a : Nat)
  | cells (size : Nat) (nonzero : List (Nat × Int))
  | failed (fault : Fault)
deriving DecidableEq, Repr

/-- Answer with the result of an access, and keep the memory that it leaves. -/
def answer {α : Type} (m : Memory) (x : Access α) (reply : α → Reply) : Reply × Memory :=
  match x.exec m with
  | (.ok a, m) => (reply a, m)
  | (.error e, m) => (.failed e, m)

/-- Perform an operation on a memory. -/
def perform (m : Memory) : Op → Reply × Memory
  | .measure => (.size m.size, m)
  | .get a => (.value (m.get? a), m)
  | .load a => m.answer (load a) fun v => .value v
  | .store a v => m.answer (store a v) fun _ => .done
  | .resolve mode location base => m.answer (resolve mode location base) .address
  | .reset image => (.done, ofImage image)
  | .dump => (.cells m.size m.nonzero, m)

end Memory

end Intcode
