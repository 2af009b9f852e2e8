import Intcode.Instruction
import Intcode.Memory

/-!
# Effects of instructions

Carrying out an instruction changes memory and yields the rest of its effect as a value: where
the machine goes on, the new relative base, and the value it took in or gave out. The target of a
result is found before the operands, and every check comes before the only write.
-/

namespace Intcode

/-- The value that an instruction exchanges with a channel. -/
inductive Transfer
  | none
  /-- The value was taken from the input channel. -/
  | took (v : Int)
  /-- The value was sent to the output channel. -/
  | sent (v : Int)
deriving DecidableEq, Repr

/-- What an executed instruction does outside memory. -/
structure Effect where
  opcode : Opcode
  pc : Nat
  base : Int
  halted : Bool
  transfer : Transfer
deriving DecidableEq, Repr

/-- The address `k` cells further on, if there is one. -/
def displace (a k : Nat) : Except Fault Nat :=
  if a + k < addressSpace then .ok (a + k) else .error (.addressOutOfRange (a + k))

/-- Take a number for the target of a jump. -/
def jumpTarget (v : Int) : Except Fault Nat :=
  if 0 ≤ v ∧ v.toNat < addressSpace then .ok v.toNat else .error (.jumpOutOfRange v)

namespace Instruction

variable (pc : Nat) (base : Int)

/-- Find the address of the operand of the `k`-th parameter. -/
def locate (k : Nat) (mode : Mode) : Access Nat := do
  Memory.resolve mode (← displace pc k) base

/-- Read the operand of the `k`-th parameter. -/
def operand (k : Nat) (mode : Mode) : Access Int := do
  Memory.load (← locate pc base k mode)

/-- Find the cell that receives the result, named by the `k`-th parameter. -/
def target (opcode : Opcode) (k : Nat) (mode : Mode) : Access Nat :=
  if mode = .immediate then throw (.immediateTarget opcode pc) else locate pc base k mode

/-- Store a function of two operands. -/
def compute (opcode : Opcode) (f : Int → Int → Int) (left right dst : Mode) : Access Effect := do
  let cell ← target pc base opcode 3 dst
  let next ← displace pc 4
  let a ← operand pc base 1 left
  let b ← operand pc base 2 right
  Memory.store cell (f a b)
  return ⟨opcode, next, base, false, .none⟩

/-- Go to the second operand if the first one satisfies the condition. -/
def jump (opcode : Opcode) (taken : Int → Bool) (condition dst : Mode) : Access Effect := do
  let next ← displace pc 3
  let a ← operand pc base 1 condition
  let b ← operand pc base 2 dst
  if taken a then
    return ⟨opcode, ← jumpTarget b, base, false, .none⟩
  else
    return ⟨opcode, next, base, false, .none⟩

/-- Store the value at the front of the input channel. -/
def takeInput (front : Option Int) (dst : Mode) : Access Effect := do
  let cell ← target pc base .input 1 dst
  let next ← displace pc 2
  match front with
  | some v => do
    Memory.store cell v
    return ⟨.input, next, base, false, .took v⟩
  | none => throw .inputDisconnected

/-- Carry out an instruction at `pc`, with `front` the value waiting on the input channel. -/
def perform (front : Option Int) : Instruction → Access Effect
  | .add a b c => compute pc base .add (· + ·) a b c
  | .mul a b c => compute pc base .mul (· * ·) a b c
  | .lessThan a b c => compute pc base .lessThan (fun x y => if x < y then 1 else 0) a b c
  | .equals a b c => compute pc base .equals (fun x y => if x = y then 1 else 0) a b c
  | .input a => takeInput pc base front a
  | .output a => do
    let next ← displace pc 2
    let v ← operand pc base 1 a
    return ⟨.output, next, base, false, .sent v⟩
  | .jumpIfTrue a b => jump pc base .jumpIfTrue (fun x => x ≠ 0) a b
  | .jumpIfFalse a b => jump pc base .jumpIfFalse (fun x => x = 0) a b
  | .adjustBase a => do
    let next ← displace pc 2
    let v ← operand pc base 1 a
    return ⟨.adjustBase, next, base + v, false, .none⟩
  | .halt => do
    let next ← displace pc 1
    return ⟨.halt, next, base, true, .none⟩

/-- Fetch, decode and carry out the instruction at `pc`. -/
def execute (front : Option Int) : Access Effect := do
  let cell ← Memory.load pc
  let instruction ← decode cell
  perform pc base front instruction

end Instruction

end Intcode
