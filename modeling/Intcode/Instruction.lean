import Intcode.Fault

/-!
# Instructions

An instruction is an operation with one mode for each of its parameters. Its cell holds the
operation's number in the last two decimal digits and the modes in the digits above, the first
mode lowest. Digits beyond the fifth mean nothing.
-/

namespace Intcode

/-- An operation together with the modes of its parameters. -/
inductive Instruction
  | add (left right target : Mode)
  | mul (left right target : Mode)
  | input (target : Mode)
  | output (value : Mode)
  | jumpIfTrue (condition target : Mode)
  | jumpIfFalse (condition target : Mode)
  | lessThan (left right target : Mode)
  | equals (left right target : Mode)
  | adjustBase (offset : Mode)
  | halt
deriving DecidableEq, Repr

namespace Instruction

/-- The operation of an instruction. -/
def opcode : Instruction → Opcode
  | add .. => .add
  | mul .. => .mul
  | input .. => .input
  | output .. => .output
  | jumpIfTrue .. => .jumpIfTrue
  | jumpIfFalse .. => .jumpIfFalse
  | lessThan .. => .lessThan
  | equals .. => .equals
  | adjustBase .. => .adjustBase
  | halt => .halt

/-- The modes of an instruction, first parameter first. -/
def modes : Instruction → List Mode
  | add a b c | mul a b c | lessThan a b c | equals a b c => [a, b, c]
  | jumpIfTrue a b | jumpIfFalse a b => [a, b]
  | input a | output a | adjustBase a => [a]
  | halt => []

/-- An instruction has a mode for each parameter of its operation. -/
@[simp] theorem length_modes (i : Instruction) : i.modes.length = i.opcode.arity := by
  cases i <;> rfl

/-- The number of cells that an instruction takes up. -/
def width (i : Instruction) : Nat := i.opcode.arity + 1

/-- Read the operation and the modes off the decimal digits of a word. -/
def ofDigits (word : Nat) : Except UnknownCode Instruction := do
  let mode (k : Nat) : Except UnknownCode Mode := Mode.ofCode (word / Nat.pow 10 (k + 1) % 10)
  match ← Opcode.ofCode (word % 100) with
  | .add => return add (← mode 1) (← mode 2) (← mode 3)
  | .mul => return mul (← mode 1) (← mode 2) (← mode 3)
  | .input => return input (← mode 1)
  | .output => return output (← mode 1)
  | .jumpIfTrue => return jumpIfTrue (← mode 1) (← mode 2)
  | .jumpIfFalse => return jumpIfFalse (← mode 1) (← mode 2)
  | .lessThan => return lessThan (← mode 1) (← mode 2) (← mode 3)
  | .equals => return equals (← mode 1) (← mode 2) (← mode 3)
  | .adjustBase => return adjustBase (← mode 1)
  | .halt => return halt

/-- Decode an instruction cell. Only its five low digits are looked at. -/
def decode : Int → Except Fault Instruction
  | .ofNat v => (ofDigits (v % 100000)).mapError .unknownCode
  | .negSucc v => .error (.instructionOutOfRange (.negSucc v))

/-- List an instruction: its mnemonic in six columns, then the mark of each mode. -/
def listing (i : Instruction) : String :=
  i.modes.foldl (fun line m => line ++ " " ++ m.sigil)
    (i.opcode.mnemonic.pushn ' ' (6 - i.opcode.mnemonic.length))

/-- Spell out an instruction with the names of its parts. -/
def detail (i : Instruction) : String :=
  "Instruction \x7b opcode: " ++ i.opcode.name ++ ", modes: [" ++
    ", ".intercalate (i.modes.map Mode.name) ++ "] \x7d"

end Instruction

end Intcode
