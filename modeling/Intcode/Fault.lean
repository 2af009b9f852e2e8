import Intcode.Code

/-!
# Faults

The causes that stop a machine, and the one place where each is put into words.
-/

namespace Intcode

/-- Addresses and program counters lie below this bound. -/
def addressSpace : Nat := Nat.pow 2 64

/-- The reasons why a machine cannot go on. -/
inductive Fault
  /-- The operation or a mode of the instruction is unknown. -/
  | unknownCode (e : UnknownCode)
  /-- The instruction cell is negative. -/
  | instructionOutOfRange (cell : Int)
  /-- The result of the instruction at `pc` would overwrite its own parameter. -/
  | immediateTarget (opcode : Opcode) (pc : Nat)
  /-- A parameter names a negative address. -/
  | negativeAddress (address : Int)
  /-- No memory can hold a cell at this address. -/
  | addressOutOfRange (address : Nat)
  /-- A jump leaves the address space. -/
  | jumpOutOfRange (target : Int)
  /-- The input channel can deliver no value. -/
  | inputDisconnected
  /-- The machine halted and never sent a value. -/
  | noOutput
  /-- The machine stopped on an earlier fault. -/
  | faulted
deriving DecidableEq, Repr

/-- Put a fault into words. -/
def Fault.message : Fault → String
  | unknownCode e => "invalid instruction: " ++ e.message
  | instructionOutOfRange cell => "instruction cell " ++ toString cell ++ " is out of range"
  | immediateTarget opcode pc =>
    opcode.mnemonic ++ " at pc " ++ toString pc ++ " writes to an immediate mode parameter"
  | negativeAddress address => "negative address " ++ toString address
  | addressOutOfRange address => "address " ++ toString address ++ " is out of range"
  | jumpOutOfRange target => "jump target " ++ toString target ++ " is out of range"
  | inputDisconnected => "input channel disconnected"
  | noOutput => "halted without producing any output"
  | faulted => "machine faulted earlier and must be reset"

end Intcode
