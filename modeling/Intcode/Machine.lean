import Intcode.Effect
import Intcode.Program
import Intcode.Report

/-!
# Machines

A machine steps through its program one instruction at a time. It owns its memory and registers
and no channel: a step is given the value that waits at the front of the input channel, and its
outcome says which value was taken or sent. A machine that needs a value where none is waiting
does not change at all.
-/

namespace Intcode

/-- The part of a machine that instructions work on. -/
structure State where
  /-- The address of the next instruction. -/
  pc : Nat
  /-- The offset of relative parameters. -/
  base : Int
  memory : Memory
  /-- Set when the machine halts. -/
  halted : Bool
  /-- Set when an instruction fails. -/
  faulted : Bool
deriving DecidableEq, Repr, Inhabited

namespace State

/-- The state in which a program starts. -/
def initial (program : Program) : State := ⟨0, 0, .ofImage program.image, false, false⟩

/-- Return the registers to zero, memory to the image of a program, and clear the flags. -/
def reset (s : State) (program : Program) : State :=
  { s with
    pc := 0
    base := 0
    memory := .ofImage program.image
    halted := false
    faulted := false }

/-- Whether the next instruction takes a value and nothing can fail before it does. -/
def awaitsInput (s : State) : Bool :=
  !s.halted && !s.faulted && s.pc + 2 < addressSpace &&
    match Instruction.decode (s.memory.read s.pc) with
    | .ok (.input mode) =>
      let a := s.memory.denoted mode (s.pc + 1) s.base
      mode ≠ .immediate && 0 ≤ a && a.toNat + 1 < addressSpace
    | _ => false

end State

/-- What became of a step. -/
inductive Outcome
  | executed (opcode : Opcode) (transfer : Transfer)
  /-- The machine has halted already. -/
  | idle
  /-- The machine needs a value, and none is there. -/
  | waiting
  | failed (fault : Fault)
deriving DecidableEq, Repr

/-- The value that a step exchanges with a channel. -/
def Outcome.transfer : Outcome → Transfer
  | executed _ t => t
  | idle | waiting | failed _ => .none

/-- A fault together with the name of the machine it happened in. -/
structure Failure where
  machine : String
  fault : Fault
deriving DecidableEq, Repr

/-- Say which machine failed, and why. -/
def Failure.message (e : Failure) : String :=
  "machine " ++ Text.quoted e.machine ++ " failed: " ++ e.fault.message

/-- A named machine with its program and the record of its run. -/
structure Machine where
  name : String
  program : Program
  state : State
  /-- Every value sent since the start, in order. -/
  diagnostics : Array Int
  report : Report
deriving DecidableEq, Inhabited

namespace Machine

/-- A machine at the start of its program. -/
def boot (name : String) (program : Program) : Machine :=
  ⟨name, program, .initial program, #[], .empty⟩

/-- Return to the start of the program and forget the record of the run. -/
def reset (m : Machine) : Machine :=
  { m with state := m.state.reset m.program, diagnostics := #[], report := .empty }

/-- Extend the record of sent values by what a transfer sent. -/
def log (diagnostics : Array Int) : Transfer → Array Int
  | .sent v => diagnostics.push v
  | .took _ | .none => diagnostics

/-- Execute one instruction, with `front` the value waiting on the input channel. -/
def step (front : Option Int) (m : Machine) : Outcome × Machine :=
  if m.state.faulted then (.failed .faulted, m)
  else if m.state.halted then (.idle, m)
  else if front.isNone && m.state.awaitsInput then (.waiting, m)
  else
    let ⟨name, program, ⟨pc, base, memory, _, _⟩, diagnostics, report⟩ := m
    match (Instruction.execute pc base front).exec memory with
    | (.error fault, memory) =>
      (.failed fault, ⟨name, program, ⟨pc, base, memory, false, true⟩, diagnostics, report⟩)
    | (.ok e, memory) =>
      let diagnostics := log diagnostics e.transfer
      let report := report.record e.opcode memory.size
      (.executed e.opcode e.transfer,
        ⟨name, program, ⟨e.pc, e.base, memory, e.halted, false⟩, diagnostics, report⟩)

/-- The name and the last sent value of a machine that has halted. -/
def result (m : Machine) : Except Failure (String × Int) :=
  match m.diagnostics.back? with
  | some v => .ok (m.name, v)
  | none => .error ⟨m.name, .noOutput⟩

end Machine

end Intcode
