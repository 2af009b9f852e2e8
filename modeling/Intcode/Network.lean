import Intcode.Channel
import Intcode.Machine
import Intcode.Setup

/-!
# Networks

A network holds machines and channels. Each machine is wired to one channel for its input and one
for its output, and machines may share channels in any way. All that one machine does to the rest
of the network is to take values from its input channel and to send values to its output channel.
-/

namespace Intcode

/-- Take one entry out of a vector, so that it can be changed in place. -/
@[noinline] def takeAt {α : Type} [Inhabited α] {n : Nat} (v : Vector α n) (i : Fin n) :
    α × Vector α n :=
  v.swapAt i default

/-- Change one entry of a vector and answer with what the change yields. -/
def modifyAt {α β : Type} [Inhabited α] {n : Nat} (v : Vector α n) (i : Fin n) (f : α → β × α) :
    β × Vector α n :=
  let (a, v) := takeAt v i
  let (b, a) := f a
  (b, v.set i a)

theorem modifyAt_eq {α β : Type} [Inhabited α] {n : Nat} (v : Vector α n) (i : Fin n)
    (f : α → β × α) : modifyAt v i f = ((f (v.get i)).1, v.set i (f (v.get i)).2) := by
  simp [modifyAt, takeAt, Vector.swapAt, Vector.get]

/-- The channels that a machine takes values from and sends values to. -/
structure Wire (k : Nat) where
  input : Fin k
  output : Fin k
deriving DecidableEq, Repr

/-- Machines connected by channels. -/
structure Network (n k : Nat) where
  machines : Vector Machine n
  wires : Vector (Wire k) n
  channels : Vector Channel k
deriving DecidableEq

/-- A machine to be made for a network with `s` shared channels. -/
structure Part (s : Nat) where
  program : Program
  setup : Setup (Fin s)

namespace Network

variable {n k s : Nat}

/-- The wire of the `i`-th of `n` parts: shared channels come first, then two for each part. -/
def wireOf (setup : Setup (Fin s)) (i : Fin n) : Wire (s + 2 * n) where
  input := match setup.input with
    | some c => c.castAdd (2 * n)
    | none => ⟨s + 2 * i, by omega⟩
  output := match setup.output with
    | some c => c.castAdd (2 * n)
    | none => ⟨s + 2 * i + 1, by omega⟩

/-- Perform an operation on a channel. -/
def onChannel (net : Network n k) (c : Fin k) (op : Channel.Op) : Channel.Reply × Network n k :=
  let ⟨machines, wires, channels⟩ := net
  let (reply, channels) := modifyAt channels c (·.perform op)
  (reply, ⟨machines, wires, channels⟩)

/-- Append values to a channel. -/
def sendAll (channels : Vector Channel k) (c : Fin k) (vs : List Int) : Vector Channel k :=
  (modifyAt channels c fun c => ((), c.sendAll vs)).2

/-- Make a machine of each part in order, queueing its inputs behind what is already there. -/
def assemble (shared : Vector Channel s) (parts : Vector (Part s) n) : Network n (s + 2 * n) :=
  let wires := Vector.ofFn fun i => wireOf (parts.get i).setup i
  { machines := parts.map fun p => .boot p.setup.name p.program
    wires
    channels := Fin.foldl n (fun cs i => sendAll cs (wires.get i).input (parts.get i).setup.inputs)
      (shared ++ Vector.replicate (2 * n) Channel.empty) }

/-- A single machine with channels of its own. -/
def single (program : Program) (name : String) (inputs : List Int) : Network 1 2 :=
  assemble #v[] #v[⟨program, { name, inputs }⟩]

/-- The value that waits for the `i`-th machine. -/
def front? (net : Network n k) (i : Fin n) : Option Int :=
  (net.channels.get (net.wires.get i).input).front?

/-- Whether the `i`-th machine needs a value and none is there. -/
def waits (net : Network n k) (i : Fin n) : Bool :=
  (net.front? i).isNone && (net.machines.get i).state.awaitsInput

/-- Move the value of a transfer from or to the channels of a wire. -/
def transfer (channels : Vector Channel k) (wire : Wire k) : Transfer → Vector Channel k
  | .none => channels
  | .took _ => (modifyAt channels wire.input fun c => ((), c.pop)).2
  | .sent v => (modifyAt channels wire.output fun c => ((), c.send v)).2

/-- Let the `i`-th machine make one step. -/
def step (net : Network n k) (i : Fin n) : Outcome × Network n k :=
  let front := net.front? i
  let ⟨machines, wires, channels⟩ := net
  let (outcome, machines) := modifyAt machines i (·.step front)
  (outcome, ⟨machines, wires, transfer channels (wires.get i) outcome.transfer⟩)

/-- Return the `i`-th machine to its start and empty its channels. -/
def reset (net : Network n k) (i : Fin n) : Network n k :=
  let ⟨machines, wires, channels⟩ := net
  let channels := channels.set (wires.get i).input .empty
  ⟨(modifyAt machines i fun m => ((), m.reset)).2, wires, channels.set (wires.get i).output .empty⟩

/-- Queue a value for the `i`-th machine. -/
def writeInput (net : Network n k) (i : Fin n) (v : Int) : Network n k :=
  (net.onChannel (net.wires.get i).input (.send v)).2

/-- Change the state of the `i`-th machine from outside and answer with what the change yields. -/
def onState {α : Type} (net : Network n k) (i : Fin n) (f : State → α × State) :
    α × Network n k :=
  let ⟨machines, wires, channels⟩ := net
  let (a, machines) := modifyAt machines i fun ⟨name, program, state, diagnostics, report⟩ =>
    let (a, state) := f state
    (a, ⟨name, program, state, diagnostics, report⟩)
  (a, ⟨machines, wires, channels⟩)

/-- Perform an operation on the memory of the `i`-th machine. -/
def onMemory (net : Network n k) (i : Fin n) (op : Memory.Op) : Memory.Reply × Network n k :=
  net.onState i fun ⟨pc, base, memory, halted, faulted⟩ =>
    let (reply, memory) := memory.perform op
    (reply, ⟨pc, base, memory, halted, faulted⟩)

end Network

end Intcode
