import Intcode.Proofs.Memory.Tape
import Intcode.Proofs.Network.Step

/-!
# The ideal machine

The ideal machine has a value at every address from the start and never grows anything. It reads
all operands of an instruction from the memory with which the instruction starts. A step of it fails
only where the cell is no instruction, an address or a taken jump is negative, or an input finds its
queue empty. The main result says that the machines of a network do what the ideal machine does, for
as long as their steps succeed.
-/

namespace Intcode

/-- The state of an ideal machine. Queues are indexed since input and output may be the same one. -/
@[ext] structure Ideal (k : Nat) where
  pc : Nat
  base : Int
  memory : Nat → Int
  wire : Wire k
  queues : Fin k → List Int
  diagnostics : List Int
  halted : Bool

namespace Ideal

variable {k : Nat}

/-- The values waiting for the machine. -/
def input (s : Ideal k) : List Int := s.queues s.wire.input

/-- The values waiting where the machine sends to. -/
def output (s : Ideal k) : List Int := s.queues s.wire.output

/-- The address that the `j`-th parameter denotes, unless it is negative. -/
def address? (s : Ideal k) (j : Nat) (mode : Mode) : Option Nat :=
  (mode.denote s.memory (s.pc + j) s.base).toNat?

/-- The operand of the `j`-th parameter. -/
def operand? (s : Ideal k) (j : Nat) (mode : Mode) : Option Int :=
  (s.address? j mode).map s.memory

/-- Go on behind the instruction. -/
def skip (s : Ideal k) (i : Instruction) : Ideal k := { s with pc := s.pc + i.width }

/-- Give a cell a new value. -/
def assign (s : Ideal k) (a : Nat) (v : Int) : Ideal k :=
  { s with memory := Function.update s.memory a v }

/-- Give a queue new contents. -/
def enqueue (s : Ideal k) (c : Fin k) (vs : List Int) : Ideal k :=
  { s with queues := Function.update s.queues c vs }

/-- Give the cell of the third parameter a function of the first two operands. -/
def compute (s : Ideal k) (i : Instruction) (f : Int → Int → Int) (a b c : Mode) :
    Option (Ideal k) := do
  let x ← s.operand? 1 a
  let y ← s.operand? 2 b
  return (s.skip i).assign (← s.address? 3 c) (f x y)

/-- Go to the second operand if the first one satisfies the condition. -/
def jump (s : Ideal k) (i : Instruction) (taken : Int → Bool) (a b : Mode) :
    Option (Ideal k) := do
  if taken (← s.operand? 1 a) then
    let target ← s.operand? 2 b
    return { s with pc := ← target.toNat? }
  else
    return s.skip i

/-- The effects of the operations. -/
def perform (s : Ideal k) (i : Instruction) : Option (Ideal k) :=
  match i with
  | .add a b c => s.compute i (fun x y => x + y) a b c
  | .mul a b c => s.compute i (fun x y => x * y) a b c
  | .lessThan a b c => s.compute i (fun x y => if x < y then 1 else 0) a b c
  | .equals a b c => s.compute i (fun x y => if x = y then 1 else 0) a b c
  | .input a =>
    match s.input with
    | [] => none
    | v :: rest => do
      let cell ← s.address? 1 a
      return ((s.skip i).assign cell v).enqueue s.wire.input rest
  | .output a => do
    let v ← s.operand? 1 a
    return { (s.skip i).enqueue s.wire.output (s.output ++ [v]) with
      diagnostics := s.diagnostics ++ [v] }
  | .jumpIfTrue a b => s.jump i (fun x => x ≠ 0) a b
  | .jumpIfFalse a b => s.jump i (fun x => x = 0) a b
  | .adjustBase a => do
    let v ← s.operand? 1 a
    return { s.skip i with base := s.base + v }
  | .halt => some { s.skip i with halted := true }

/-- One step. A machine that has halted stays as it is. -/
def step (s : Ideal k) : Option (Ideal k) :=
  if s.halted then some s
  else do s.perform (← (Instruction.decode (s.memory s.pc)).toOption)

/-- The state after a number of steps. -/
def run : Nat → Ideal k → Option (Ideal k)
  | 0, s => some s
  | t + 1, s => do run t (← s.step)

/-- The cell that an instruction writes, which its last parameter denotes. -/
def targetOf? (s : Ideal k) (i : Instruction) : Option Nat :=
  if i.opcode.writesResult then i.modes.getLast?.bind (s.address? i.opcode.arity) else none

/-- The cell that the next instruction writes. -/
def target? (s : Ideal k) : Option Nat := do
  s.targetOf? (← (Instruction.decode (s.memory s.pc)).toOption)

/-- Exchange a value with the queues. -/
def move (s : Ideal k) : Transfer → Ideal k
  | .none => s
  | .took _ => s.enqueue s.wire.input s.input.tail
  | .sent v =>
    { s.enqueue s.wire.output (s.output ++ [v]) with diagnostics := s.diagnostics ++ [v] }

/-- Write a cell if there is one to be written. -/
def put (s : Ideal k) : Option (Nat × Int) → Ideal k
  | some (a, v) => s.assign a v
  | none => s

/-- Do what a plan says. -/
def follow (s : Ideal k) (p : Plan) : Ideal k :=
  let s := (s.put p.write).move p.effect.transfer
  { s with pc := p.effect.pc, base := p.effect.base, halted := p.effect.halted }

@[simp] theorem wire_follow (s : Ideal k) (p : Plan) : (s.follow p).wire = s.wire := by
  obtain ⟨⟨_, _, _, _, t⟩, w⟩ := p
  cases t <;> cases w <;> rfl

@[simp] theorem memory_follow (s : Ideal k) (p : Plan) :
    (s.follow p).memory = (s.put p.write).memory := by
  obtain ⟨⟨_, _, _, _, t⟩, w⟩ := p
  cases t <;> rfl

@[simp] theorem queues_follow (s : Ideal k) (p : Plan) :
    (s.follow p).queues = (s.move p.effect.transfer).queues := by
  obtain ⟨⟨_, _, _, _, t⟩, w⟩ := p
  cases t <;> cases w <;> rfl

@[simp] theorem diagnostics_follow (s : Ideal k) (p : Plan) :
    (s.follow p).diagnostics = (s.move p.effect.transfer).diagnostics := by
  obtain ⟨⟨_, _, _, _, t⟩, w⟩ := p
  cases t <;> cases w <;> rfl

variable {s : Ideal k}

theorem address?_of_ok {j : Nat} {mode : Mode} {a : Nat}
    (h : (Survey.address s.memory mode (s.pc + j) s.base).result = .ok a) :
    s.address? j mode = some a :=
  Int.mem_toNat?.mpr (Survey.address_eq_ok.mp h).2.2

theorem operand?_of_ok {j : Nat} {mode : Mode} {v : Int}
    (h : (Plan.operand s.memory s.pc s.base j mode).result = .ok v) :
    s.operand? j mode = some v := by
  obtain ⟨a, ha, rfl⟩ := Plan.operand_eq_ok.mp h
  simp only [operand?, address?_of_ok ha, Option.map_some]

theorem compute_of_ok {i : Instruction} {f : Int → Int → Int} {a b c : Mode} {p : Plan}
    (hs : s.halted = false) (hi : i.width = 4)
    (h : (Plan.compute s.memory s.pc s.base i.opcode f a b c).result = .ok p) :
    s.compute i f a b c = some (s.follow p) := by
  obtain ⟨cell, x, y, hcell, -, hx, hy, rfl⟩ := Plan.compute_eq_ok.mp h
  simp only [compute, operand?_of_ok hx, operand?_of_ok hy,
    address?_of_ok (Plan.target_eq_ok.mp hcell).2]
  simp [follow, put, move, assign, skip, hi, hs]

theorem jump_of_ok {i : Instruction} {taken : Int → Bool} {a b : Mode} {p : Plan}
    (hs : s.halted = false) (hi : i.width = 3)
    (h : (Plan.jump s.memory s.pc s.base i.opcode taken a b).result = .ok p) :
    s.jump i taken a b = some (s.follow p) := by
  obtain ⟨x, y, next, -, hx, hy, hnext, rfl⟩ := Plan.jump_eq_ok.mp h
  cases ht : taken x with
  | true =>
      rw [ht, if_pos rfl] at hnext
      have hpc : y.toNat? = some next := Int.mem_toNat?.mpr hnext.2
      simp only [jump, operand?_of_ok hx, operand?_of_ok hy]
      simp [follow, put, move, ht, hs, hpc]
  | false =>
      rw [ht, if_neg (by decide)] at hnext
      simp only [jump, operand?_of_ok hx, hnext]
      simp [follow, put, move, skip, ht, hi, hs]

/-- The ideal machine does what was planned for the value at the front of its input queue. -/
theorem perform_of_ok {i : Instruction} {p : Plan} (hs : s.halted = false)
    (h : (Plan.ofInstruction s.memory s.pc s.base s.input.head? i).result = .ok p) :
    s.perform i = some (s.follow p) := by
  cases i with
  | add a b c | mul a b c | lessThan a b c | equals a b c => exact compute_of_ok hs rfl h
  | jumpIfTrue a b | jumpIfFalse a b => exact jump_of_ok hs rfl h
  | input a =>
      obtain ⟨cell, v, hcell, -, hv, rfl⟩ := Plan.takeInput_eq_ok.mp h
      obtain ⟨rest, hrest⟩ := List.head?_eq_some_iff.mp hv
      have hqueue : s.queues s.wire.input = v :: rest := hrest
      simp only [perform, hrest, address?_of_ok (Plan.target_eq_ok.mp hcell).2]
      simp [follow, put, move, assign, enqueue, skip, Instruction.width, Instruction.opcode,
        Opcode.arity, input, hqueue, hs]
  | output a =>
      obtain ⟨v, -, hv, rfl⟩ := Plan.single_eq_ok.mp h
      simp only [perform, operand?_of_ok hv]
      simp [follow, put, move, enqueue, skip, Instruction.width, Instruction.opcode,
        Opcode.arity, output, hs]
  | adjustBase a =>
      obtain ⟨v, -, hv, rfl⟩ := Plan.single_eq_ok.mp h
      simp only [perform, operand?_of_ok hv]
      simp [follow, put, move, skip, Instruction.width, Instruction.opcode, Opcode.arity, hs]
  | halt =>
      obtain ⟨-, rfl⟩ := Plan.halt_eq_ok.mp h
      simp [perform, follow, put, move, skip, Instruction.width, Instruction.opcode, Opcode.arity]

theorem step_of_ok {p : Plan} (hs : s.halted = false)
    (h : (Plan.fetch s.memory s.pc s.base s.input.head?).result = .ok p) :
    s.step = some (s.follow p) := by
  obtain ⟨-, i, hi, hp⟩ := Plan.fetch_eq_ok.mp h
  simp only [step, hs, hi, Bool.false_eq_true, if_false]
  exact perform_of_ok hs hp

/-- Steps that follow each other make up a run. -/
theorem run_of_steps {t : Nat} (f : Nat → Ideal k)
    (h : ∀ j < t, (f j).step = some (f (j + 1))) : (f 0).run t = some (f t) := by
  induction t generalizing f with
  | zero => rfl
  | succ t ih =>
      simp only [run, h 0 (Nat.succ_pos t)]
      exact ih (fun j => f (j + 1)) fun j hj => h (j + 1) (Nat.succ_lt_succ hj)

theorem memory_of_assign {cell a : Nat} {v : Int} (i : Instruction) (h : some cell ≠ some a) :
    ((s.skip i).assign cell v).memory a = s.memory a :=
  Function.update_of_ne (fun e => h (congrArg some e.symm)) _ _

theorem memory_of_compute {t : Ideal k} {i : Instruction} {f : Int → Int → Int} {a b c : Mode}
    {x : Nat} (h : s.compute i f a b c = some t) (hx : s.address? 3 c ≠ some x) :
    t.memory x = s.memory x := by
  simp only [compute, Option.bind_eq_bind, Option.bind_eq_some_iff, Option.pure_def,
    Option.some.injEq] at h
  obtain ⟨_, -, _, -, cell, hcell, rfl⟩ := h
  rw [hcell] at hx
  exact memory_of_assign i hx

theorem memory_of_jump {t : Ideal k} {i : Instruction} {taken : Int → Bool} {a b : Mode}
    (h : s.jump i taken a b = some t) : t.memory = s.memory := by
  simp only [jump, Option.bind_eq_bind, Option.bind_eq_some_iff] at h
  obtain ⟨_, -, h⟩ := h
  split at h
  · simp only [Option.bind_eq_some_iff, Option.pure_def, Option.some.injEq] at h
    obtain ⟨_, -, _, -, rfl⟩ := h
    rfl
  · cases h
    rfl

theorem memory_of_perform {t : Ideal k} {i : Instruction} {x : Nat}
    (h : s.perform i = some t) (hx : s.targetOf? i ≠ some x) : t.memory x = s.memory x := by
  cases i with
  | add a b c | mul a b c | lessThan a b c | equals a b c => exact memory_of_compute h hx
  | jumpIfTrue a b | jumpIfFalse a b => rw [memory_of_jump h]
  | input a =>
      simp only [perform] at h
      split at h
      · cases h
      · simp only [Option.bind_eq_bind, Option.bind_eq_some_iff, Option.pure_def,
          Option.some.injEq] at h
        obtain ⟨cell, hcell, rfl⟩ := h
        apply memory_of_assign
        rw [← hcell]
        exact hx
  | output a | adjustBase a =>
      simp only [perform, Option.bind_eq_bind, Option.bind_eq_some_iff, Option.pure_def,
        Option.some.injEq] at h
      obtain ⟨_, -, rfl⟩ := h
      rfl
  | halt =>
      cases h
      rfl

/-- A step changes at most the cell that the last parameter of its instruction denotes. -/
theorem memory_of_step {t : Ideal k} {x : Nat} (h : s.step = some t)
    (hx : s.target? ≠ some x) : t.memory x = s.memory x := by
  unfold step at h
  split at h
  · cases h
    rfl
  · cases hi : Instruction.decode (s.memory s.pc) with
    | error e =>
        rw [hi] at h
        cases h
    | ok i =>
        rw [target?, hi] at hx
        rw [hi] at h
        exact memory_of_perform h hx

end Ideal

namespace Network

variable {n k : Nat}

/-- The ideal machine that the `i`-th machine stands for. -/
def ideal (net : Network n k) (i : Fin n) : Ideal k where
  pc := (net.machines.get i).state.pc
  base := (net.machines.get i).state.base
  memory := (net.machines.get i).state.memory.read
  wire := net.wires.get i
  queues := fun c => (net.channels.get c).toList
  diagnostics := (net.machines.get i).diagnostics.toList
  halted := (net.machines.get i).state.halted

theorem front?_eq_head? (net : Network n k) (i : Fin n) :
    net.front? i = (net.ideal i).input.head? :=
  Channel.front?_eq _

/-- The queues after a value is moved. -/
theorem queues_transfer (net : Network n k) (i : Fin n) (t : Transfer) :
    (fun c => ((transfer net.channels (net.wires.get i) t).get c).toList) =
      ((net.ideal i).move t).queues := by
  funext c
  rw [get_transfer]
  cases t with
  | none => rfl
  | took v =>
      simp only [Ideal.move, Ideal.enqueue, Ideal.input, ideal, Function.update_apply, eq_comm]
      split
      · next h => rw [← h, Channel.toList_pop]
      · rfl
  | sent v =>
      simp only [Ideal.move, Ideal.enqueue, Ideal.output, ideal, Function.update_apply, eq_comm]
      split
      · next h => rw [← h, Channel.toList_send]
      · rfl

/-- A successful step does what the ideal machine does by the same plan. -/
theorem ideal_step_of_ok {net : Network n k} {i : Fin n} {p : Plan}
    (hfit : (net.machines.get i).Fits) (hr : (net.machines.get i).Ready (net.front? i))
    (h : ((net.machines.get i).plan (net.front? i)).result = .ok p) :
    (net.step i).2.ideal i = (net.ideal i).follow p := by
  have hs := Machine.step_of_ok hfit hr h
  have hmachine : (net.step i).2.machines.get i =
      (net.machines.get i).follow p ((net.machines.get i).plan (net.front? i)).reach := by
    rw [step_machine_self, stepped, hs]
  have hchannels : (net.step i).2.channels =
      transfer net.channels (net.wires.get i) p.effect.transfer := by
    rw [step_channels, stepped, hs]
    rfl
  ext1
  · simp [ideal, hmachine, Ideal.follow, Machine.follow]
  · simp [ideal, hmachine, Ideal.follow, Machine.follow]
  · rw [Ideal.memory_follow]
    simp only [ideal, hmachine, Machine.follow]
    cases hw : p.write with
    | none => simp [Memory.put, Ideal.put]
    | some w =>
        have hcarries := Machine.carries_plan (net.front? i) (net.machines.get i)
        have hlt := hcarries.write_lt p w.1 w.2 h hw
        rw [Memory.put, Memory.read_write_eq]
        · simp [Ideal.put, Ideal.assign]
        · rw [Memory.size_extend]
          exact Nat.lt_of_lt_of_le hlt (Nat.le_max_right _ _)
  · simp [ideal]
  · rw [Ideal.queues_follow, ← queues_transfer, ← hchannels]
    rfl
  · rw [Ideal.diagnostics_follow]
    simp only [ideal, hmachine, Machine.follow]
    cases p.effect.transfer with
    | none | took _ => rfl
    | sent v => simp [Machine.log, Ideal.move]
  · simp [ideal, hmachine, Ideal.follow, Machine.follow]

/-- A step that succeeds is a step of the ideal machine. -/
theorem ideal_step {net : Network n k} {i : Fin n} (hfit : (net.machines.get i).Fits)
    (h : (net.step i).1.succeeded = true) :
    (net.ideal i).step = some ((net.step i).2.ideal i) := by
  rw [step_outcome, stepped] at h
  rcases Machine.step_cases (net.front? i) hfit with hr | ⟨-, e, -, hs⟩ | ⟨hr, p, hp, -⟩
  · rw [step_of_not_ready hr]
    rcases Machine.step_of_not_ready hr with ⟨-, hs⟩ | ⟨hhalted, -⟩ | hs
    · rw [hs] at h
      cases h
    · exact if_pos hhalted
    · rw [hs] at h
      cases h
  · rw [hs] at h
    cases h
  · rw [ideal_step_of_ok hfit hr hp]
    rw [Machine.plan, front?_eq_head?] at hp
    exact Ideal.step_of_ok hr.2.1 hp

/-- However long a machine runs without a fault and without having to wait, it is in the state that
the ideal machine reaches in the same number of steps, and each step changes at most the cell that
the last parameter of its instruction denotes. -/
theorem advance_refines_ideal (net : Network n k) (i : Fin n) (t : Nat)
    (hfit : (net.machines.get i).state.memory.size < addressSpace)
    (hok : ∀ j < t, ((net.advance i j).step i).1.succeeded = true) :
    (net.ideal i).run t = some ((net.advance i t).ideal i) ∧
    ∀ j < t, ∀ a, ((net.advance i j).ideal i).target? ≠ some a →
      ((net.advance i (j + 1)).ideal i).memory a = ((net.advance i j).ideal i).memory a := by
  have hstep (j : Nat) (hj : j < t) : ((net.advance i j).ideal i).step =
      some ((net.advance i (j + 1)).ideal i) := by
    rw [advance_succ]
    exact ideal_step (fits_advance hfit j) (hok j hj)
  constructor
  · exact Ideal.run_of_steps (fun j => (net.advance i j).ideal i) hstep
  · intro j hj a ha
    exact Ideal.memory_of_step (hstep j hj) ha

/-- Two rounds of the quine, which uses relative parameters and counts in a cell that is not there
at first. -/
theorem advance_refines_ideal_quine :
    ((single .quine "quine" []).ideal 0).run 12 =
      some (((single .quine "quine" []).advance 0 12).ideal 0) ∧
    (((single .quine "quine" []).advance 0 12).ideal 0).memory 100 = 2 :=
  ⟨(advance_refines_ideal (single .quine "quine" []) 0 12 (by decide +kernel)
    (by decide +kernel)).1, by decide +kernel⟩

end Network

end Intcode
