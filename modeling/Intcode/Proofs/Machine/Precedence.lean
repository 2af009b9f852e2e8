import Intcode.Proofs.Checks
import Intcode.Proofs.Machine.Outcome
import Intcode.Proofs.Memory.Tape
import Intcode.Proofs.Network.Step

/-!
# Precedence of checks

A step can go wrong in many ways at once, and what becomes of it is decided by the first check that
applies. The checks look at the values in memory before the step: the flags, the program counter,
the instruction, then the cell for the result or the end of the instruction, the operands in order,
the input channel and the target of a jump. That memory grows while the checks are made has no
influence on them.
-/

namespace Intcode

/-- The modes of the parameters that an instruction reads, which are all but the cell for its
result. -/
def Instruction.operandModes (i : Instruction) : List Mode :=
  if i.opcode.writesResult then i.modes.dropLast else i.modes

theorem Instruction.eq_input_of_opcode {i : Instruction} (h : i.opcode = .input) :
    ∃ dst, i = .input dst := by
  cases i with
  | input dst => exact ⟨dst, rfl⟩
  | _ => cases h

namespace State

section
variable (s : State)

/-- The number that the `k`-th parameter gives for the address of its operand. -/
def denoted (k : Nat) (mode : Mode) : Int := mode.denote s.memory.read (s.pc + k) s.base

/-- The operand of the `k`-th parameter. -/
def operand (k : Nat) (mode : Mode) : Int := s.memory.read (s.denoted k mode).toNat

/-- What is wrong with the `k`-th parameter. -/
def parameterFault? (k : Nat) (mode : Mode) : Option Fault :=
  if lastAddress ≤ s.pc + k then some (.addressOutOfRange (s.pc + k))
  else if mode = .immediate then none
  else if s.denoted k mode < 0 then some (.negativeAddress (s.denoted k mode))
  else if lastAddress ≤ s.denoted k mode then some (.addressOutOfRange (s.denoted k mode).toNat)
  else none

/-- What is wrong with the cell for the result, which the last parameter names. -/
def targetFault? (i : Instruction) : Option Fault :=
  match i.modes.getLast? with
  | some .immediate => some (.immediateTarget i.opcode s.pc)
  | some mode => s.parameterFault? i.opcode.arity mode
  | none => none

/-- What is wrong with the address behind an instruction. -/
def widthFault? (i : Instruction) : Option Fault :=
  if addressSpace ≤ s.pc + i.width then some (.addressOutOfRange (s.pc + i.width)) else none

/-- The checks of an instruction up to the point where it exchanges a value or jumps. -/
def operandChecks (i : Instruction) : List (Option Fault) :=
  (if i.opcode.writesResult then s.targetFault? i else s.widthFault? i) ::
    (i.operandModes.zipIdx 1).map fun (mode, k) => s.parameterFault? k mode

/-- The number that an instruction jumps to. -/
def jump? : Instruction → Option Int
  | .jumpIfTrue a b => if s.operand 1 a ≠ 0 then some (s.operand 2 b) else none
  | .jumpIfFalse a b => if s.operand 1 a = 0 then some (s.operand 2 b) else none
  | _ => none

/-- What is wrong with the target of a jump that is taken. -/
def jumpFault? (i : Instruction) : Option Fault :=
  match s.jump? i with
  | some t => if t < 0 ∨ addressSpace ≤ t then some (.jumpOutOfRange t) else none
  | none => none

/-- The checks of an instruction in their order, with `queue` the values waiting on the input
channel. Each gives the outcome of the step if it applies. -/
def instructionChecks (queue : List Int) (i : Instruction) : List (Option Outcome) :=
  (s.operandChecks i).map (Option.map .failed) ++
    [if i.opcode = .input ∧ queue = [] then some .waiting else none,
      (s.jumpFault? i).map .failed]

/-- The checks of a step in their order. No program counter lies beyond the last address. -/
def checks (queue : List Int) : List (Option Outcome) :=
  [if s.faulted then some (.failed .faulted) else none,
    if s.halted then some .idle else none,
    if lastAddress ≤ s.pc then some (.failed (.addressOutOfRange s.pc)) else none] ++
  match Instruction.decode (s.memory.read s.pc) with
  | .error fault => [some (.failed fault)]
  | .ok i => s.instructionChecks queue i

end

variable {s : State}

theorem opcode?_of_instructionChecks {queue : List Int} {i : Instruction} {o : Outcome}
    (h : some o ∈ s.instructionChecks queue i) : o.opcode? = none := by
  simp only [instructionChecks, List.mem_append, List.mem_map, List.mem_cons, List.not_mem_nil,
    or_false] at h
  rcases h with ⟨c, -, hc⟩ | hwait | hjump
  · obtain ⟨fault, -, rfl⟩ := Option.map_eq_some_iff.mp hc
    rfl
  · split at hwait <;> cases hwait
    rfl
  · obtain ⟨fault, -, rfl⟩ := Option.map_eq_some_iff.mp hjump.symm
    rfl

/-- No check finds that the step succeeds. -/
theorem opcode?_of_finding {queue : List Int} {o : Outcome}
    (h : firstFinding (s.checks queue) = some o) : o.opcode? = none := by
  obtain ⟨c, hc, rfl⟩ := List.exists_of_findSome?_eq_some h
  rw [checks, List.mem_append] at hc
  rcases hc with hc | hc
  · simp only [List.mem_cons, List.not_mem_nil, or_false] at hc
    rcases hc with hc | hc | hc <;> split at hc <;> cases hc <;> rfl
  · split at hc
    · cases List.mem_singleton.mp hc
      rfl
    · exact opcode?_of_instructionChecks hc

theorem lastAddress_succ : lastAddress + 1 = addressSpace := by
  decide

theorem parameterFault?_eq_none {k : Nat} {mode : Mode} (h : s.parameterFault? k mode = none) :
    s.pc + k + 1 < addressSpace := by
  have hlast := lastAddress_succ
  unfold parameterFault? at h
  split at h
  · cases h
  · omega

/-- The address of an operand is found unless something is wrong with its parameter. -/
theorem passes_address (s : State) (k : Nat) (mode : Mode) :
    Passes [s.parameterFault? k mode] (s.denoted k mode).toNat
      (Survey.address s.memory.read mode (s.pc + k) s.base).result := by
  have hlast := lastAddress_succ
  have hdenoted : mode.denote s.memory.read (s.pc + k) s.base = s.denoted k mode := rfl
  have himmediate : mode = .immediate → s.denoted k mode = (s.pc + k : Nat) := by
    rintro rfl
    rfl
  unfold Passes
  rw [firstFinding_singleton]
  simp only [parameterFault?, Survey.address, hdenoted]
  generalize s.denoted k mode = a at himmediate
  by_cases hl : lastAddress ≤ s.pc + k
  · rw [if_pos hl, if_neg (by omega)]
  · rw [if_neg hl, if_pos (by omega)]
    by_cases hmode : mode = .immediate
    · obtain rfl := himmediate hmode
      rw [if_pos hmode, if_neg (by omega), if_pos (by omega)]
    · rw [if_neg hmode]
      by_cases hneg : a < 0
      · rw [if_pos hneg, if_pos hneg]
      · rw [if_neg hneg, if_neg hneg]
        by_cases ha : (lastAddress : Int) ≤ a
        · rw [if_pos ha, if_neg (by omega)]
        · rw [if_neg ha, if_pos (by omega)]

theorem passes_operand (s : State) (k : Nat) (mode : Mode) :
    Passes [s.parameterFault? k mode] (s.operand k mode)
      (Plan.operand s.memory.read s.pc s.base k mode).result := by
  rw [Plan.operand, Survey.result_bind]
  exact (s.passes_address k mode).bind fun _ => passes_ok _

theorem passes_target {i : Instruction} {mode : Mode} (h : i.modes.getLast? = some mode) :
    Passes [s.targetFault? i] (s.denoted i.opcode.arity mode).toNat
      (Plan.target s.memory.read s.pc s.base i.opcode i.opcode.arity mode).result := by
  by_cases hmode : mode = .immediate
  · subst hmode
    simp only [targetFault?, h, Plan.target, if_true]
    rfl
  · have hfault : s.targetFault? i = s.parameterFault? i.opcode.arity mode := by
      unfold targetFault?
      rw [h]
      cases mode with
      | immediate => exact absurd rfl hmode
      | position | relative => rfl
    rw [hfault, Plan.target, if_neg hmode]
    exact s.passes_address i.opcode.arity mode

theorem passes_width (s : State) (i : Instruction) :
    Passes [s.widthFault? i] (s.pc + i.width) (displace s.pc i.width) := by
  unfold Passes
  rw [firstFinding_singleton, widthFault?, displace]
  by_cases h : s.pc + i.width < addressSpace
  · rw [if_pos h, if_neg (Nat.not_le.mpr h)]
  · rw [if_neg h, if_pos (Nat.not_lt.mp h)]

/-- Behind a cell for the result that can be reached there is always room to go on. -/
theorem passes_target_width {i : Instruction} {mode : Mode} (h : i.modes.getLast? = some mode)
    (hnone : firstFinding [s.targetFault? i] = none) :
    Passes [] (s.pc + i.width) (displace s.pc i.width) := by
  rw [firstFinding_singleton] at hnone
  unfold targetFault? at hnone
  rw [h] at hnone
  have hlt : s.pc + i.opcode.arity + 1 < addressSpace := by
    cases mode with
    | immediate => cases hnone
    | position | relative => exact parameterFault?_eq_none hnone
  exact if_pos hlt

theorem passes_compute {i : Instruction} {left right dst : Mode} (f : Int → Int → Int)
    (hmodes : i.modes = [left, right, dst]) (hop : i.opcode.writesResult = true) :
    Passes (s.operandChecks i)
      ⟨⟨i.opcode, s.pc + 4, s.base, false, .none⟩,
        some ((s.denoted 3 dst).toNat, f (s.operand 1 left) (s.operand 2 right))⟩
      (Plan.compute s.memory.read s.pc s.base i.opcode f left right dst).result := by
  have harity : i.opcode.arity = 3 := by
    rw [← i.length_modes, hmodes]
    rfl
  have hlast : i.modes.getLast? = some dst := by
    rw [hmodes]
    rfl
  have htarget := passes_target (s := s) hlast
  have hwidth := passes_target_width (s := s) hlast
  rw [harity] at htarget
  rw [Instruction.width, harity] at hwidth
  have hchecks : s.operandChecks i = [s.targetFault? i] ++ ([] ++ ([s.parameterFault? 1 left] ++
      ([s.parameterFault? 2 right] ++ []))) := by
    simp [operandChecks, Instruction.operandModes, hop, hmodes]
  rw [hchecks]
  simp only [Plan.compute, Survey.result_bind]
  apply htarget.bind
  intro hnone
  apply (hwidth hnone).bind
  intro _
  apply (s.passes_operand 1 left).bind
  intro _
  apply (s.passes_operand 2 right).bind
  intro _
  exact passes_ok _

/-- An input checks nothing but the cell for its value. -/
theorem passes_target_input (s : State) (dst : Mode) :
    Passes (s.operandChecks (.input dst)) (s.denoted 1 dst).toNat
      (Plan.target s.memory.read s.pc s.base .input 1 dst).result :=
  passes_target (i := .input dst) rfl

theorem displace_of_input {dst : Mode} (h : firstFinding (s.operandChecks (.input dst)) = none) :
    Passes [] (s.pc + 2) (displace s.pc 2) :=
  passes_target_width (i := .input dst) rfl h

theorem passes_takeInput {dst : Mode} (v : Int) :
    Passes (s.operandChecks (.input dst))
      ⟨⟨.input, s.pc + 2, s.base, false, .took v⟩, some ((s.denoted 1 dst).toNat, v)⟩
      (Plan.takeInput s.memory.read s.pc s.base (some v) dst).result := by
  rw [← List.append_nil (s.operandChecks (.input dst))]
  simp only [Plan.takeInput, Survey.result_bind]
  apply (s.passes_target_input dst).bind
  intro hnone
  exact (displace_of_input hnone).bind fun _ => passes_ok _

/-- Nothing is wrong with an input exactly if it gets as far as taking a value. -/
theorem firstFinding_input {dst : Mode} :
    firstFinding (s.operandChecks (.input dst)) = none ↔ s.pc + 2 < addressSpace ∧
      ∃ cell, (Plan.target s.memory.read s.pc s.base .input 1 dst).result = .ok cell := by
  have htarget := s.passes_target_input dst
  constructor
  · intro hnone
    exact ⟨(Plan.displace_eq_ok.mp (displace_of_input hnone)).1, _, htarget.eq_ok hnone⟩
  · rintro ⟨-, cell, hcell⟩
    cases hfirst : firstFinding (s.operandChecks (.input dst)) with
    | none => rfl
    | some fault =>
        rw [htarget.eq_error hfirst] at hcell
        cases hcell

theorem passes_jump {i : Instruction} {condition dst : Mode} (taken : Int → Bool)
    (hmodes : i.modes = [condition, dst]) (hop : i.opcode.writesResult = false)
    (hjump : s.jump? i = if taken (s.operand 1 condition) then some (s.operand 2 dst) else none) :
    Passes (s.operandChecks i ++ [s.jumpFault? i])
      ⟨⟨i.opcode, if taken (s.operand 1 condition) then (s.operand 2 dst).toNat else s.pc + 3,
        s.base, false, .none⟩, none⟩
      (Plan.jump s.memory.read s.pc s.base i.opcode taken condition dst).result := by
  have harity : i.opcode.arity = 2 := by
    rw [← i.length_modes, hmodes]
    rfl
  have hwidth := passes_width s i
  have hchecks : s.operandChecks i ++ [s.jumpFault? i] =
      [s.widthFault? i] ++ ([s.parameterFault? 1 condition] ++
        ([s.parameterFault? 2 dst] ++ ([s.jumpFault? i] ++ []))) := by
    simp [operandChecks, Instruction.operandModes, hop, hmodes]
  have hnext : Passes [s.jumpFault? i]
      (if taken (s.operand 1 condition) then (s.operand 2 dst).toNat else s.pc + 3)
      (if taken (s.operand 1 condition) then jumpTarget (s.operand 2 dst) else .ok (s.pc + 3)) := by
    unfold Passes
    rw [firstFinding_singleton, jumpFault?, hjump]
    cases taken (s.operand 1 condition) with
    | false => rfl
    | true =>
        simp only [if_true, jumpTarget]
        by_cases ht : s.operand 2 dst < 0 ∨ (addressSpace : Int) ≤ s.operand 2 dst
        · rw [if_pos ht, if_neg (by omega)]
        · rw [if_neg ht, if_pos (by omega)]
  rw [Instruction.width, harity] at hwidth
  rw [hchecks]
  simp only [Plan.jump, Survey.result_bind]
  apply hwidth.bind
  intro _
  apply (s.passes_operand 1 condition).bind
  intro _
  apply (s.passes_operand 2 dst).bind
  intro _
  apply hnext.bind
  intro _
  exact passes_ok _

/-- Outputs and shifts of the base read one operand. -/
theorem passes_one {i : Instruction} {mode : Mode} (f : Nat → Int → Plan)
    (hmodes : i.modes = [mode]) (hop : i.opcode.writesResult = false) :
    Passes (s.operandChecks i) (f (s.pc + 2) (s.operand 1 mode))
      (do
        let next ← Survey.known (displace s.pc 2)
        let v ← Plan.operand s.memory.read s.pc s.base 1 mode
        return f next v : Survey Plan).result := by
  have harity : i.opcode.arity = 1 := by
    rw [← i.length_modes, hmodes]
    rfl
  have hwidth := passes_width s i
  have hchecks : s.operandChecks i =
      [s.widthFault? i] ++ ([s.parameterFault? 1 mode] ++ []) := by
    simp [operandChecks, Instruction.operandModes, hop, hmodes]
  rw [Instruction.width, harity] at hwidth
  rw [hchecks]
  simp only [Survey.result_bind]
  apply hwidth.bind
  intro _
  apply (s.passes_operand 1 mode).bind
  intro _
  exact passes_ok _

theorem passes_halt (s : State) (front : Option Int) :
    Passes (s.operandChecks .halt) ⟨⟨.halt, s.pc + 1, s.base, true, .none⟩, none⟩
      (Plan.ofInstruction s.memory.read s.pc s.base front .halt).result := by
  change Passes ([s.widthFault? .halt] ++ []) _ _
  simp only [Plan.ofInstruction, Survey.result_bind]
  apply (passes_width s .halt).bind
  intro _
  exact passes_ok _

/-- An instruction that need not wait for a value fails with the first fault that its checks find,
and has a plan if they find none. -/
theorem passes_instruction {front : Option Int} {i : Instruction}
    (h : i.opcode = .input → front ≠ none) :
    ∃ p : Plan, p.effect.opcode = i.opcode ∧ Passes (s.operandChecks i ++ [s.jumpFault? i]) p
      (Plan.ofInstruction s.memory.read s.pc s.base front i).result := by
  cases i with
  | add a b c | mul a b c | lessThan a b c | equals a b c =>
      exact ⟨_, rfl, (passes_compute _ rfl rfl).append_none⟩
  | input a =>
      cases front with
      | none => exact absurd rfl (h rfl)
      | some v => exact ⟨_, rfl, (passes_takeInput v).append_none⟩
  | output a =>
      exact ⟨_, rfl, (passes_one (fun next v => ⟨⟨.output, next, s.base, false, .sent v⟩, none⟩)
        rfl rfl).append_none⟩
  | adjustBase a =>
      exact ⟨_, rfl, (passes_one (fun next v => ⟨⟨.adjustBase, next, s.base + v, false, .none⟩,
        none⟩) rfl rfl).append_none⟩
  | jumpIfTrue a b | jumpIfFalse a b => exact ⟨_, rfl, passes_jump _ rfl rfl (by simp [jump?])⟩
  | halt => exact ⟨_, rfl, (s.passes_halt front).append_none⟩

end State

namespace Plan

/-- The cell at `pc` is reached first, and then decoded. -/
theorem result_fetch (view : Nat → Int) (pc : Nat) (base : Int) (front : Option Int) :
    (fetch view pc base front).result =
      if pc + 1 < addressSpace then
        Instruction.decode (view pc) >>= fun i => (ofInstruction view pc base front i).result
      else .error (.addressOutOfRange pc) := by
  rw [fetch, Survey.result_bind, Survey.cell]
  split
  · exact Survey.result_bind _ _
  · rfl

end Plan

namespace Machine

variable {m : Machine} {queue : List Int}

/-- The outcome of a machine that is ready is that of its plan. -/
theorem outcome_of_ready {front : Option Int} (hfit : m.Fits) (hr : m.Ready front) :
    (m.step front).1 = match (m.plan front).result with
      | .error e => .failed e
      | .ok p => .executed p.effect.opcode p.effect.transfer := by
  rw [step_of_ready hfit hr]
  cases (m.plan front).result <;> rfl

theorem ready_of_not_awaits {front : Option Int} (hfaulted : m.state.faulted = false)
    (hhalted : m.state.halted = false) (h : ¬ m.state.awaitsInput = true) : m.Ready front := by
  rw [Bool.not_eq_true] at h
  exact ⟨hfaulted, hhalted, by rw [h, Bool.and_false]⟩

/-- The outcome of a step agrees with what was found by its checks. -/
def Decided (m : Machine) (queue : List Int) : Option Outcome → Prop
  | some o => (m.step queue.head?).1 = o
  | none => ∃ i t, Instruction.decode (m.state.memory.read m.state.pc) = .ok i ∧
      (m.step queue.head?).1 = .executed i.opcode t

/-- A machine that comes to an input and finds no value fails on what is wrong with the cell for the
value, and waits if nothing is wrong with it. -/
theorem decided_of_empty {dst : Mode} (hfit : m.Fits) (hfaulted : m.state.faulted = false)
    (hhalted : m.state.halted = false) (hpc : m.state.pc + 1 < addressSpace)
    (hi : Instruction.decode (m.state.memory.read m.state.pc) = .ok (.input dst)) :
    m.Decided [] (firstFinding (m.state.instructionChecks [] (.input dst))) := by
  have hawaits : m.state.awaitsInput = true ↔
      firstFinding (m.state.operandChecks (.input dst)) = none := by
    rw [State.awaitsInput_iff, State.firstFinding_input]
    constructor
    · rintro ⟨-, -, hlt, dst', cell, hi', hcell⟩
      rw [hi] at hi'
      cases hi'
      exact ⟨hlt, cell, hcell⟩
    · rintro ⟨hlt, cell, hcell⟩
      exact ⟨hhalted, hfaulted, hlt, dst, cell, hi, hcell⟩
  rw [State.instructionChecks, firstFinding_append, firstFinding_map]
  cases hfirst : firstFinding (m.state.operandChecks (.input dst)) with
  | none =>
      change (m.step none).1 = .waiting
      simp [step, hfaulted, hhalted, hawaits.mpr hfirst]
  | some fault =>
      have hr : m.Ready none := by
        refine ⟨hfaulted, hhalted, ?_⟩
        rw [Option.isNone_none, Bool.true_and, Bool.eq_false_iff, ne_eq, hawaits, hfirst]
        intro hnone
        cases hnone
      have htarget := m.state.passes_target_input dst
      change (m.step none).1 = .failed fault
      rw [outcome_of_ready hfit hr, plan, Plan.result_fetch, if_pos hpc, hi, except_ok_bind,
        Plan.ofInstruction, Plan.takeInput, Survey.result_bind, htarget.eq_error hfirst]
      rfl

/-- A machine that need not wait fails on the first fault that is found, and executes its
instruction if none is. -/
theorem decided_of_ready {i : Instruction} (hfit : m.Fits) (hr : m.Ready queue.head?)
    (hpc : m.state.pc + 1 < addressSpace)
    (hi : Instruction.decode (m.state.memory.read m.state.pc) = .ok i)
    (hqueue : ¬ (i.opcode = .input ∧ queue = [])) :
    m.Decided queue (firstFinding (m.state.instructionChecks queue i)) := by
  have hfront : i.opcode = .input → queue.head? ≠ none := by
    intro hop hnone
    exact hqueue ⟨hop, List.head?_eq_none_iff.mp hnone⟩
  obtain ⟨p, hop, hpasses⟩ := State.passes_instruction (s := m.state) hfront
  have hfirst : firstFinding (m.state.instructionChecks queue i) =
      (firstFinding (m.state.operandChecks i ++ [m.state.jumpFault? i])).map .failed := by
    rw [← firstFinding_map, List.map_append, State.instructionChecks, if_neg hqueue,
      firstFinding_append, firstFinding_append]
    rfl
  have hresult : (m.plan queue.head?).result =
      (Plan.ofInstruction m.state.memory.read m.state.pc m.state.base queue.head? i).result := by
    rw [plan, Plan.result_fetch, if_pos hpc, hi, except_ok_bind]
  rw [hfirst]
  cases hfault : firstFinding (m.state.operandChecks i ++ [m.state.jumpFault? i]) with
  | some fault =>
      change (m.step queue.head?).1 = .failed fault
      rw [outcome_of_ready hfit hr, hresult, hpasses.eq_error hfault]
  | none =>
      refine ⟨i, p.effect.transfer, hi, ?_⟩
      rw [outcome_of_ready hfit hr, hresult, hpasses.eq_ok hfault, ← hop]

/-- What becomes of a step is what the first check that applies says. -/
theorem decided_step (hfit : m.Fits) (queue : List Int) :
    m.Decided queue (firstFinding (m.state.checks queue)) := by
  have hlast := State.lastAddress_succ
  unfold State.checks
  by_cases hfaulted : m.state.faulted = true
  · rw [if_pos hfaulted]
    change (m.step queue.head?).1 = .failed .faulted
    simp [step, hfaulted]
  rw [if_neg hfaulted]
  by_cases hhalted : m.state.halted = true
  · rw [if_pos hhalted]
    change (m.step queue.head?).1 = .idle
    simp [step, hfaulted, hhalted]
  rw [if_neg hhalted]
  rw [Bool.not_eq_true] at hfaulted hhalted
  by_cases hpc : lastAddress ≤ m.state.pc
  · rw [if_pos hpc]
    change (m.step queue.head?).1 = .failed (.addressOutOfRange m.state.pc)
    have hr : m.Ready queue.head? := ready_of_not_awaits hfaulted hhalted fun h => by
      have := (State.awaitsInput_iff _ |>.mp h).2.2.1
      omega
    rw [outcome_of_ready hfit hr, plan, Plan.result_fetch, if_neg (by omega)]
  rw [if_neg hpc]
  cases hi : Instruction.decode (m.state.memory.read m.state.pc) with
  | error fault =>
      change (m.step queue.head?).1 = .failed fault
      have hr : m.Ready queue.head? := ready_of_not_awaits hfaulted hhalted fun h => by
        obtain ⟨-, -, -, dst, cell, hdecode, -⟩ := m.state.awaitsInput_iff.mp h
        rw [hi] at hdecode
        cases hdecode
      rw [outcome_of_ready hfit hr, plan, Plan.result_fetch, if_pos (by omega), hi,
        except_error_bind]
  | ok i =>
      change m.Decided queue (firstFinding (m.state.instructionChecks queue i))
      by_cases hqueue : i.opcode = .input ∧ queue = []
      · obtain ⟨hop, rfl⟩ := hqueue
        obtain ⟨dst, rfl⟩ := Instruction.eq_input_of_opcode hop
        exact decided_of_empty hfit hfaulted hhalted (by omega) hi
      · refine decided_of_ready hfit ?_ (by omega) hi hqueue
        cases queue with
        | cons v rest => exact ⟨hfaulted, hhalted, rfl⟩
        | nil =>
            apply ready_of_not_awaits hfaulted hhalted
            intro h
            obtain ⟨-, -, -, dst, cell, hdecode, -⟩ := m.state.awaitsInput_iff.mp h
            rw [hi] at hdecode
            cases hdecode
            exact hqueue ⟨rfl, rfl⟩

end Machine

namespace Network

variable {n k : Nat}

/-- What becomes of a step is what the first check that applies says, in the order in which the
checks are listed. An instruction is executed exactly if none of them applies, and it is the one
that the cell at the program counter holds. A step of a machine that has stopped before, or that has
to wait, changes nothing in the network. -/
theorem step_first_check (net : Network n k) (i : Fin n)
    (hfit : (net.machines.get i).state.memory.size < addressSpace) :
    let s := (net.machines.get i).state
    let queue := (net.channels.get (net.wires.get i).input).toList
    (∀ o, firstFinding (s.checks queue) = some o → (net.step i).1 = o) ∧
    (firstFinding (s.checks queue) = none ↔
      ∃ instruction transfer, Instruction.decode (s.memory.read s.pc) = .ok instruction ∧
        (net.step i).1 = .executed instruction.opcode transfer) ∧
    ((net.step i).1 = .failed .faulted ∨ (net.step i).1 = .idle ∨ (net.step i).1 = .waiting →
      (net.step i).2 = net) := by
  intro s queue
  have hdecided := Machine.decided_step hfit queue
  have houtcome : (net.step i).1 = ((net.machines.get i).step queue.head?).1 := by
    rw [step_outcome, stepped, front?, Channel.front?_eq]
  rw [houtcome]
  refine ⟨?_, ⟨?_, ?_⟩, ?_⟩
  · intro o ho
    rwa [ho] at hdecided
  · intro hnone
    rwa [hnone] at hdecided
  · rintro ⟨instruction, transfer, -, hexecuted⟩
    cases hfirst : firstFinding (s.checks queue) with
    | none => rfl
    | some o =>
        rw [hfirst] at hdecided
        have hnot := State.opcode?_of_finding hfirst
        rw [← show _ = o from hdecided, hexecuted] at hnot
        cases hnot
  · intro h
    apply step_of_not_ready
    rw [← Machine.isInstruction_step, front?, Channel.front?_eq]
    change ¬ ((net.machines.get i).step queue.head?).1.isInstruction = true
    rcases h with h | h | h <;> rw [h] <;> decide

/-- A product all of whose parameters name negative addresses. The cell for the result is looked at
first. -/
theorem step_first_check_product :
    let net : Network 1 2 := single (.ofList [2, -1, -2, -3]) "product" []
    firstFinding ((net.machines.get 0).state.checks []) = some (.failed (.negativeAddress (-3))) ∧
    (net.step 0).1 = .failed (.negativeAddress (-3)) := by
  intro net
  have hfirst : firstFinding ((net.machines.get 0).state.checks []) =
      some (.failed (.negativeAddress (-3))) := by
    decide +kernel
  exact ⟨hfirst, (step_first_check net 0 (by decide +kernel)).1 _ hfirst⟩

end Network

end Intcode
