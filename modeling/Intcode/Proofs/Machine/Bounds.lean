import Intcode.Proofs.Instruction.Guarded
import Intcode.Proofs.Machine.Precedence

/-!
# Steps within bounds

A machine whose program counter and memory size are machine numbers keeps them so. Its steps violate
none of the bounds that cells, modes and sums rely on, and a sum that would be no machine number is
noticed and reported as an address out of range.
-/

namespace Intcode

theorem Instruction.decode_ne_disconnected (v : Int) : decode v ≠ .error .inputDisconnected := by
  intro h
  cases v with
  | ofNat word =>
      obtain ⟨e, he, -⟩ := decode_natCast_eq_error.mp h
      cases he
  | negSucc word => cases h

namespace Plan

/-- A planned instruction goes on at an address. -/
theorem pc_lt_of_fetch {view : Nat → Int} {pc : Nat} {base : Int} {front : Option Int} {p : Plan}
    (h : (fetch view pc base front).result = .ok p) : p.effect.pc < addressSpace := by
  obtain ⟨-, i, -, hi⟩ := fetch_eq_ok.mp h
  cases i with
  | add _ _ _ | mul _ _ _ | lessThan _ _ _ | equals _ _ _ =>
      obtain ⟨_, _, _, -, hpc, -, -, rfl⟩ := compute_eq_ok.mp hi
      exact hpc
  | input _ =>
      obtain ⟨_, _, -, hpc, -, rfl⟩ := takeInput_eq_ok.mp hi
      exact hpc
  | jumpIfTrue _ _ | jumpIfFalse _ _ =>
      obtain ⟨_, _, next, hpc, -, -, hnext, rfl⟩ := jump_eq_ok.mp hi
      split at hnext
      · exact hnext.1
      · rw [hnext]
        exact hpc
  | output _ | adjustBase _ =>
      obtain ⟨_, hpc, -, rfl⟩ := single_eq_ok.mp hi
      exact hpc
  | halt =>
      obtain ⟨hpc, rfl⟩ := halt_eq_ok.mp hi
      exact hpc

/-- An input that gets as far as taking a value finds out that there is none. -/
theorem fetch_disconnected {view : Nat → Int} {pc : Nat} {base : Int} {dst : Mode} {cell : Nat}
    (hpc : pc + 2 < addressSpace) (hi : Instruction.decode (view pc) = .ok (.input dst))
    (hcell : (target view pc base .input 1 dst).result = .ok cell) :
    (fetch view pc base none).result = .error .inputDisconnected := by
  have hnext : displace pc 2 = .ok (pc + 2) := if_pos hpc
  rw [result_fetch, if_pos (Nat.lt_of_succ_lt hpc), hi, except_ok_bind, ofInstruction, takeInput,
    Survey.result_bind, hcell, except_ok_bind, Survey.result_bind, hnext]
  rfl

end Plan

namespace State

variable {s : State}

theorem parameterFault?_ne_disconnected (k : Nat) (mode : Mode) :
    s.parameterFault? k mode ≠ some .inputDisconnected := by
  unfold parameterFault?
  grind

theorem operandChecks_ne_disconnected {i : Instruction} :
    some .inputDisconnected ∉ s.operandChecks i := by
  intro h
  rw [operandChecks, List.mem_cons, List.mem_map] at h
  rcases h with h | ⟨⟨mode, k⟩, -, h⟩
  · split at h
    · unfold targetFault? at h
      split at h
      · cases h
      · exact parameterFault?_ne_disconnected _ _ h.symm
      · cases h
    · unfold widthFault? at h
      split at h <;> cases h
  · exact parameterFault?_ne_disconnected _ _ h

/-- No check finds that the input channel can deliver no value. -/
theorem finding_ne_disconnected {queue : List Int} {o : Outcome}
    (h : firstFinding (s.checks queue) = some o) : o ≠ .failed .inputDisconnected := by
  rintro rfl
  obtain ⟨c, hc, rfl⟩ := List.exists_of_findSome?_eq_some h
  rw [checks, List.mem_append] at hc
  rcases hc with hc | hc
  · simp only [List.mem_cons, List.not_mem_nil, or_false] at hc
    rcases hc with hc | hc | hc <;> split at hc <;> cases hc
  · split at hc
    · next hi =>
      cases List.mem_singleton.mp hc
      exact absurd hi (Instruction.decode_ne_disconnected _)
    · simp only [instructionChecks, List.mem_append, List.mem_map, List.mem_cons,
        List.not_mem_nil, or_false] at hc
      rcases hc with ⟨c, hmem, hc⟩ | hwait | hjump
      · obtain ⟨fault, rfl, hfault⟩ := Option.map_eq_some_iff.mp hc
        cases hfault
        exact operandChecks_ne_disconnected hmem
      · split at hwait <;> cases hwait
      · obtain ⟨fault, hfault, he⟩ := Option.map_eq_some_iff.mp hjump.symm
        cases he
        unfold jumpFault? at hfault
        split at hfault
        · split at hfault <;> cases hfault
        · cases hfault

/-- An instruction that reaches beyond the last address is refused for an address, or for the cell
of its result being its own parameter. -/
theorem firstFinding_of_overflow (s : State) {i : Instruction}
    (h : addressSpace ≤ s.pc + i.width) :
    (i.opcode.writesResult = true ∧
        firstFinding (s.operandChecks i) = some (.immediateTarget i.opcode s.pc)) ∨
      ∃ a, addressSpace ≤ a + 1 ∧
        firstFinding (s.operandChecks i) = some (.addressOutOfRange a) := by
  have hlast := lastAddress_succ
  have hwidth : i.width = i.opcode.arity + 1 := rfl
  have hparameter (mode : Mode) : s.parameterFault? i.opcode.arity mode =
      some (.addressOutOfRange (s.pc + i.opcode.arity)) :=
    if_pos (by omega)
  unfold operandChecks
  by_cases hwrites : i.opcode.writesResult = true
  · rw [if_pos hwrites, targetFault?]
    split
    · exact .inl ⟨hwrites, rfl⟩
    · rw [hparameter]
      exact .inr ⟨_, by omega, rfl⟩
    · next hnone =>
      -- An operation with a result has a parameter for it.
      cases i <;> cases hwrites <;> cases hnone
  · have hfault : s.widthFault? i = some (.addressOutOfRange (s.pc + i.width)) := if_pos h
    rw [if_neg hwrites, hfault]
    exact .inr ⟨_, Nat.le_succ_of_le h, rfl⟩

end State

namespace Machine

variable {m : Machine} {front : Option Int}

/-- A step fails on what is wrong with the machine, never for want of a value. -/
theorem step_ne_disconnected (hfit : m.Fits) (front : Option Int) :
    (m.step front).1 ≠ .failed .inputDisconnected := by
  have hdecided := decided_step hfit front.toList
  have hfront : front.toList.head? = front := Option.head?_toList
  cases hfirst : firstFinding (m.state.checks front.toList) with
  | some o =>
      rw [hfirst] at hdecided
      change (m.step front.toList.head?).1 = o at hdecided
      rw [hfront] at hdecided
      rw [hdecided]
      exact State.finding_ne_disconnected hfirst
  | none =>
      rw [hfirst] at hdecided
      obtain ⟨i, t, -, hexecuted⟩ := hdecided
      rw [hfront] at hexecuted
      rw [hexecuted]
      intro h
      cases h

/-- The step of a machine that is ready ends as the instruction at its program counter does. -/
theorem step_of_exec (hr : m.Ready front) :
    m.step front =
      match (Instruction.execute m.state.pc m.state.base front).exec m.state.memory with
      | (.error fault, memory) => (.failed fault, m.stop memory)
      | (.ok e, memory) => (.executed e.opcode e.transfer, m.complete e memory) := by
  obtain ⟨name, program, ⟨pc, base, memory, halted, faulted⟩, diagnostics, report⟩ := m
  obtain ⟨hfaulted, hhalted, hwait⟩ := hr
  simp only at hfaulted hhalted
  subst hfaulted hhalted
  simp only [step, hwait, Bool.false_eq_true, if_false]
  generalize (Instruction.execute pc base front).exec memory = r
  rcases r with ⟨fault | e, memory'⟩ <;> rfl

/-- A machine that has to wait comes as far as the channel. -/
theorem exec_of_awaits (hfit : m.Fits) (h : m.state.awaitsInput = true) :
    ∃ memory, (Instruction.execute m.state.pc m.state.base none).exec m.state.memory =
      (.error .inputDisconnected, memory) := by
  obtain ⟨-, -, hpc, dst, cell, hi, hcell⟩ := m.state.awaitsInput_iff.mp h
  rw [Instruction.exec_execute _ _ _ _ hfit, Survey.commit, Plan.fetch_disconnected hpc hi hcell]
  exact ⟨_, rfl⟩

/-- A step of an instruction that reaches beyond the last address fails for an address, unless the
instruction is refused before that for the cell of its result. -/
theorem fails_of_overflow {i : Instruction} (hfit : m.Fits) (hfaulted : m.state.faulted = false)
    (hhalted : m.state.halted = false)
    (hi : Instruction.decode (m.state.memory.read m.state.pc) = .ok i)
    (h : addressSpace ≤ m.state.pc + i.width) (front : Option Int) :
    (i.opcode.writesResult = true ∧
        (m.step front).1 = .failed (.immediateTarget i.opcode m.state.pc)) ∨
      ∃ a, addressSpace ≤ a + 1 ∧ (m.step front).1 = .failed (.addressOutOfRange a) := by
  have hfound {fault : Fault}
      (hfirst : firstFinding (m.state.checks front.toList) = some (.failed fault)) :
      (m.step front).1 = .failed fault := by
    have hdecided := decided_step hfit front.toList
    rw [hfirst] at hdecided
    rwa [Decided, Option.head?_toList] at hdecided
  by_cases hpc : lastAddress ≤ m.state.pc
  · have hlast := State.lastAddress_succ
    refine .inr ⟨m.state.pc, by omega, hfound ?_⟩
    rw [State.checks, hfaulted, hhalted, if_pos hpc]
    rfl
  · have hchecks : firstFinding (m.state.checks front.toList) =
        firstFinding (m.state.instructionChecks front.toList i) := by
      rw [State.checks, hfaulted, hhalted, if_neg hpc, hi]
      rfl
    rw [State.instructionChecks, firstFinding_append, firstFinding_map] at hchecks
    rcases m.state.firstFinding_of_overflow h with
      ⟨hwrites, hfault⟩ | ⟨a, ha, hfault⟩
    · rw [hfault] at hchecks
      exact .inl ⟨hwrites, hfound hchecks⟩
    · rw [hfault] at hchecks
      exact .inr ⟨a, ha, hfound hchecks⟩

/-- The program counter and the size of memory are machine numbers. -/
def InBounds (m : Machine) : Prop := m.state.pc < addressSpace ∧ m.state.memory.size < addressSpace

theorem InBounds.step (h : m.InBounds) (front : Option Int) : (m.step front).2.InBounds := by
  refine ⟨?_, fits_step front h.2⟩
  rcases step_cases front h.2 with hr | ⟨-, e, -, hs⟩ | ⟨-, p, hp, hs⟩
  · rw [(stays_of_not_ready hr).1]
    exact h.1
  · rw [hs]
    exact h.1
  · rw [hs]
    exact Plan.pc_lt_of_fetch hp

/-- Make one step after the other, each with the value that waits on the input channel by then. -/
def stepAll : List (Option Int) → Machine → List Outcome × Machine
  | [], m => ([], m)
  | front :: rest, m =>
    let (outcome, m) := m.step front
    let (outcomes, m) := stepAll rest m
    (outcome :: outcomes, m)

end Machine

namespace Guarded

/-- Make a step. A machine that gets as far as taking a value where there is none waits, with all
that it has done so far undone. -/
def step (front : Option Int) (m : Machine) : Except Violation (Outcome × Machine) :=
  if m.state.faulted then .ok (.failed .faulted, m)
  else if m.state.halted then .ok (.idle, m)
  else
    match (execute m.state.pc m.state.base front).exec m.state.memory with
    | .error v => .error v
    | .ok (.error .inputDisconnected, _) => .ok (.waiting, m)
    | .ok (.error fault, memory) => .ok (.failed fault, m.stop memory)
    | .ok (.ok e, memory) => .ok (.executed e.opcode e.transfer, m.complete e memory)

/-- Make one step after the other. -/
def stepAll : List (Option Int) → Machine → Except Violation (List Outcome × Machine)
  | [], m => .ok ([], m)
  | front :: rest, m => do
    let (outcome, m) ← step front m
    let (outcomes, m) ← stepAll rest m
    return (outcome :: outcomes, m)

/-- A step of a machine that is ready keeps to the bounds. -/
theorem step_of_ready {m : Machine} {front : Option Int} (hfit : m.Fits) (hr : m.Ready front) :
    step front m = .ok (m.step front) := by
  have hexec := (follows_execute m.state.pc m.state.base front).exec_eq m.state.memory hfit
  have hne := m.step_ne_disconnected hfit front
  rw [m.step_of_exec hr] at hne ⊢
  rw [step, hr.1, hr.2.1, hexec]
  generalize (Instruction.execute m.state.pc m.state.base front).exec m.state.memory = r at hne
  rcases r with ⟨fault | e, memory⟩
  · cases fault with
    | inputDisconnected => exact absurd rfl hne
    | _ => rfl
  · rfl

/-- A step keeps to the bounds and is the step that the machine makes. -/
theorem step_eq {m : Machine} (hfit : m.Fits) (front : Option Int) :
    step front m = .ok (m.step front) := by
  by_cases hfaulted : m.state.faulted = true
  · simp [step, Machine.step, hfaulted]
  by_cases hhalted : m.state.halted = true
  · simp [step, Machine.step, hfaulted, hhalted]
  rw [Bool.not_eq_true] at hfaulted hhalted
  cases hwait : (front.isNone && m.state.awaitsInput) with
  | false => exact step_of_ready hfit ⟨hfaulted, hhalted, hwait⟩
  | true =>
      obtain ⟨hfront, hawaits⟩ := Bool.and_eq_true_iff.mp hwait
      obtain rfl := Option.isNone_iff_eq_none.mp hfront
      obtain ⟨memory, hexec⟩ := m.exec_of_awaits hfit hawaits
      have hguarded := (follows_execute m.state.pc m.state.base none).exec_eq m.state.memory hfit
      rw [hexec] at hguarded
      simp [step, Machine.step, hfaulted, hhalted, hawaits, hguarded]

theorem stepAll_eq {m : Machine} (h : m.InBounds) (fronts : List (Option Int)) :
    stepAll fronts m = .ok (m.stepAll fronts) ∧ (m.stepAll fronts).2.InBounds := by
  induction fronts generalizing m with
  | nil => exact ⟨rfl, h⟩
  | cons front rest ih =>
      obtain ⟨hrest, hbounds⟩ := ih (h.step front)
      refine ⟨?_, hbounds⟩
      rw [stepAll, step_eq h.2, except_ok_bind]
      change (stepAll rest (m.step front).2 >>= _) = _
      rw [hrest]
      rfl

end Guarded

namespace Machine

/-- A step keeps within machine numbers and never does anything without an outcome. On a machine
whose program counter and memory size are machine numbers, it looks up no cell beyond the end of
memory and no mode that an instruction does not have, collects no more than three modes, makes no
sum that is not checked and no machine number, and leaves such a program counter and memory size. An
instruction that reaches beyond the last address fails for an address there, unless it is refused
for the cell of its result. So it is along every run, whatever values arrive in the meantime. -/
theorem keeps_to_bounds (m : Machine) (h : m.InBounds) :
    (∀ front, Guarded.step front m = .ok (m.step front) ∧ (m.step front).2.InBounds) ∧
    (m.state.faulted = false → m.state.halted = false →
      ∀ i, Instruction.decode (m.state.memory.read m.state.pc) = .ok i →
        addressSpace ≤ m.state.pc + i.width → ∀ front,
          (i.opcode.writesResult = true ∧
            (m.step front).1 = .failed (.immediateTarget i.opcode m.state.pc)) ∨
          ∃ a, addressSpace ≤ a + 1 ∧ (m.step front).1 = .failed (.addressOutOfRange a)) ∧
    ∀ fronts, Guarded.stepAll fronts m = .ok (m.stepAll fronts) ∧
      (m.stepAll fronts).2.InBounds :=
  ⟨fun front => ⟨Guarded.step_eq h.2 front, h.step front⟩,
    fun hfaulted hhalted _ hi hoverflow front =>
      fails_of_overflow h.2 hfaulted hhalted hi hoverflow front,
    fun fronts => Guarded.stepAll_eq h fronts⟩

/-- A machine that jumps to the last address of all and fails there, and one that comes to a jump
whose last parameter would be there. -/
theorem keeps_to_bounds_lastAddress :
    (let m : Machine := .boot "edge" (.ofList [1105, 1, 18446744073709551615]);
      Guarded.stepAll [none, some 7] m = .ok (m.stepAll [none, some 7]) ∧
      (m.stepAll [none, some 7]).1 =
        [.executed .jumpIfTrue .none, .failed (.addressOutOfRange 18446744073709551615)] ∧
      (m.stepAll [none, some 7]).2.state.pc = 18446744073709551615) ∧
    (let memory : Memory := ⟨Array.replicate 18446744073709551615 1105⟩
      let m : Machine := ⟨"full", ⟨#[]⟩, ⟨18446744073709551613, 0, memory, false, false⟩, #[],
        .empty⟩
      ∃ a, addressSpace ≤ a + 1 ∧ (m.step none).1 = .failed (.addressOutOfRange a)) := by
  refine ⟨?_, ?_⟩
  · intro m
    obtain ⟨-, -, hrun⟩ := keeps_to_bounds m ⟨by decide, by decide⟩
    exact ⟨(hrun [none, some 7]).1, by decide +kernel, by decide +kernel⟩
  · intro memory m
    have hsize : memory.size = 18446744073709551615 := Array.size_replicate
    have hread : memory.read 18446744073709551613 = 1105 := by
      simp [memory, Memory.read, Memory.get?]
    have hi : Instruction.decode (memory.read 18446744073709551613) =
        .ok (.jumpIfTrue .immediate .immediate) := by
      rw [hread]
      rfl
    have hbounds : m.InBounds := by
      refine ⟨by decide, ?_⟩
      rw [hsize]
      decide
    obtain ⟨-, hoverflow, -⟩ := keeps_to_bounds m hbounds
    rcases hoverflow rfl rfl _ hi (by decide) none with ⟨hwrites, -⟩ | h
    · cases hwrites
    · exact h

end Machine

end Intcode
