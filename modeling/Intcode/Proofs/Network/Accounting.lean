import Intcode.Proofs.Network.Journal

/-!
# Reports account for runs

The report of a machine is updated instruction by instruction, next to the memory, the record of
sent values, the channels and the halt flag. After any session all of them agree with each other and
with the journal. A step that fails makes memory grow without being reported, so the largest size in
the report is the size of memory after the last instruction that was executed.
-/

namespace Intcode

namespace Report

/-- Recording an instruction adds one to the number of all instructions. -/
theorem total_record (r : Report) (op : Opcode) (size : Nat) :
    (r.record op size).total = r.total + 1 := by
  simp only [total, Opcode.all, List.map_cons, List.map_nil, List.foldr_cons, List.foldr_nil,
    count_record]
  cases op <;> simp <;> omega

end Report

namespace TraceEntry

/-- The operations of the instructions that were executed, in order. -/
def executed (steps : List TraceEntry) : List Opcode := steps.filterMap (·.outcome.opcode?)

/-- The sizes of memory right after each instruction that was executed, in order. -/
def sizes (steps : List TraceEntry) : List Nat :=
  (steps.filter (·.outcome.opcode?.isSome)).map (·.size)

variable (steps : List TraceEntry) {entry : TraceEntry}

theorem executed_append_of_none (h : entry.outcome.opcode? = none) :
    executed (steps ++ [entry]) = executed steps := by
  simp [executed, h]

theorem executed_append_of_some {op : Opcode} (h : entry.outcome.opcode? = some op) :
    executed (steps ++ [entry]) = executed steps ++ [op] := by
  simp [executed, h]

theorem taken_append (entry : TraceEntry) :
    taken (steps ++ [entry]) = taken steps ++ entry.outcome.taken := by
  simp [taken]

theorem sizes_append_of_none (h : entry.outcome.opcode? = none) :
    sizes (steps ++ [entry]) = sizes steps := by
  simp [sizes, h]

theorem sizes_append_of_some {op : Opcode} (h : entry.outcome.opcode? = some op) :
    sizes (steps ++ [entry]) = sizes steps ++ [entry.size] := by
  simp [sizes, h]

end TraceEntry

/-- The report of a machine agrees with the steps that it has made since its start, with its record
of sent values, its halt flag and its memory. -/
structure Machine.Accounts (m : Machine) (steps : List TraceEntry) : Prop where
  count : ∀ op, m.report.count op = (TraceEntry.executed steps).count op
  total : m.report.total = (TraceEntry.executed steps).length
  outputs : m.report.count .output = m.diagnostics.size
  inputs : m.report.count .input = (TraceEntry.taken steps).length
  halts : m.report.count .halt = if m.state.halted then 1 else 0
  peak : m.report.peak = (TraceEntry.sizes steps).getLastD 0
  peak_le : m.report.peak ≤ m.state.memory.size
  peak_eq : TraceEntry.executed steps ≠ [] → m.state.faulted = false →
    m.report.peak = m.state.memory.size

namespace Machine

theorem accounts_boot (name : String) (program : Program) : (boot name program).Accounts [] where
  count := Report.count_empty
  total := Report.total_empty
  outputs := Report.count_empty .output
  inputs := Report.count_empty .input
  halts := Report.count_empty .halt
  peak := rfl
  peak_le := Nat.zero_le _
  peak_eq h := absurd rfl h

namespace Accounts

variable {m : Machine} {steps : List TraceEntry} {entry : TraceEntry}

/-- A step that executes nothing is not accounted for. -/
theorem skip (h : m.Accounts steps) (hnone : entry.outcome.opcode? = none)
    (htaken : entry.outcome.taken = []) : m.Accounts (steps ++ [entry]) where
  count := by rw [TraceEntry.executed_append_of_none steps hnone]; exact h.count
  total := by rw [TraceEntry.executed_append_of_none steps hnone]; exact h.total
  outputs := h.outputs
  inputs := by rw [TraceEntry.taken_append, htaken, List.append_nil]; exact h.inputs
  halts := h.halts
  peak := by rw [TraceEntry.sizes_append_of_none steps hnone]; exact h.peak
  peak_le := h.peak_le
  peak_eq := by rw [TraceEntry.executed_append_of_none steps hnone]; exact h.peak_eq

/-- A machine that stops on a fault may have more memory than its report says. -/
theorem stop {memory : Memory} (h : m.Accounts steps)
    (hsize : m.state.memory.size ≤ memory.size) : (m.stop memory).Accounts steps where
  count := h.count
  total := h.total
  outputs := h.outputs
  inputs := h.inputs
  halts := h.halts
  peak := h.peak
  peak_le := Nat.le_trans h.peak_le hsize
  peak_eq _ hclear := absurd hclear (by simp [Machine.stop])

/-- An executed instruction is reported together with the size of memory. -/
theorem complete {front : Option Int} {e : Effect} {memory : Memory} (h : m.Accounts steps)
    (hhalted : m.state.halted = false) (he : e.Conforms front)
    (hsize : m.state.memory.size ≤ memory.size) :
    (m.complete e memory).Accounts
      (steps ++ [.of (.executed e.opcode e.transfer, m.complete e memory)]) := by
  -- Memory never gets shorter, so the largest size so far is the latest one.
  have hpeak : max m.report.peak memory.size = memory.size :=
    Nat.max_eq_right (Nat.le_trans h.peak_le hsize)
  have hexecuted : TraceEntry.executed (steps ++ [.of (.executed e.opcode e.transfer,
      m.complete e memory)]) = TraceEntry.executed steps ++ [e.opcode] :=
    TraceEntry.executed_append_of_some steps rfl
  have hhalts := h.halts
  rw [hhalted] at hhalts
  constructor
  case count =>
    intro op
    rw [hexecuted, List.count_append, List.count_singleton, ← h.count]
    simp only [Machine.complete, Report.count_record, beq_iff_eq, @eq_comm _ op]
  case total =>
    rw [hexecuted, List.length_append, ← h.total]
    exact Report.total_record ..
  case outputs =>
    simp only [Machine.complete, Report.count_record, h.outputs]
    cases he with
    | output pc base v => simp [log]
    | input pc base v hv => simp [log]
    | halt pc base => simp [log]
    | other opcode pc base hin hout hhalt => simp [log, Ne.symm hout]
  case inputs =>
    rw [TraceEntry.taken_append, List.length_append, ← h.inputs]
    simp only [Machine.complete, Report.count_record, TraceEntry.of]
    cases he with
    | input pc base v hv => simp [Outcome.taken]
    | output pc base v => simp [Outcome.taken]
    | halt pc base => simp [Outcome.taken]
    | other opcode pc base hin hout hhalt => simp [Outcome.taken, Ne.symm hin]
  case halts =>
    simp only [Machine.complete, Report.count_record, hhalts]
    cases he with
    | halt pc base => simp
    | input pc base v hv => simp
    | output pc base v => simp
    | other opcode pc base hin hout hhalt => simp [Ne.symm hhalt]
  case peak =>
    rw [TraceEntry.sizes_append_of_some steps rfl, List.getLastD_concat]
    exact hpeak
  case peak_le => exact Nat.le_of_eq hpeak
  case peak_eq =>
    intro _ _
    exact hpeak

/-- The report keeps accounting for the steps. -/
theorem step (h : m.Accounts steps) (front : Option Int) :
    (m.step front).2.Accounts (steps ++ [.of (m.step front)]) := by
  rcases step_ending front m with hr | ⟨-, fault, memory, -, hsize, hs⟩ |
    ⟨hr, e, memory, he, hsize, hs⟩
  · rw [(stays_of_not_ready hr).1]
    rcases step_of_not_ready hr with ⟨-, hs⟩ | ⟨-, hs⟩ | hs <;> rw [hs] <;> exact h.skip rfl rfl
  · rw [hs]
    exact (h.stop hsize).skip rfl rfl
  · rw [hs]
    exact h.complete hr.2.1 he hsize

end Accounts

end Machine

namespace Network

variable {n k : Nat}

/-- The report of a machine that started in a session or at its beginning accounts for all that the
machine did since, unless its state was changed from outside. -/
theorem accounts_since {net : Network n k} {moves : List (Move n k)} {i : Fin n}
    (hstart : (∃ name program, net.machines.get i = .boot name program) ∨
      .start i ∈ net.record moves)
    (hwrite : .overwrite i ∉ (net.record moves).since i) :
    ((net.moveAll moves).machines.get i).Accounts (((net.record moves).since i).stepsOf i) :=
  since_preserves hstart hwrite Machine.accounts_boot fun _ front _ h => h.step front

/-- In every state that a machine reaches from its making or from a reset, its report counts the
instructions executed since then, operation by operation and in total; inputs are as many as the
values taken, outputs as many as the values sent, and there is one halt if the machine has halted.
The reported size is that of memory after the last executed instruction, or zero before there is
one. It never exceeds the size of memory, and is that size unless the machine has faulted. -/
theorem report_accounts (net : Network n k) (ops : List (Operation n k)) (i : Fin n)
    (hstart : (∃ name program, net.machines.get i = .boot name program) ∨
      .start i ∈ net.journal ops)
    (hwrite : .overwrite i ∉ (net.journal ops).since i) :
    let m := (net.operateAll ops).machines.get i
    let steps := ((net.journal ops).since i).stepsOf i
    let executed := TraceEntry.executed steps
    (∀ op, m.report.count op = executed.count op) ∧
    m.report.total = executed.length ∧
    m.report.count .output = m.diagnostics.size ∧
    m.report.count .input = (TraceEntry.taken steps).length ∧
    m.report.count .halt = (if m.state.halted then 1 else 0) ∧
    m.report.peak = (TraceEntry.sizes steps).getLastD 0 ∧
    m.report.peak ≤ m.state.memory.size ∧
    (executed ≠ [] → m.state.faulted = false → m.report.peak = m.state.memory.size) := by
  intro m steps executed
  have h : m.Accounts steps := by
    rw [show m = (net.moveAll (net.expand ops)).machines.get i by rw [← operateAll_eq_moveAll]]
    exact accounts_since hstart hwrite
  exact ⟨h.count, h.total, h.outputs, h.inputs, h.halts, h.peak, h.peak_le, h.peak_eq⟩

/-- A machine that sends 7, stores an input in cell 20 and then adds to cell 30 a cell with a
negative address. -/
def overreach : Network 1 2 :=
  single (.ofList [104, 7, 3, 20, 1, 30, -1, 0]) "overreach" [5]

/-- The failing addition leaves 31 cells of memory, and the report stays at the 21 of the input. -/
theorem report_accounts_overreach :
    let ops : List (Operation 1 2) := [.act (.run 0 10), .act (.step 0)]
    let m := (overreach.operateAll ops).machines.get 0
    let steps := ((overreach.journal ops).since 0).stepsOf 0
    m.report.count .input = (TraceEntry.taken steps).length ∧
    m.report.peak = (TraceEntry.sizes steps).getLastD 0 ∧
    TraceEntry.executed steps = [.output, .input] ∧ TraceEntry.sizes steps = [8, 21] ∧
    m.state.memory.size = 31 := by
  intro ops m steps
  obtain ⟨-, -, -, hinputs, -, hpeak, -⟩ := report_accounts overreach ops 0
    (.inl ⟨"overreach", (overreach.machines.get 0).program, by decide +kernel⟩) (by decide +kernel)
  exact ⟨hinputs, hpeak, by decide +kernel, by decide +kernel, by decide +kernel⟩

end Network

end Intcode
