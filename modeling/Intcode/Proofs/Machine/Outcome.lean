import Intcode.Proofs.Instruction.Contract
import Intcode.Proofs.Machine.Step

/-!
# Outcomes of steps

What the outcome of a step tells about the step. It carries out an instruction exactly if the
machine was ready for one, it takes or sends a value exactly if the instruction is an input or an
output, and the value that is taken is all that the step owes to the input channel.
-/

namespace Intcode

namespace Outcome

/-- The value that an executed input took. -/
def taken : Outcome → List Int
  | executed .input (.took v) => [v]
  | _ => []

/-- The value that an executed output sent. -/
def sent : Outcome → List Int
  | executed .output (.sent v) => [v]
  | _ => []

/-- The operation that was executed. -/
def opcode? : Outcome → Option Opcode
  | executed op _ => some op
  | idle | waiting | failed _ => none

/-- Whether an instruction was carried out, to its end or to a fault of its own. -/
def isInstruction : Outcome → Bool
  | executed .. => true
  | failed fault => fault ≠ .faulted
  | idle | waiting => false

end Outcome

namespace Machine

/-- Stop on a fault and keep a memory. -/
def stop (m : Machine) (memory : Memory) : Machine :=
  { m with state := { m.state with memory, faulted := true } }

/-- Go on after an effect and keep a memory. -/
def complete (m : Machine) (e : Effect) (memory : Memory) : Machine :=
  { m with
    state := ⟨e.pc, e.base, memory, e.halted, false⟩
    diagnostics := log m.diagnostics e.transfer
    report := m.report.record e.opcode memory.size }

variable {m : Machine} {front : Option Int}

/-- Everything that a step can do, whatever memory holds: nothing, stop on a fault, or complete an
instruction with an effect that conforms to its operation. -/
theorem step_ending (front : Option Int) (m : Machine) :
    ¬ m.Ready front ∨
    (m.Ready front ∧ ∃ fault memory, fault ≠ .faulted ∧ m.state.memory.size ≤ memory.size ∧
      m.step front = (.failed fault, m.stop memory)) ∨
    (m.Ready front ∧ ∃ e memory, e.Conforms front ∧ m.state.memory.size ≤ memory.size ∧
      m.step front = (.executed e.opcode e.transfer, m.complete e memory)) := by
  by_cases hr : m.Ready front
  · refine .inr ?_
    obtain ⟨name, program, ⟨pc, base, memory, halted, faulted⟩, diagnostics, report⟩ := m
    have hmeets := Instruction.meets_execute pc base front
    have hsize := hmeets.size_le memory
    have hresult := hmeets.result memory
    have hfault := hmeets.fault memory
    have hready := hr
    obtain ⟨hfaulted, hhalted, hwait⟩ := hr
    simp only at hfaulted hhalted
    subst hfaulted hhalted
    simp only [step, hwait, Bool.false_eq_true, if_false]
    generalize (Instruction.execute pc base front).exec memory = r at hsize hresult hfault
    rcases r with ⟨fault | e, memory'⟩
    · refine .inl ⟨hready, fault, memory', ?_, hsize, rfl⟩
      rintro rfl
      exact hfault rfl
    · exact .inr ⟨hready, e, memory', hresult e rfl, hsize, rfl⟩
  · exact .inl hr

/-- A step carries out an instruction exactly if the machine is ready for one. -/
theorem isInstruction_step : (m.step front).1.isInstruction = true ↔ m.Ready front := by
  rcases step_ending front m with hr | ⟨hr, fault, memory, hfault, -, hs⟩ |
    ⟨hr, e, memory, -, -, hs⟩
  · refine iff_of_false ?_ hr
    rcases step_of_not_ready hr with ⟨-, hs⟩ | ⟨-, hs⟩ | hs <;>
      simp [hs, Outcome.isInstruction]
  · refine iff_of_true ?_ hr
    simpa [hs, Outcome.isInstruction] using hfault
  · refine iff_of_true ?_ hr
    rw [hs]
    rfl

/-- A machine that has to wait stays as it is. -/
theorem step_of_waiting (h : (m.step front).1 = .waiting) : (m.step front).2 = m := by
  have hr : ¬ m.Ready front := by
    rw [← isInstruction_step, h]
    decide
  exact (stays_of_not_ready hr).1

/-- What a step moves is the value of an input, which waited at the front, or of an output. -/
theorem transfer_step (front : Option Int) (m : Machine) :
    ((m.step front).1.transfer = .none ∧ (m.step front).1.taken = [] ∧
      (m.step front).1.sent = []) ∨
    (∃ v, front = some v ∧ (m.step front).1 = .executed .input (.took v)) ∨
    ∃ v, (m.step front).1 = .executed .output (.sent v) := by
  rcases step_ending front m with hr | ⟨-, fault, memory, -, -, hs⟩ | ⟨-, e, memory, he, -, hs⟩
  · rcases step_of_not_ready hr with ⟨-, hs⟩ | ⟨-, hs⟩ | hs <;> rw [hs] <;>
      exact .inl ⟨rfl, rfl, rfl⟩
  · rw [hs]
    exact .inl ⟨rfl, rfl, rfl⟩
  · rw [hs]
    cases he with
    | input pc base v h => exact .inr (.inl ⟨v, h, rfl⟩)
    | output pc base v => exact .inr (.inr ⟨v, rfl⟩)
    | halt pc base => exact .inl ⟨rfl, rfl, rfl⟩
    | other opcode pc base hin hout hhalt => cases opcode <;> exact .inl ⟨rfl, rfl, rfl⟩

/-- The record of sent values grows by what a step sends. -/
theorem diagnostics_step (front : Option Int) (m : Machine) :
    (m.step front).2.diagnostics.toList = m.diagnostics.toList ++ (m.step front).1.sent := by
  rcases step_ending front m with hr | ⟨-, fault, memory, -, -, hs⟩ | ⟨-, e, memory, he, -, hs⟩
  · rw [(stays_of_not_ready hr).1]
    rcases step_of_not_ready hr with ⟨-, hs⟩ | ⟨-, hs⟩ | hs <;> simp [hs, Outcome.sent]
  · simp [hs, stop, Outcome.sent]
  · cases he with
    | input pc base v h => simp [hs, complete, log, Outcome.sent]
    | output pc base v => simp [hs, complete, log, Outcome.sent]
    | halt pc base => simp [hs, complete, log, Outcome.sent]
    | other opcode pc base hin hout hhalt => simp [hs, complete, log, Outcome.sent]

/-- A machine that awaits a value and finds one takes it. -/
theorem step_of_awaits {v : Int} (hfit : m.Fits) (h : m.state.awaitsInput = true) :
    (m.step (some v)).1 = .executed .input (.took v) := by
  obtain ⟨hhalted, hfaulted, hpc, dst, cell, hd, hcell⟩ := m.state.awaitsInput_iff.mp h
  have htake := Plan.takeInput_eq_ok.mpr ⟨cell, v, hcell, hpc, rfl, rfl⟩
  have hok := Plan.fetch_eq_ok.mpr ⟨Nat.lt_of_succ_lt hpc, _, hd, htake⟩
  rw [step_of_ok hfit ⟨hfaulted, hhalted, rfl⟩ hok]

/-- A machine that makes a step without taking a value was ready for it without one. -/
theorem ready_none_of_taken (hfit : m.Fits) (hr : m.Ready front)
    (h : (m.step front).1.taken = []) : m.Ready none := by
  refine ⟨hr.1, hr.2.1, ?_⟩
  cases hawaits : m.state.awaitsInput with
  | false => rfl
  | true =>
      cases front with
      | none =>
          have hwait := hr.2.2
          rw [hawaits] at hwait
          cases hwait
      | some v =>
          rw [step_of_awaits hfit hawaits] at h
          cases h

/-- A machine that has stopped does not look at what is waiting. -/
theorem step_of_stopped (h : m.state.faulted = true ∨ m.state.halted = true)
    (front front' : Option Int) : m.step front = m.step front' := by
  unfold step
  by_cases hfaulted : m.state.faulted = true
  · rw [if_pos hfaulted, if_pos hfaulted]
  · have hhalted := h.resolve_left hfaulted
    rw [if_neg hfaulted, if_neg hfaulted, if_pos hhalted, if_pos hhalted]

/-- A step that takes no value does not depend on what is waiting. -/
theorem step_eq_of_taken_nil (hfit : m.Fits) (hmade : (m.step front).1 ≠ .waiting)
    (htaken : (m.step front).1.taken = []) (front' : Option Int) :
    m.step front' = m.step front := by
  by_cases hr : m.Ready front
  · have hnone := ready_none_of_taken hfit hr htaken
    rw [hnone.step_eq hfit front', hnone.step_eq hfit front]
  · rcases step_of_not_ready hr with ⟨hfaulted, -⟩ | ⟨hhalted, -⟩ | hs
    · exact step_of_stopped (.inl hfaulted) _ _
    · exact step_of_stopped (.inr hhalted) _ _
    · exact absurd (congrArg Prod.fst hs) hmade

/-- All that a step owes to the input channel is the value that it takes: with just this value
waiting, and any others behind it, it is the same step. -/
theorem step_of_taken (hfit : m.Fits) (hmade : (m.step front).1 ≠ .waiting) (rest : List Int) :
    m.step ((m.step front).1.taken ++ rest).head? = m.step front := by
  rcases transfer_step front m with ⟨-, htaken, -⟩ | ⟨v, hfront, ho⟩ | ⟨v, ho⟩
  · rw [htaken]
    exact step_eq_of_taken_nil hfit hmade htaken _
  · rw [ho, hfront]
    rfl
  · rw [ho]
    exact step_eq_of_taken_nil hfit hmade (by rw [ho]; rfl) _

end Machine

end Intcode
