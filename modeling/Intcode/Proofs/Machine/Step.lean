import Intcode.Machine
import Intcode.Proofs.Instruction.Plan

/-!
# Steps of a machine

A machine that is ready makes its step by carrying out the plan of its next instruction: either
the plan is followed, or a fault was found and nothing but the size of memory and the fault flag
changes. A machine that is not ready does not change at all.
-/

namespace Intcode

/-- Whether a step neither failed nor had to wait. -/
def Outcome.succeeded : Outcome → Bool
  | executed .. | idle => true
  | waiting | failed _ => false

/-- A machine awaits a value exactly if its next instruction is an input that would get as far as
taking one. -/
theorem State.awaitsInput_iff (s : State) :
    s.awaitsInput = true ↔ s.halted = false ∧ s.faulted = false ∧ s.pc + 2 < addressSpace ∧
      ∃ dst cell, Instruction.decode (s.memory.read s.pc) = .ok (.input dst) ∧
        (Plan.target s.memory.read s.pc s.base .input 1 dst).result = .ok cell := by
  simp only [awaitsInput, Memory.denoted_eq, Plan.target_eq_ok, Survey.address_eq_ok,
    Bool.and_eq_true, Bool.not_eq_true', decide_eq_true_eq, and_assoc]
  refine and_congr_right fun _ => and_congr_right fun _ => and_congr_right fun hpc => ?_
  split
  · next dst hd =>
    simp only [hd, Except.ok.injEq, Instruction.input.injEq, Bool.and_eq_true, decide_eq_true_eq]
    constructor
    · rintro ⟨⟨hdst, hneg⟩, ha⟩
      exact ⟨dst, _, rfl, hdst, hpc, ha, (Int.toNat_of_nonneg hneg).symm⟩
    · rintro ⟨_, cell, rfl, hdst, -, ha, he⟩
      rw [he]
      exact ⟨⟨hdst, by omega⟩, by simpa using ha⟩
  · next hd =>
    simp only [Bool.false_eq_true, false_iff]
    rintro ⟨dst, cell, hdec, -⟩
    exact hd dst hdec

namespace Machine

/-- Memory fits the address space, as every memory does whose size is a machine number. -/
def Fits (m : Machine) : Prop := m.state.memory.size < addressSpace

/-- A step would execute an instruction, with `front` the value waiting on the input channel. -/
def Ready (front : Option Int) (m : Machine) : Prop :=
  m.state.faulted = false ∧ m.state.halted = false ∧
    (front.isNone && m.state.awaitsInput) = false

/-- The plan of the next instruction. -/
def plan (front : Option Int) (m : Machine) : Survey Plan :=
  Plan.fetch m.state.memory.read m.state.pc m.state.base front

/-- Stop on a fault, with memory grown to a size. -/
def faultAt (m : Machine) (size : Nat) : Machine :=
  { m with state := { m.state with memory := m.state.memory.extend size, faulted := true } }

/-- Follow a plan, with memory grown to a size. -/
def follow (m : Machine) (p : Plan) (size : Nat) : Machine :=
  let memory := (m.state.memory.extend size).put p.write
  { m with
    state := ⟨p.effect.pc, p.effect.base, memory, p.effect.halted, false⟩
    diagnostics := log m.diagnostics p.effect.transfer
    report := m.report.record p.effect.opcode memory.size }

variable {m : Machine} {front : Option Int}

/-- A machine that is ready finds a fault and stops on it, or follows its plan. -/
theorem step_of_ready (hfit : m.Fits) (hr : m.Ready front) :
    m.step front = match (m.plan front).result with
      | .error e => (.failed e, m.faultAt (m.plan front).reach)
      | .ok p => (.executed p.effect.opcode p.effect.transfer,
          m.follow p (m.plan front).reach) := by
  obtain ⟨name, program, ⟨pc, base, memory, halted, faulted⟩, diagnostics, report⟩ := m
  obtain ⟨hfaulted, hhalted, hwait⟩ := hr
  simp only at hfaulted hhalted
  subst hfaulted hhalted
  simp only [step, hwait, Instruction.exec_execute pc base front memory hfit, Survey.commit, plan,
    Bool.false_eq_true, if_false]
  cases (Plan.fetch memory.read pc base front).result with
  | error e => rfl
  | ok p => rfl

theorem step_of_error {e : Fault} (hfit : m.Fits) (hr : m.Ready front)
    (h : (m.plan front).result = .error e) :
    m.step front = (.failed e, m.faultAt (m.plan front).reach) := by
  rw [step_of_ready hfit hr, h]

theorem step_of_ok {p : Plan} (hfit : m.Fits) (hr : m.Ready front)
    (h : (m.plan front).result = .ok p) :
    m.step front = (.executed p.effect.opcode p.effect.transfer,
      m.follow p (m.plan front).reach) := by
  rw [step_of_ready hfit hr, h]

/-- A machine that is not ready has faulted, has halted or waits for a value. -/
theorem step_of_not_ready (h : ¬ m.Ready front) :
    (m.state.faulted = true ∧ m.step front = (.failed .faulted, m)) ∨
    (m.state.halted = true ∧ m.step front = (.idle, m)) ∨
    m.step front = (.waiting, m) := by
  simp only [Ready, not_and, Bool.not_eq_false] at h
  unfold step
  by_cases hfaulted : m.state.faulted = true
  · exact .inl ⟨hfaulted, if_pos hfaulted⟩
  · rw [if_neg hfaulted]
    by_cases hhalted : m.state.halted = true
    · exact .inr (.inl ⟨hhalted, if_pos hhalted⟩)
    · have hwait := h (by simpa using hfaulted) (by simpa using hhalted)
      rw [if_neg hhalted, if_pos hwait]
      exact .inr (.inr rfl)

/-- A machine that is not ready stays as it is and exchanges no value. -/
theorem stays_of_not_ready (h : ¬ m.Ready front) :
    (m.step front).2 = m ∧ (m.step front).1.transfer = .none := by
  rcases step_of_not_ready h with ⟨-, hs⟩ | ⟨-, hs⟩ | hs <;> rw [hs] <;> exact ⟨rfl, rfl⟩

/-- Everything that a step can do: nothing, stop on the fault that was found, or follow the plan. -/
theorem step_cases (front : Option Int) (hfit : m.Fits) :
    ¬ m.Ready front ∨
    (m.Ready front ∧ ∃ e, (m.plan front).result = .error e ∧
      m.step front = (.failed e, m.faultAt (m.plan front).reach)) ∨
    (m.Ready front ∧ ∃ p, (m.plan front).result = .ok p ∧
      m.step front = (.executed p.effect.opcode p.effect.transfer,
        m.follow p (m.plan front).reach)) := by
  by_cases hr : m.Ready front
  · cases h : (m.plan front).result with
    | error e => exact .inr (.inl ⟨hr, e, rfl, step_of_error hfit hr h⟩)
    | ok p => exact .inr (.inr ⟨hr, p, rfl, step_of_ok hfit hr h⟩)
  · exact .inl hr

/-- The plan never reaches beyond the address space, and it writes within its reach. -/
theorem carries_plan (front : Option Int) (m : Machine) :
    (Instruction.execute m.state.pc m.state.base front).Carries m.state.memory.read
      (m.plan front) :=
  Instruction.carries_execute _ _ _ _

theorem fits_extend (front : Option Int) (hfit : m.Fits) :
    (m.state.memory.extend (m.plan front).reach).size < addressSpace :=
  Memory.size_extend_lt hfit (carries_plan front m).reach_lt

/-- Memory keeps fitting the address space. -/
theorem fits_step (front : Option Int) (hfit : m.Fits) : (m.step front).2.Fits := by
  rcases step_cases front hfit with hr | ⟨-, e, -, hs⟩ | ⟨-, p, -, hs⟩
  · rwa [(stays_of_not_ready hr).1]
  · rw [hs]
    exact fits_extend front hfit
  · rw [hs]
    simpa only [Fits, follow, Memory.size_put] using fits_extend front hfit

/-- A machine that needs no value is ready whatever is waiting. -/
theorem Ready.of_none (h : m.Ready none) (front : Option Int) : m.Ready front := by
  obtain ⟨hfaulted, hhalted, hwait⟩ := h
  simp only [Option.isNone_none, Bool.true_and] at hwait
  exact ⟨hfaulted, hhalted, by rw [hwait, Bool.and_false]⟩

/-- The plan of a machine that needs no value does not depend on what is waiting. -/
theorem Ready.plan_eq (h : m.Ready none) (front : Option Int) : m.plan front = m.plan none := by
  obtain ⟨hfaulted, hhalted, hwait⟩ := h
  simp only [Option.isNone_none, Bool.true_and] at hwait
  apply Plan.fetch_eq_of_input
  intro dst hd
  apply Plan.takeInput_of_error
  intro cell hcell hpc
  -- An input that got this far would be awaiting a value.
  have hawaits := m.state.awaitsInput_iff.mpr ⟨hhalted, hfaulted, hpc, dst, cell, hd, hcell⟩
  rw [hwait] at hawaits
  cases hawaits

/-- The step of a machine that needs no value does not depend on what is waiting. -/
theorem Ready.step_eq (hfit : m.Fits) (h : m.Ready none) (front : Option Int) :
    m.step front = m.step none := by
  rcases step_cases front hfit with hr | ⟨hr, e, he, hs⟩ | ⟨hr, p, hp, hs⟩
  · exact absurd (h.of_none front) hr
  · rw [h.plan_eq front] at he hs
    rw [hs, step_of_error hfit h he]
  · rw [h.plan_eq front] at hp hs
    rw [hs, step_of_ok hfit h hp]

/-- A value that a step takes was waiting at the front. -/
theorem front_of_took {v : Int} (hfit : m.Fits) (h : (m.step front).1.transfer = .took v) :
    front = some v := by
  rcases step_cases front hfit with hr | ⟨-, e, -, hs⟩ | ⟨-, p, hp, hs⟩
  · rw [(stays_of_not_ready hr).2] at h
    cases h
  · rw [hs] at h
    cases h
  · rw [hs] at h
    exact Plan.front_of_took hp h

end Machine

end Intcode
