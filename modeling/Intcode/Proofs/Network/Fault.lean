import Intcode.Proofs.Network.Step

/-!
# Faults

An instruction that fails has no effect outside the machine and none on its registers or old cells:
all that it leaves behind is the fault flag and the zeros by which memory has grown. With the flag
cleared, the same instruction fails again for the same reason and memory does not grow any more.
-/

namespace Intcode

namespace Machine

variable {m : Machine} {front : Option Int}

/-- Set the fault flag. -/
def flag (m : Machine) (faulted : Bool) : Machine :=
  { m with state := { m.state with faulted } }

/-- Grow memory. -/
def grow (m : Machine) (size : Nat) : Machine :=
  { m with state := { m.state with memory := m.state.memory.extend size } }

/-- A machine that fails for a reason of its own was ready and found the fault in its plan. -/
theorem plan_of_failed {m' : Machine} {fault : Fault} (hfit : m.Fits)
    (hclear : m.state.faulted = false) (h : m.step front = (.failed fault, m')) :
    m.Ready front ∧ (m.plan front).result = .error fault ∧
      m' = m.faultAt (m.plan front).reach := by
  rcases step_cases front hfit with hr | ⟨hr, e, he, hs⟩ | ⟨-, p, -, hs⟩
  · rcases step_of_not_ready hr with ⟨hfaulted, -⟩ | ⟨-, hs⟩ | hs
    · rw [hclear] at hfaulted
      cases hfaulted
    · rw [hs] at h
      cases h
    · rw [hs] at h
      cases h
  · rw [hs] at h
    cases h
    exact ⟨hr, he, rfl⟩
  · rw [hs] at h
    cases h

/-- An input that gets as far as taking a value does not fail any more, so every fault is found
before the input channel is looked at. -/
theorem ready_none_of_error {fault : Fault} (hr : m.Ready front)
    (h : (m.plan front).result = .error fault) : m.Ready none := by
  refine ⟨hr.1, hr.2.1, ?_⟩
  cases hawaits : m.state.awaitsInput with
  | false => rfl
  | true =>
      obtain ⟨-, -, hpc, dst, cell, hd, hcell⟩ := m.state.awaitsInput_iff.mp hawaits
      cases front with
      | none =>
          have hwait := hr.2.2
          rw [hawaits] at hwait
          cases hwait
      | some v =>
          -- With a value at hand this instruction has a plan, so there was no fault to be found.
          have htake := Plan.takeInput_eq_ok.mpr ⟨cell, v, hcell, hpc, rfl, rfl⟩
          have hok := Plan.fetch_eq_ok.mpr ⟨Nat.lt_of_succ_lt hpc, _, hd, htake⟩
          rw [plan, hok] at h
          cases h

/-- Growth of memory is not seen by the next instruction. -/
theorem plan_grow (front : Option Int) (m : Machine) (size : Nat) :
    (m.grow size).plan front = m.plan front := by
  simp only [plan, grow, Memory.read_extend_eq]

theorem ready_grow (size : Nat) (h : m.Ready front) : (m.grow size).Ready front := by
  have hawaits : (m.grow size).state.awaitsInput = m.state.awaitsInput := by
    rw [Bool.eq_iff_iff, State.awaitsInput_iff, State.awaitsInput_iff]
    simp only [grow, Memory.read_extend_eq]
  exact ⟨h.1, h.2.1, hawaits ▸ h.2.2⟩

/-- A fault that was found once is found again, and memory is already as large as it must be. -/
theorem step_after_fault {fault : Fault} (hfit : m.Fits) (hr : m.Ready front)
    (h : (m.plan front).result = .error fault) :
    ((m.faultAt (m.plan front).reach).flag false).step front =
      (.failed fault, m.faultAt (m.plan front).reach) := by
  have hgrow : (m.faultAt (m.plan front).reach).flag false = m.grow (m.plan front).reach := by
    simp [faultAt, flag, grow, hr.1]
  have hplan := plan_grow front m (m.plan front).reach
  have hfit' : (m.grow (m.plan front).reach).Fits := fits_extend front hfit
  have hfault : ((m.grow (m.plan front).reach).plan front).result = .error fault := by
    rw [hplan, h]
  rw [hgrow, step_of_error hfit' (ready_grow _ hr) hfault, hplan]
  simp [faultAt, grow]

end Machine

namespace Network

variable {n k : Nat}

/-- Put a machine in the place of the `i`-th one. -/
def replace (net : Network n k) (i : Fin n) (m : Machine) : Network n k :=
  { net with machines := net.machines.set i m i.isLt }

@[simp] theorem replace_self (net : Network n k) (i : Fin n) (m : Machine) :
    (net.replace i m).machines.get i = m := by
  rw [replace, get_set, if_pos rfl]

@[simp] theorem replace_replace (net : Network n k) (i : Fin n) (a b : Machine) :
    (net.replace i a).replace i b = net.replace i b := by
  simp [replace]

theorem onState_eq {α : Type} (net : Network n k) (i : Fin n) (f : State → α × State) :
    net.onState i f = ((f (net.machines.get i).state).1,
      net.replace i { net.machines.get i with state := (f (net.machines.get i).state).2 }) := by
  simp only [onState, modifyAt_eq]
  rfl

/-- A step without exchange of a value changes one machine. -/
theorem step_replace {net : Network n k} {i : Fin n} {m m' : Machine} {o : Outcome}
    (h : m.step (net.front? i) = (o, m')) (ht : o.transfer = .none) :
    (net.replace i m).step i = (o, net.replace i m') := by
  have hs : (net.replace i m).stepped i = (o, m') := by
    rw [stepped, replace_self]
    exact h
  rw [step_eq, hs, ht]
  simp [replace, transfer]

/-- An instruction that fails leaves the network as it was, but for the fault flag and some zeros at
the end of memory, and it fails in this way whatever waits on the input channel. When the flag is
cleared it fails again, and leaves exactly the same behind. -/
theorem step_failed (net net' : Network n k) (i : Fin n) (fault : Fault)
    (hfit : (net.machines.get i).state.memory.size < addressSpace)
    (hclear : (net.machines.get i).state.faulted = false) (h : net.step i = (.failed fault, net')) :
    (∃ zeros, net' = (net.onState i fun s => ((), { s with
      memory := ⟨s.memory.cells ++ Array.replicate zeros 0⟩
      faulted := true })).2) ∧
    (∀ front, (net.machines.get i).step front = (.failed fault, net'.machines.get i)) ∧
    (net'.onState i fun s => ((), { s with faulted := false })).2.step i =
      (.failed fault, net') := by
  have hm : (net.machines.get i).step (net.front? i) = (.failed fault, (net.stepped i).2) := by
    have houtcome : (net.stepped i).1 = .failed fault := by
      rw [← step_outcome, h]
    rw [← houtcome]
    rfl
  obtain ⟨hr, hfault, hm'⟩ := Machine.plan_of_failed hfit hclear hm
  rw [hm'] at hm
  have hself : net.replace i (net.machines.get i) = net := by
    simp [replace]
  have hs := step_replace hm rfl
  rw [hself, h] at hs
  obtain rfl : net' = _ := congrArg Prod.snd hs
  simp only [onState_eq, replace_self, replace_replace]
  refine ⟨⟨_ - (net.machines.get i).state.memory.cells.size, rfl⟩, ?_, ?_⟩
  · intro front
    have hnone := Machine.ready_none_of_error hr hfault
    rw [hnone.step_eq hfit front, ← hnone.step_eq hfit (net.front? i), hm]
  · exact step_replace (Machine.step_after_fault hfit hr hfault) rfl

/-- A sum whose first operand makes memory grow before the address of the second one turns out to be
negative. -/
def brokenSum : Network 1 2 := single (.ofList [1, 9, -1, 0]) "sum" []

/-- An input, with a value waiting, whose parameter lies just behind the end of memory. Its target
is then the relative base, which is negative. -/
def brokenInput : Network 1 2 :=
  ((single (.ofList [109, -1, 203]) "input" [7]).step ⟨0, Nat.zero_lt_one⟩).2

/-- The sum and the input both grow memory and fail, again and again. The value still waits. -/
theorem step_failed_runs :
    (((brokenSum.step 0).2.machines.get 0).state.memory.size = 10 ∧
      ((brokenSum.step 0).2.onState 0 fun s => ((), { s with faulted := false })).2.step 0 =
        (.failed (.negativeAddress (-1)), (brokenSum.step 0).2)) ∧
    ((brokenInput.step 0).2.channels = brokenInput.channels ∧ brokenInput.front? 0 = some 7 ∧
      ((brokenInput.step 0).2.machines.get 0).state.memory.size = 4 ∧
      (∀ front, (brokenInput.machines.get 0).step front =
        (.failed (.negativeAddress (-1)), (brokenInput.step 0).2.machines.get 0)) ∧
      ((brokenInput.step 0).2.onState 0 fun s => ((), { s with faulted := false })).2.step 0 =
        (.failed (.negativeAddress (-1)), (brokenInput.step 0).2)) := by
  refine ⟨⟨by decide +kernel, ?_⟩, ?_⟩
  · exact (step_failed brokenSum (brokenSum.step 0).2 0 (.negativeAddress (-1)) (by decide +kernel)
      (by decide +kernel) (Prod.ext (by decide +kernel) rfl)).2.2
  · obtain ⟨⟨zeros, hleft⟩, hany, hagain⟩ :=
      step_failed brokenInput (brokenInput.step 0).2 0 (.negativeAddress (-1)) (by decide +kernel)
        (by decide +kernel) (Prod.ext (by decide +kernel) rfl)
    have hchannels : (brokenInput.step 0).2.channels = brokenInput.channels := by
      rw [hleft]
      rfl
    exact ⟨hchannels, by decide +kernel, by decide +kernel, hany, hagain⟩

end Network

end Intcode
