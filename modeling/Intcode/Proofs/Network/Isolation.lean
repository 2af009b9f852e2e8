import Intcode.Network.Run
import Intcode.Proofs.Network.Step

/-!
# Machines in different networks

All that a machine works with is itself and its two channels. Where these are the same, possibly in
two very different networks, the machine makes the same steps, gives the same answers and leaves
the same behind.
-/

namespace Intcode

namespace Network

variable {n k n' k' : Nat}

/-- The machine at `i` in one network and the machine at `j` in another are equal, and so are the
values that wait on their channels. -/
structure Alike (a : Network n k) (i : Fin n) (b : Network n' k') (j : Fin n') : Prop where
  machine : a.machines.get i = b.machines.get j
  input : a.channels.get (a.wires.get i).input = b.channels.get (b.wires.get j).input
  output : a.channels.get (a.wires.get i).output = b.channels.get (b.wires.get j).output
  /-- Input and output are one channel in both networks or in none. -/
  loop : (a.wires.get i).input = (a.wires.get i).output ↔
    (b.wires.get j).input = (b.wires.get j).output

namespace Alike

variable {a : Network n k} {i : Fin n} {b : Network n' k'} {j : Fin n'}

theorem front?_eq (h : Alike a i b j) : a.front? i = b.front? j := by
  rw [front?, front?, h.input]

theorem waits_eq (h : Alike a i b j) : a.waits i = b.waits j := by
  rw [waits, waits, h.front?_eq, h.machine]

theorem stepped_eq (h : Alike a i b j) : a.stepped i = b.stepped j := by
  rw [stepped, stepped, h.front?_eq, h.machine]

/-- Moving the same value leaves the same on the channels of both machines. -/
theorem transfer_eq (h : Alike a i b j) (t : Transfer) :
    (transfer a.channels (a.wires.get i) t).get (a.wires.get i).input =
      (transfer b.channels (b.wires.get j) t).get (b.wires.get j).input ∧
    (transfer a.channels (a.wires.get i) t).get (a.wires.get i).output =
      (transfer b.channels (b.wires.get j) t).get (b.wires.get j).output := by
  have hloop : (a.wires.get i).output = (a.wires.get i).input ↔
      (b.wires.get j).output = (b.wires.get j).input :=
    eq_comm.trans (h.loop.trans eq_comm)
  simp only [get_transfer]
  cases t with
  | none => exact ⟨h.input, h.output⟩
  | took v => simp only [h.loop, h.input, h.output, if_true, and_self]
  | sent v => simp only [hloop, h.input, h.output, if_true, and_self]

/-- Machines that are alike step alike. -/
theorem step (h : Alike a i b j) :
    (a.step i).1 = (b.step j).1 ∧ Alike (a.step i).2 i (b.step j).2 j := by
  have hmove := h.transfer_eq (b.stepped j).1.transfer
  refine ⟨by rw [step_outcome, step_outcome, h.stepped_eq], ?_, ?_, ?_, ?_⟩
  · rw [step_machine_self, step_machine_self, h.stepped_eq]
  · simpa only [step_wires, step_channels, h.stepped_eq] using hmove.1
  · simpa only [step_wires, step_channels, h.stepped_eq] using hmove.2
  · simpa only [step_wires] using h.loop

theorem advance (h : Alike a i b j) (t : Nat) : Alike (a.advance i t) i (b.advance j t) j := by
  induction t with
  | zero => exact h
  | succ t ih =>
      rw [advance_succ, advance_succ]
      exact ih.step.2

/-- Machines that are alike run alike, to the same end. -/
theorem runFrom (h : Alike a i b j) (made fuel : Nat) :
    (runFrom i made fuel a).1 = (runFrom j made fuel b).1 ∧
      Alike (runFrom i made fuel a).2 i (runFrom j made fuel b).2 j := by
  induction fuel generalizing made a b with
  | zero =>
      simp only [Network.runFrom, h.machine, h.waits_eq]
      split
      · exact ⟨rfl, h⟩
      · split <;> exact ⟨rfl, h⟩
  | succ fuel ih =>
      simp only [Network.runFrom, h.machine, h.waits_eq]
      split
      · exact ⟨rfl, h⟩
      · split
        · exact ⟨rfl, h⟩
        · obtain ⟨ho, hnext⟩ := h.step
          generalize a.step i = x at ho hnext
          generalize b.step j = y at ho hnext
          obtain ⟨o, a'⟩ := x
          obtain ⟨_, b'⟩ := y
          obtain rfl : o = _ := ho
          cases o with
          | failed fault => exact ⟨rfl, hnext⟩
          | executed _ _ | idle | waiting => exact ih hnext (made + 1)

theorem run (h : Alike a i b j) (limit : Nat) :
    (a.run i limit).1 = (b.run j limit).1 ∧ Alike (a.run i limit).2 i (b.run j limit).2 j :=
  h.runFrom 0 limit

theorem verdict_eq (h : Alike a i b j) (e : RunEnd) : a.verdict i e = b.verdict j e := by
  cases e <;> simp only [verdict, h.machine]

theorem call (h : Alike a i b j) (limit : Nat) :
    (a.call i limit).1 = (b.call j limit).1 ∧ Alike (a.call i limit).2 i (b.call j limit).2 j := by
  obtain ⟨hend, hrun⟩ := h.run limit
  refine ⟨?_, hrun⟩
  simp only [Network.call, hend]
  exact hrun.verdict_eq _

end Alike

end Network

end Intcode
