import Intcode.Proofs.Network.Assembly
import Intcode.Proofs.Network.Isolation
import Intcode.Proofs.Network.Session

/-!
# Resets

A reset makes a machine new, whatever has been done to it and to its channels before. The machine
is the one that would be made from the same program and name on the same channels with nothing on
them, and so all its further runs are first runs.
-/

namespace Intcode

/-- All that a machine keeps through a reset is what it was made from. -/
theorem Machine.reset_eq_boot (m : Machine) : m.reset = boot m.name m.program := by
  obtain ⟨name, program, ⟨pc, base, memory, halted, faulted⟩, diagnostics, report⟩ := m
  rfl

namespace Network

variable {n k : Nat}

/-- Queue several values for the `i`-th machine, one after the other. -/
def writeInputs (net : Network n k) (i : Fin n) (vs : List Int) : Network n k :=
  vs.foldl (fun net v => net.writeInput i v) net

/-- Make one machine on a wire of channels without values, and queue its inputs. -/
def fresh (name : String) (program : Program) (wire : Wire k) (inputs : List Int) :
    Network 1 (k + 2 * 1) :=
  assemble (Vector.replicate k .empty)
    #v[⟨program, ⟨name, inputs, some wire.input, some wire.output⟩⟩]

@[simp] theorem writeInput_wires (net : Network n k) (i : Fin n) (v : Int) :
    (net.writeInput i v).wires = net.wires := rfl

theorem get_writeInput (net : Network n k) (i : Fin n) (v : Int) (c : Fin k) :
    (net.writeInput i v).channels.get c =
      if (net.wires.get i).input = c then (net.channels.get c).send v else net.channels.get c := by
  simp only [writeInput, onChannel, get_modifyAt, Channel.perform]

/-- Queueing values for a machine changes its input channel alone. -/
theorem writeInputs_spec (net : Network n k) (i : Fin n) (vs : List Int) :
    (net.writeInputs i vs).machines = net.machines ∧
    (net.writeInputs i vs).wires = net.wires ∧
    ∀ c : Fin k, (net.writeInputs i vs).channels.get c =
      if (net.wires.get i).input = c then (net.channels.get c).sendAll vs
      else net.channels.get c := by
  induction vs generalizing net with
  | nil =>
      refine ⟨rfl, rfl, ?_⟩
      intro c
      rw [Channel.sendAll_nil, ite_self]
      rfl
  | cons v vs ih =>
      obtain ⟨hmachines, hwires, hchannels⟩ := ih (net.writeInput i v)
      refine ⟨hmachines, hwires, ?_⟩
      intro c
      refine (hchannels c).trans ?_
      rw [get_writeInput, writeInput_wires, Channel.sendAll_cons]
      by_cases h : (net.wires.get i).input = c
      · rw [if_pos h, if_pos h, if_pos h]
      · rw [if_neg h, if_neg h, if_neg h]

theorem writeInputs_eq (net : Network n k) (i : Fin n) (vs : List Int) :
    net.writeInputs i vs =
      { net with channels := sendAll net.channels (net.wires.get i).input vs } := by
  obtain ⟨hmachines, hwires, hchannels⟩ := net.writeInputs_spec i vs
  have hsent : (net.writeInputs i vs).channels =
      sendAll net.channels (net.wires.get i).input vs := by
    apply get_ext
    intro c
    rw [hchannels, get_sendAll]
  rw [← hsent, ← hmachines, ← hwires]

/-- A new machine is at its start, and nothing but its inputs is on its channels. -/
theorem fresh_spec (name : String) (program : Program) (wire : Wire k) (inputs : List Int) :
    (fresh name program wire inputs).machines.get 0 = .boot name program ∧
    (fresh name program wire inputs).wires.get 0 =
      ⟨wire.input.castAdd 2, wire.output.castAdd 2⟩ ∧
    ∀ c : Fin k, (fresh name program wire inputs).channels.get (c.castAdd 2) =
      if wire.input = c then .ofList inputs else .empty := by
  refine ⟨assemble_machine _ _ 0, assemble_wire _ _ 0, ?_⟩
  intro c
  have hshared : (Vector.replicate k Channel.empty).get c = .empty :=
    Vector.getElem_replicate c.isLt
  apply Channel.ext_toList
  refine (toList_shared _ _ c).trans ?_
  rw [hshared]
  by_cases h : wire.input = c
  · rw [if_pos h, ← h]
    simp [Vector.get, List.finRange_succ]
  · rw [if_neg h]
    simp [Vector.get, List.finRange_succ, h]

/-- A reset returns a machine to its start and leaves nothing on its channels. -/
theorem reset_spec (net : Network n k) (i : Fin n) :
    (net.reset i).machines.get i = .boot (net.machines.get i).name (net.machines.get i).program ∧
    (net.reset i).wires = net.wires ∧
    (net.reset i).channels.get (net.wires.get i).input = .empty ∧
    (net.reset i).channels.get (net.wires.get i).output = .empty := by
  simp only [reset, modifyAt_eq, get_set, if_true, ite_self, and_true]
  exact Machine.reset_eq_boot _

/-- A machine that is reset and given its inputs again is in the position of a new machine. -/
theorem alike_fresh (net : Network n k) (i : Fin n) (vs : List Int) :
    Alike ((net.reset i).writeInputs i vs) i
      (fresh (net.machines.get i).name (net.machines.get i).program (net.wires.get i) vs) 0 := by
  obtain ⟨hmachine, hwires, hin, hout⟩ := net.reset_spec i
  obtain ⟨hmachines', hwires', hchannels'⟩ := (net.reset i).writeInputs_spec i vs
  obtain ⟨hfirst, hwire, hchannel⟩ :=
    fresh_spec (net.machines.get i).name (net.machines.get i).program (net.wires.get i) vs
  have hloop : (net.wires.get i).input = (net.wires.get i).output ↔
      (net.wires.get i).input.castAdd 2 = (net.wires.get i).output.castAdd 2 := by
    simp only [Fin.ext_iff, Fin.val_castAdd]
  constructor
  · rw [hmachines', hmachine, hfirst]
  · simp only [hwires', hwires, hwire, hchannels', hchannel, hin, Channel.empty_sendAll, if_true]
  · simp only [hwires', hwires, hwire, hchannels', hchannel, hout, Channel.empty_sendAll]
  · rw [hwires', hwires, hwire]
    exact hloop

/-- Whatever has been done in a network, a reset leaves a machine equal to a new one of the same
name and program on empty channels. Given inputs again, it makes the steps, the runs and the calls
of a new machine with these inputs, and leaves what the new machine leaves. -/
theorem reset_eq_fresh (net : Network n k) (history : List (Action n k)) (i : Fin n) :
    let name := (net.machines.get i).name
    let program := (net.machines.get i).program
    let wire := net.wires.get i
    let used := net.actAll history
    ((used.reset i).machines.get i =
        { name, program
          state := ⟨0, 0, ⟨program.image⟩, false, false⟩
          diagnostics := #[]
          report := .empty } ∧
      (used.reset i).wires.get i = wire ∧
      (used.reset i).channels.get wire.input = .empty ∧
      (used.reset i).channels.get wire.output = .empty ∧
      Alike (used.reset i) i (fresh name program wire []) 0) ∧
    ∀ inputs : List Int,
      let again := (used.reset i).writeInputs i inputs
      let first := fresh name program wire inputs
      (∀ t, ((again.advance i t).step i).1 = ((first.advance 0 t).step 0).1 ∧
        Alike (again.advance i t) i (first.advance 0 t) 0) ∧
      (∀ limit, (again.run i limit).1 = (first.run 0 limit).1 ∧
        Alike (again.run i limit).2 i (first.run 0 limit).2 0) ∧
      ∀ limit, (again.call i limit).1 = (first.call 0 limit).1 ∧
        Alike (again.call i limit).2 i (first.call 0 limit).2 0 := by
  intro name program wire used
  have hmakeup := net.sameMakeup_actAll history
  have hname : (used.machines.get i).name = name := (hmakeup.machine i).1
  have hprogram : (used.machines.get i).program = program := (hmakeup.machine i).2
  have hwire : used.wires.get i = wire := by rw [hmakeup.wires]
  have halike := used.alike_fresh i
  obtain ⟨hmachine, hwires, hin, hout⟩ := used.reset_spec i
  simp only [hname, hprogram, hwire] at halike hmachine hin hout
  refine ⟨⟨hmachine, ?_, hin, hout, halike []⟩, ?_⟩
  · rw [hwires, hwire]
  · intro inputs again first
    have h : Alike again i first 0 := halike inputs
    refine ⟨?_, ?_, ?_⟩
    · intro t
      exact ⟨(h.advance t).step.1, h.advance t⟩
    · exact h.run
    · exact h.call

end Network

end Intcode
