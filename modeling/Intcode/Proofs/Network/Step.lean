import Intcode.Network
import Intcode.Proofs.Machine.Step

/-!
# Steps of a network

A step changes one machine and moves at most one value. Everything else in the network stays as it
is, and the step depends on the rest of the network through the value that waits at the front of the
machine's input channel alone.
-/

namespace Intcode

/-- Vectors are equal if all their entries are. -/
theorem get_ext {α : Type} {n : Nat} {v w : Vector α n} (h : ∀ c : Fin n, v.get c = w.get c) :
    v = w :=
  Vector.ext fun c hc => h ⟨c, hc⟩

theorem get_set {α : Type} {n : Nat} (v : Vector α n) (i j : Fin n) (a : α) :
    (v.set i a i.isLt).get j = if i = j then a else v.get j := by
  change (v.set i a i.isLt)[j.val] = _
  simp only [Vector.getElem_set, Fin.ext_iff]
  rfl

@[simp] theorem set_get_self {α : Type} {n : Nat} (v : Vector α n) (i : Fin n) :
    v.set i (v.get i) i.isLt = v :=
  Vector.set_getElem_self i.isLt

theorem get_ofFn {α : Type} {n : Nat} (f : Fin n → α) (i : Fin n) : (Vector.ofFn f).get i = f i :=
  Vector.getElem_ofFn i.isLt

theorem get_modifyAt {α β : Type} [Inhabited α] {n : Nat} (v : Vector α n) (i j : Fin n)
    (f : α → β × α) : (modifyAt v i f).2.get j = if i = j then (f (v.get j)).2 else v.get j := by
  rw [modifyAt_eq, get_set]
  split
  · next h => rw [h]
  · rfl

namespace Network

variable {n k : Nat}

/-- The outcome and the new machine of a step of the `i`-th machine. -/
def stepped (net : Network n k) (i : Fin n) : Outcome × Machine :=
  (net.machines.get i).step (net.front? i)

theorem step_eq (net : Network n k) (i : Fin n) :
    net.step i = ((net.stepped i).1,
      { net with
        machines := net.machines.set i (net.stepped i).2 i.isLt
        channels := transfer net.channels (net.wires.get i) (net.stepped i).1.transfer }) := by
  simp only [step, modifyAt_eq]
  rfl

theorem step_outcome (net : Network n k) (i : Fin n) : (net.step i).1 = (net.stepped i).1 := by
  rw [step_eq]

@[simp] theorem step_wires (net : Network n k) (i : Fin n) : (net.step i).2.wires = net.wires := by
  rw [step_eq]

@[simp] theorem step_machine_self (net : Network n k) (i : Fin n) :
    (net.step i).2.machines.get i = (net.stepped i).2 := by
  rw [step_eq, get_set, if_pos rfl]

theorem step_machine_of_ne {i j : Fin n} (net : Network n k) (h : i ≠ j) :
    (net.step i).2.machines.get j = net.machines.get j := by
  rw [step_eq, get_set, if_neg h]

theorem step_channels (net : Network n k) (i : Fin n) :
    (net.step i).2.channels =
      transfer net.channels (net.wires.get i) (net.stepped i).1.transfer := by
  rw [step_eq]

/-- What becomes of each channel when a value is moved. -/
theorem get_transfer (channels : Vector Channel k) (wire : Wire k) (t : Transfer) (c : Fin k) :
    (transfer channels wire t).get c =
      match t with
      | .none => channels.get c
      | .took _ => if wire.input = c then (channels.get c).pop else channels.get c
      | .sent v => if wire.output = c then (channels.get c).send v else channels.get c := by
  cases t with
  | none => rfl
  | took _ | sent _ => exact get_modifyAt _ _ _ _

/-- A step of a machine that is not ready changes nothing. -/
theorem step_of_not_ready {net : Network n k} {i : Fin n}
    (h : ¬ (net.machines.get i).Ready (net.front? i)) : (net.step i).2 = net := by
  obtain ⟨hm, ht⟩ := Machine.stays_of_not_ready h
  rw [step_eq, stepped, hm, ht]
  simp [transfer]

/-- The memory of a machine that steps keeps fitting the address space. -/
theorem fits_step_self {net : Network n k} {i : Fin n} (h : (net.machines.get i).Fits) :
    ((net.step i).2.machines.get i).Fits := by
  rw [step_machine_self]
  exact Machine.fits_step _ h

/-- Every memory fits the address space. -/
def Fits (net : Network n k) : Prop := ∀ i : Fin n, (net.machines.get i).Fits

/-- Memories keep fitting the address space. -/
theorem Fits.step {net : Network n k} (h : net.Fits) (i : Fin n) : (net.step i).2.Fits := by
  intro j
  by_cases hij : i = j
  · subst hij
    exact fits_step_self (h i)
  · rw [step_machine_of_ne net hij]
    exact h j

/-- The network after some steps of the `i`-th machine. -/
def advance (i : Fin n) : Nat → Network n k → Network n k
  | 0, net => net
  | t + 1, net => advance i t (net.step i).2

theorem advance_succ (net : Network n k) (i : Fin n) (t : Nat) :
    net.advance i (t + 1) = ((net.advance i t).step i).2 := by
  induction t generalizing net with
  | zero => rfl
  | succ t ih => exact ih (net.step i).2

theorem fits_advance {net : Network n k} {i : Fin n} (h : (net.machines.get i).Fits) (t : Nat) :
    ((net.advance i t).machines.get i).Fits := by
  induction t with
  | zero => exact h
  | succ t ih =>
      rw [advance_succ]
      exact fits_step_self ih

end Network

end Intcode
