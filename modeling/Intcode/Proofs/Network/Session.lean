import Intcode.Network.Run
import Intcode.Proofs.Network.Step

/-!
# Sessions

A session is any sequence of actions on the machines and channels of a network, among them writes
to the state of a machine from outside. Whatever is done in a session, the machines keep their
names, their programs and their wires.
-/

namespace Intcode

/-- What the holder of a network can do with it. -/
inductive Action (n k : Nat)
  | step (i : Fin n)
  | run (i : Fin n) (limit : Nat)
  | call (i : Fin n) (limit : Nat)
  | writeInput (i : Fin n) (v : Int)
  | onChannel (c : Fin k) (op : Channel.Op)
  | reset (i : Fin n)
  /-- Change the registers, memory and flags of a machine in any way. -/
  | overwrite (i : Fin n) (f : State → State)

/-- The parts of a machine that it is made from stay with it. -/
theorem Machine.makeup_step (front : Option Int) (m : Machine) :
    (m.step front).2.name = m.name ∧ (m.step front).2.program = m.program := by
  obtain ⟨name, program, ⟨pc, base, memory, halted, faulted⟩, diagnostics, report⟩ := m
  simp only [step]
  split
  · exact ⟨rfl, rfl⟩
  · split
    · exact ⟨rfl, rfl⟩
    · split
      · exact ⟨rfl, rfl⟩
      · split <;> exact ⟨rfl, rfl⟩

namespace Network

variable {n k : Nat}

/-- Do one thing. -/
def act (net : Network n k) : Action n k → Network n k
  | .step i => (net.step i).2
  | .run i limit => (net.run i limit).2
  | .call i limit => (net.call i limit).2
  | .writeInput i v => net.writeInput i v
  | .onChannel c op => (net.onChannel c op).2
  | .reset i => net.reset i
  | .overwrite i f => (net.onState i fun s => ((), f s)).2

/-- Do one thing after the other. -/
def actAll (net : Network n k) (history : List (Action n k)) : Network n k :=
  history.foldl act net

/-- Two networks have machines of the same names and programs on the same wires. -/
structure SameMakeup (net net' : Network n k) : Prop where
  wires : net'.wires = net.wires
  machine : ∀ i : Fin n, (net'.machines.get i).name = (net.machines.get i).name ∧
    (net'.machines.get i).program = (net.machines.get i).program

theorem SameMakeup.refl (net : Network n k) : SameMakeup net net :=
  ⟨rfl, fun _ => ⟨rfl, rfl⟩⟩

theorem SameMakeup.trans {a b c : Network n k} (hab : SameMakeup a b) (hbc : SameMakeup b c) :
    SameMakeup a c where
  wires := hbc.wires.trans hab.wires
  machine := by
    intro i
    obtain ⟨hname, hprogram⟩ := hab.machine i
    obtain ⟨hname', hprogram'⟩ := hbc.machine i
    exact ⟨hname'.trans hname, hprogram'.trans hprogram⟩

/-- A change to one machine that keeps its name and program keeps the makeup of the network. -/
theorem sameMakeup_of_set {net : Network n k} {i : Fin n} {m : Machine}
    {channels : Vector Channel k} (hname : m.name = (net.machines.get i).name)
    (hprogram : m.program = (net.machines.get i).program) :
    SameMakeup net ⟨net.machines.set i m i.isLt, net.wires, channels⟩ where
  wires := rfl
  machine := by
    intro j
    rw [get_set]
    split
    · next h => exact h ▸ ⟨hname, hprogram⟩
    · exact ⟨rfl, rfl⟩

theorem sameMakeup_step (net : Network n k) (i : Fin n) : SameMakeup net (net.step i).2 := by
  obtain ⟨hname, hprogram⟩ := (net.machines.get i).makeup_step (net.front? i)
  rw [step_eq]
  exact sameMakeup_of_set hname hprogram

/-- What every step of a machine preserves is preserved by its runs. -/
theorem runFrom_preserves {P : Network n k → Prop} {i : Fin n}
    (hstep : ∀ net, P net → P (net.step i).2) (made fuel : Nat) {net : Network n k}
    (h : P net) : P (runFrom i made fuel net).2 := by
  induction fuel generalizing made net with
  | zero =>
      unfold runFrom
      split
      · exact h
      · split <;> exact h
  | succ fuel ih =>
      unfold runFrom
      split
      · exact h
      · split
        · exact h
        · have hnext := hstep net h
          split
          · next hs =>
            rw [hs] at hnext
            exact hnext
          · next hs =>
            rw [hs] at hnext
            exact ih (made + 1) hnext

/-- A machine that has halted does not run on. -/
theorem runFrom_of_halted {net : Network n k} {i : Fin n}
    (h : (net.machines.get i).state.halted = true) (made fuel : Nat) :
    runFrom i made fuel net = (.halted, net) := by
  cases fuel <;> rw [runFrom, if_pos h]

/-- A run that has ended within its allowance ends in the same way within a larger one. -/
theorem runFrom_of_le {i : Fin n} {made fuel more : Nat} {net : Network n k} (hle : fuel ≤ more)
    (h : ∀ steps, (runFrom i made fuel net).1 ≠ .exhausted steps) :
    runFrom i made more net = runFrom i made fuel net := by
  induction fuel generalizing made more net with
  | zero =>
      unfold runFrom at h ⊢
      by_cases hhalted : (net.machines.get i).state.halted = true
      · cases more <;> simp only [if_pos hhalted]
      · by_cases hwaits : net.waits i = true
        · cases more <;> simp only [if_neg hhalted, if_pos hwaits]
        · rw [if_neg hhalted, if_neg hwaits] at h
          exact absurd rfl (h made)
  | succ fuel ih =>
      obtain ⟨more, rfl⟩ := Nat.exists_eq_add_of_le' (Nat.le_trans (Nat.succ_pos fuel) hle)
      unfold runFrom at h ⊢
      split
      · rfl
      · next hhalted =>
        split
        · rfl
        · next hwaits =>
          rw [if_neg hhalted, if_neg hwaits] at h
          generalize net.step i = r at h ⊢
          obtain ⟨outcome, net'⟩ := r
          cases outcome with
          | failed fault => rfl
          | executed _ _ | idle | waiting => exact ih (Nat.le_of_succ_le_succ hle) h

theorem sameMakeup_run (net : Network n k) (i : Fin n) (limit : Nat) :
    SameMakeup net (net.run i limit).2 := by
  apply runFrom_preserves
  · intro net' h
    exact h.trans (sameMakeup_step net' i)
  · exact .refl net

theorem sameMakeup_onChannel (net : Network n k) (c : Fin k) (op : Channel.Op) :
    SameMakeup net (net.onChannel c op).2 :=
  ⟨rfl, fun _ => ⟨rfl, rfl⟩⟩

theorem sameMakeup_act (net : Network n k) (a : Action n k) : SameMakeup net (net.act a) := by
  cases a with
  | step i => exact sameMakeup_step net i
  | run i limit | call i limit => exact sameMakeup_run net i limit
  | writeInput i v => exact sameMakeup_onChannel net (net.wires.get i).input (.send v)
  | onChannel c op => exact sameMakeup_onChannel net c op
  | reset i =>
      simp only [act, reset, modifyAt_eq]
      exact sameMakeup_of_set rfl rfl
  | overwrite i f =>
      simp only [act, onState, modifyAt_eq]
      exact sameMakeup_of_set rfl rfl

/-- Nothing that is done in a session changes the names, programs and wires. -/
theorem sameMakeup_actAll (net : Network n k) (history : List (Action n k)) :
    SameMakeup net (net.actAll history) := by
  induction history generalizing net with
  | nil => exact .refl net
  | cons a rest ih => exact (sameMakeup_act net a).trans (ih (net.act a))

end Network

end Intcode
