import Intcode.Proofs.Network.Step

/-!
# Schedules

Machines that are ready at the same time can step in any order, provided that no two of them take
from the same channel and no two of them send to the same channel. All interleavings of such a
network that come to an end therefore end alike, after the same number of steps of each machine.
-/

namespace Intcode

/-- A value can be sent before or after the value at the front is taken. -/
theorem Channel.pop_send {c : Channel} {x : Int} (v : Int) (h : c.front? = some x) :
    (c.send v).pop = c.pop.send v := by
  apply ext_toList
  rw [front?_eq] at h
  obtain ⟨rest, hrest⟩ := List.head?_eq_some_iff.mp h
  simp [hrest]

theorem Channel.front?_send {c : Channel} {x : Int} (v : Int) (h : c.front? = some x) :
    (c.send v).front? = some x := by
  rw [front?_eq] at h ⊢
  obtain ⟨rest, hrest⟩ := List.head?_eq_some_iff.mp h
  simp [hrest]

namespace Network

variable {n k : Nat}

/-- The `i`-th machine has not halted, has not faulted and does not wait for a value. -/
def Ready (net : Network n k) (i : Fin n) : Prop := (net.machines.get i).Ready (net.front? i)

instance (net : Network n k) (i : Fin n) : Decidable (net.Ready i) :=
  inferInstanceAs (Decidable (_ ∧ _ ∧ _))

/-- Every channel is read by at most one machine and written by at most one machine. -/
structure PointToPoint (net : Network n k) : Prop where
  input_inj : ∀ i j : Fin n, (net.wires.get i).input = (net.wires.get j).input → i = j
  output_inj : ∀ i j : Fin n, (net.wires.get i).output = (net.wires.get j).output → i = j

theorem PointToPoint.step {net : Network n k} (h : net.PointToPoint) (i : Fin n) :
    (net.step i).2.PointToPoint where
  input_inj := by
    rw [step_wires]
    exact h.input_inj
  output_inj := by
    rw [step_wires]
    exact h.output_inj

/-- Moving one value for each of two machines gives the same channels in either order. -/
theorem transfer_comm {channels : Vector Channel k} {v w : Wire k} {s t : Transfer}
    (hin : v.input ≠ w.input) (hout : v.output ≠ w.output)
    (hs : ∀ x, s = .took x → (channels.get v.input).front? = some x)
    (ht : ∀ x, t = .took x → (channels.get w.input).front? = some x) :
    transfer (transfer channels v s) w t = transfer (transfer channels w t) v s := by
  apply get_ext
  intro c
  simp only [get_transfer]
  cases s with
  | none => rfl
  | took x =>
      cases t with
      | none => rfl
      | took y =>
          by_cases hv : v.input = c
          · have hw : w.input ≠ c := fun e => hin (hv.trans e.symm)
            simp [hv, hw]
          · simp [hv]
      | sent y =>
          -- One machine may send to the channel that the other takes from.
          by_cases hv : v.input = c
          · subst hv
            simp only [if_true]
            split
            · exact (Channel.pop_send y (hs x rfl)).symm
            · rfl
          · simp [hv]
  | sent x =>
      cases t with
      | none => rfl
      | took y =>
          by_cases hw : w.input = c
          · subst hw
            simp only [if_true]
            split
            · exact Channel.pop_send x (ht y rfl)
            · rfl
          · simp [hw]
      | sent y =>
          by_cases hv : v.output = c
          · have hw : w.output ≠ c := fun e => hout (hv.trans e.symm)
            simp [hv, hw]
          · simp [hv]

/-- A machine that is ready makes the same step wherever the value that waits for it is the same. It
may find a value where there was none, but then it did not need one. -/
theorem ready_of_front {net net' : Network n k} {j : Fin n} (hfit : (net.machines.get j).Fits)
    (hmachine : net'.machines.get j = net.machines.get j)
    (hfront : ∀ v, net.front? j = some v → net'.front? j = some v) (hj : net.Ready j) :
    net'.Ready j ∧ net'.stepped j = net.stepped j := by
  simp only [Ready, stepped, hmachine] at hj ⊢
  cases h : net.front? j with
  | some v =>
      rw [hfront v h]
      rw [h] at hj
      exact ⟨hj, rfl⟩
  | none =>
      rw [h] at hj
      exact ⟨hj.of_none _, hj.step_eq hfit _⟩

section Diamond
variable {net : Network n k} {i j : Fin n}

/-- A value that waits for a machine keeps waiting while another machine steps. -/
theorem front?_step_of_ne (hwired : net.PointToPoint) (hij : i ≠ j) {v : Int}
    (h : net.front? j = some v) : (net.step i).2.front? j = some v := by
  have hin : (net.wires.get i).input ≠ (net.wires.get j).input :=
    fun e => hij (hwired.input_inj i j e)
  simp only [front?, step_wires, step_channels, get_transfer] at h ⊢
  split
  · exact h
  · rw [if_neg hin]
    exact h
  · split
    · exact Channel.front?_send _ h
    · exact h

/-- The step of a machine that is ready is not changed by the step of another machine. -/
theorem ready_step_of_ne (hwired : net.PointToPoint) (hfit : net.Fits) (hij : i ≠ j)
    (hj : net.Ready j) :
    (net.step i).2.Ready j ∧ (net.step i).2.stepped j = net.stepped j :=
  ready_of_front (hfit j) (step_machine_of_ne net hij)
    (fun _ => front?_step_of_ne hwired hij) hj

/-- What a step takes was waiting at the front. -/
theorem front?_of_took (hfit : net.Fits) (v : Int)
    (h : (net.stepped i).1.transfer = .took v) :
    (net.channels.get (net.wires.get i).input).front? = some v :=
  Machine.front_of_took (hfit i) h

/-- Two machines that are ready can step in either order. -/
theorem step_comm (hwired : net.PointToPoint) (hfit : net.Fits) (hij : i ≠ j)
    (hi : net.Ready i) (hj : net.Ready j) :
    ((net.step i).2.step j).2 = ((net.step j).2.step i).2 := by
  have hij' := (ready_step_of_ne hwired hfit hij hj).2
  have hji' := (ready_step_of_ne hwired hfit hij.symm hi).2
  have hval : i.val ≠ j.val := fun e => hij (Fin.ext e)
  rw [step_eq (net.step i).2 j, step_eq (net.step j).2 i, hij', hji']
  simp only [step_eq net i, step_eq net j]
  congr 1
  · exact Vector.set_comm _ _ hval
  · apply transfer_comm
    · exact fun e => hij (hwired.input_inj i j e)
    · exact fun e => hij (hwired.output_inj i j e)
    · exact front?_of_took hfit
    · exact front?_of_took hfit

end Diamond

/-- Steps of machines that are ready, in the order in which the schedule lists them. -/
inductive Interleaving : Network n k → List (Fin n) → Network n k → Prop
  | done (net : Network n k) : Interleaving net [] net
  | step {net final : Network n k} {i : Fin n} {schedule : List (Fin n)} (ready : net.Ready i)
      (rest : Interleaving (net.step i).2 schedule final) : Interleaving net (i :: schedule) final

/-- No machine can step. -/
def Settled (net : Network n k) : Prop := ∀ i : Fin n, ¬ net.Ready i

instance (net : Network n k) : Decidable net.Settled :=
  inferInstanceAs (Decidable (∀ i : Fin n, ¬ net.Ready i))

/-- A machine that is ready steps at some time before the network settles, and its first step can
be made at once. -/
theorem Interleaving.advance_first {net final : Network n k} {schedule : List (Fin n)}
    (run : Interleaving net schedule final) (hwired : net.PointToPoint) (hfit : net.Fits)
    (hfinal : final.Settled) {j : Fin n} (hj : net.Ready j) :
    j ∈ schedule ∧ Interleaving (net.step j).2 (schedule.erase j) final := by
  induction run with
  | done net => exact absurd hj (hfinal j)
  | @step net final i schedule ready rest ih =>
      by_cases hij : i = j
      · subst hij
        refine ⟨List.mem_cons_self, ?_⟩
        rwa [List.erase_cons_head]
      · have hj' := (ready_step_of_ne hwired hfit hij hj).1
        have hi' := (ready_step_of_ne hwired hfit (Ne.symm hij) ready).1
        obtain ⟨hmem, run⟩ := ih (hwired.step i) (hfit.step i) hfinal hj'
        refine ⟨List.mem_cons_of_mem i hmem, ?_⟩
        rw [List.erase_cons_tail (by simpa using hij)]
        apply Interleaving.step hi'
        rwa [← step_comm hwired hfit hij ready hj]

/-- Whatever steps are made first, those that are left over bring the network to the same end. -/
theorem Interleaving.residual {net other final : Network n k} {left schedule : List (Fin n)}
    (first : Interleaving net left other) (run : Interleaving net schedule final)
    (hwired : net.PointToPoint) (hfit : net.Fits) (hfinal : final.Settled) :
    ∃ rest, schedule.Perm (left ++ rest) ∧ Interleaving other rest final := by
  -- Each of the steps made first is moved to the front of what is left of the other run.
  induction first generalizing schedule with
  | done net => exact ⟨schedule, List.Perm.refl _, run⟩
  | @step net other j left ready _ ih =>
      obtain ⟨hmem, run⟩ := run.advance_first hwired hfit hfinal ready
      obtain ⟨rest, hperm, hrest⟩ := ih run (hwired.step j) (hfit.step j)
      exact ⟨rest, (List.perm_cons_erase hmem).trans (hperm.cons j), hrest⟩

/-- All interleavings that come to an end agree on the end and on the number of steps of each
machine, and once there is one of them, no interleaving is longer. -/
theorem interleavings_agree (net : Network n k) (hwired : net.PointToPoint) (hfit : net.Fits)
    {schedule : List (Fin n)} {final : Network n k} (run : Interleaving net schedule final)
    (hfinal : final.Settled) :
    (∀ schedule' final', Interleaving net schedule' final' → final'.Settled →
      final' = final ∧ ∀ i, schedule'.count i = schedule.count i) ∧
    ∀ schedule' other, Interleaving net schedule' other → schedule'.length ≤ schedule.length := by
  constructor
  · intro schedule' final' run' hfinal'
    obtain ⟨rest, hperm, hrest⟩ := run'.residual run hwired hfit hfinal
    cases hrest with
    | done => exact ⟨rfl, fun i => by simp [hperm.count_eq i]⟩
    | step ready _ => exact absurd ready (hfinal' _)
  · intro schedule' other run'
    obtain ⟨rest, hperm, -⟩ := run'.residual run hwired hfit hfinal
    rw [hperm.length_eq, List.length_append]
    exact Nat.le_add_right _ _

/-- Two machines in a ring that send on what they receive, with one value to start from. -/
def echoRing : Network 2 6 :=
  assemble #v[.ofList [7], .empty]
    #v[⟨.echo, { input := some 0, output := some 1 }⟩,
      ⟨.echo, { input := some 1, output := some 0 }⟩]

/-- Each machine of the ring takes a value, sends it and halts, in whatever order they step. -/
theorem interleavings_agree_echoRing :
    echoRing.PointToPoint ∧ echoRing.Fits ∧ ∃ final : Network 2 6,
      Interleaving echoRing [0, 0, 1, 0, 1, 1] final ∧ final.Settled ∧
      ∀ schedule other, Interleaving echoRing schedule other → schedule.length ≤ 6 := by
  have run : Interleaving echoRing [0, 0, 1, 0, 1, 1] _ :=
    .step (by decide +kernel) <| .step (by decide +kernel) <| .step (by decide +kernel) <|
    .step (by decide +kernel) <| .step (by decide +kernel) <| .step (by decide +kernel) <| .done _
  have hwired : echoRing.PointToPoint := ⟨by decide +kernel, by decide +kernel⟩
  have hfit : ∀ i : Fin 2, (echoRing.machines.get i).state.memory.size < addressSpace := by
    decide +kernel
  exact ⟨hwired, hfit, _, run, by decide +kernel,
    (interleavings_agree echoRing hwired hfit run (by decide +kernel)).2⟩

end Network

end Intcode
