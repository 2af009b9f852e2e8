import Intcode.Proofs.Machine.Outcome
import Intcode.Proofs.Network.Move
import Intcode.Proofs.Network.Schedule
import Intcode.Proofs.Program.Amplifier
import Mathlib.Data.List.Basic
import Mathlib.Logic.Function.Iterate

/-!
# The feedback loop

Feedback amplifiers in a ring pass a signal on from one to the next. In one particular schedule each
machine takes its phase, and then the machines work in the order of the ring. The signal is then
the only value in flight, and the machine that it is on its way to is the only one that does not
wait, so that the end of this schedule is known exactly. Since no two machines of a ring take from
the same channel or send to the same channel, whatever steps are made first can be followed by what
is left of this schedule. Its end is therefore the end of them all.
-/

namespace Intcode

namespace Network

variable {n k : Nat}

/-- Each value to be taken is at the front of the input channel when its turn comes. -/
def Supplies (wire : Wire k) : Vector Channel k → List Transfer → Prop
  | _, [] => True
  | channels, t :: ts => (∀ v, t = .took v → (channels.get wire.input).front? = some v) ∧
    Supplies wire (transfer channels wire t) ts

/-- The channels after some transfers. -/
def transferAll (wire : Wire k) (channels : Vector Channel k) (ts : List Transfer) :
    Vector Channel k :=
  ts.foldl (fun channels t => transfer channels wire t) channels

theorem Interleaving.trans {net net' final : Network n k} {first rest : List (Fin n)}
    (hfirst : Interleaving net first net') (hrest : Interleaving net' rest final) :
    Interleaving net (first ++ rest) final := by
  induction hfirst with
  | done net => exact hrest
  | step ready _ ih => exact .step ready (ih hrest)

/-- A machine whose values are supplied can make all its steps at once. -/
theorem Interleaving.of_passes {net : Network n k} {i : Fin n} {ts : List Transfer} {m : Machine}
    (h : (net.machines.get i).Passes ts m) (hs : Supplies (net.wires.get i) net.channels ts) :
    Interleaving net (List.replicate ts.length i)
      ⟨net.machines.set i m i.isLt, net.wires,
        transferAll (net.wires.get i) net.channels ts⟩ := by
  generalize hm : net.machines.get i = start at h
  induction h generalizing net with
  | done m =>
      subst hm
      rw [set_get_self]
      exact .done net
  | @step m next final opcode t ts made _ ih =>
      subst hm
      have hstepped : net.stepped i = (.executed opcode t, next) := made _ hs.1
      have hready : net.Ready i := by
        rw [Ready, ← Machine.isInstruction_step]
        exact congrArg (fun s => s.1.isInstruction) hstepped
      have hnext : (net.step i).2 = ⟨net.machines.set i next i.isLt, net.wires,
          transfer net.channels (net.wires.get i) t⟩ := by
        rw [step_eq, hstepped]
        rfl
      refine .step hready ?_
      have hrest := @ih (net.step i).2 (by rw [hnext]; exact hs.2)
        (by rw [hnext, get_set, if_pos rfl])
      rw [hnext] at hrest ⊢
      rwa [Vector.set_set] at hrest

/-- Steps of machines that are ready do not touch a machine on a fault. -/
theorem Interleaving.faulted {net final : Network n k} {schedule : List (Fin n)}
    (run : Interleaving net schedule final) {i : Fin n}
    (h : (net.machines.get i).state.faulted = true) :
    (final.machines.get i).state.faulted = true := by
  induction run with
  | done net => exact h
  | @step net final j schedule ready _ ih =>
      apply ih
      by_cases hij : j = i
      · subst hij
        rw [ready.1] at h
        cases h
      · rwa [step_machine_of_ne net hij]

/-- Machines that work one after the other, each for the same number of steps. -/
theorem sweep {P : Nat → Network n k → Prop} {steps : Nat}
    (h : ∀ (i : Fin n) (net : Network n k), P i net →
      ∃ net', Interleaving net (List.replicate steps i) net' ∧ P (i + 1) net')
    {net : Network n k} (hstart : P 0 net) :
    ∃ schedule final, Interleaving net schedule final ∧ schedule.length = n * steps ∧
      P n final := by
  have hupto (j : Nat) (hj : j ≤ n) : ∃ schedule final, Interleaving net schedule final ∧
      schedule.length = j * steps ∧ P j final := by
    induction j with
    | zero => exact ⟨[], net, .done net, by simp, hstart⟩
    | succ j ih =>
        obtain ⟨schedule, mid, hrun, hlength, hmid⟩ := ih (Nat.le_of_succ_le hj)
        obtain ⟨final, hlast, hfinal⟩ := h ⟨j, hj⟩ mid hmid
        refine ⟨_, final, hrun.trans hlast, ?_, hfinal⟩
        rw [List.length_append, hlength, List.length_replicate, Nat.succ_mul]
  exact hupto n (Nat.le_refl n)

end Network

namespace Loop

open Network Amplifier

variable {n : Nat}

/-- The machine at which `m` machines have been passed, counting from the first one and around the
ring. -/
def place (n m : Nat) : Fin (n + 1) := ⟨m % (n + 1), Nat.mod_lt m (Nat.succ_pos n)⟩

/-- The machine that comes after the `i`-th one in the ring. -/
def next (i : Fin (n + 1)) : Fin (n + 1) := place n (i + 1)

/-- The machine whose output comes back to the first one. -/
def last (n : Nat) : Fin (n + 1) := ⟨n, Nat.lt_succ_self n⟩

/-- The channel that the `i`-th machine takes its values from. -/
def port (i : Fin (n + 1)) : Fin (n + 1 + 2 * (n + 1)) := i.castAdd (2 * (n + 1))

/-- Feedback amplifiers in a ring. Each finds its phase on its input channel, and the first one then
finds the signal 0. -/
def network (names : Vector String (n + 1)) (phases : Vector Int (n + 1)) :
    Network (n + 1) (n + 1 + 2 * (n + 1)) :=
  assemble
    (Vector.ofFn fun i => .ofList (phases.get i :: if i.val = 0 then [0] else []))
    (Vector.ofFn fun i => ⟨.feedbackAmplifier,
      { name := names.get i, input := some i, output := some (next i) }⟩)

/-- What the machines of the ring make of a signal, one after the other. -/
def around (phases : Vector Int (n + 1)) (x : Int) : Int :=
  phases.toList.foldl (fun x phase => amplify phase x) x

theorem place_val (i : Fin (n + 1)) : place n i = i :=
  Fin.ext (Nat.mod_eq_of_lt i.isLt)

theorem place_length (n : Nat) : place n (n + 1) = place n 0 :=
  Fin.ext ((Nat.mod_self (n + 1)).trans (Nat.zero_mod (n + 1)).symm)

theorem port_inj {i j : Fin (n + 1)} : port i = port j ↔ i = j := by
  simp only [port, Fin.ext_iff, Fin.val_castAdd]

theorem next_inj {i j : Fin (n + 1)} (h : next i = next j) : i = j := by
  have hval : (i.val + 1) % (n + 1) = (j.val + 1) % (n + 1) := congrArg Fin.val h
  have hi := i.isLt
  have hj := j.isLt
  rcases Nat.lt_or_ge (i.val + 1) (n + 1) with hi' | hi' <;>
    rcases Nat.lt_or_ge (j.val + 1) (n + 1) with hj' | hj'
  · rw [Nat.mod_eq_of_lt hi', Nat.mod_eq_of_lt hj'] at hval
    exact Fin.ext (Nat.succ.inj hval)
  · rw [Nat.mod_eq_of_lt hi', show j.val + 1 = n + 1 by omega, Nat.mod_self] at hval
    omega
  · rw [Nat.mod_eq_of_lt hj', show i.val + 1 = n + 1 by omega, Nat.mod_self] at hval
    omega
  · exact Fin.ext (by omega)

section
variable (names : Vector String (n + 1)) (phases : Vector Int (n + 1))

theorem network_machine (i : Fin (n + 1)) :
    (network names phases).machines.get i = .boot (names.get i) .feedbackAmplifier := by
  rw [network, assemble_machine, get_ofFn]

theorem network_wire (i : Fin (n + 1)) :
    (network names phases).wires.get i = ⟨port i, port (next i)⟩ := by
  rw [network, assemble_wire, get_ofFn]
  rfl

theorem network_channel (i : Fin (n + 1)) :
    ((network names phases).channels.get (port i)).toList =
      phases.get i :: if i.val = 0 then [0] else [] := by
  simp only [network, assemble_channels, get_ofFn, sendAll_nil, List.foldl_fixed]
  rw [port, get_shared, get_ofFn, Channel.toList_ofList]

end

/-- Between two laps the signal is on its way to one of the machines, and no other value is waiting.
It was sent by the machine before, unless that machine has not sent anything yet. -/
structure InFlight (names : Vector String (n + 1)) (phases : Vector Int (n + 1))
    (laps : Fin (n + 1) → Nat) (i : Fin (n + 1)) (x : Int)
    (net : Network (n + 1) (n + 1 + 2 * (n + 1))) : Prop where
  wires : ∀ j, net.wires.get j = ⟨port j, port (next j)⟩
  machines : ∀ j, ∃ sent, Between (names.get j) (phases.get j) sent (laps j) (net.machines.get j) ∧
    (next j = i → laps j < 5 → sent.back? = some x)
  channels : ∀ j, (net.channels.get (port j)).toList = if j = i then [x] else []

theorem supplies_lap {k : Nat} {wire : Wire k} {channels : Vector Channel k} {phase x : Int}
    (laps : Nat) (h : (channels.get wire.input).front? = some x) :
    Supplies wire channels (lap phase x laps) := by
  unfold lap
  split <;> simpa [Supplies] using h

theorem transferAll_lap {k : Nat} (wire : Wire k) (channels : Vector Channel k) (phase x : Int)
    (laps : Nat) : transferAll wire channels (lap phase x laps) =
      transfer (transfer channels wire (.took x)) wire (.sent (amplify phase x)) := by
  unfold lap
  split <;> rfl

section
variable {names : Vector String (n + 1)} {phases : Vector Int (n + 1)}
  {net : Network (n + 1) (n + 1 + 2 * (n + 1))} {i : Fin (n + 1)} {x : Int} {laps : Nat}

/-- With the signal taken, no value is waiting. -/
theorem InFlight.toList_took {laps : Fin (n + 1) → Nat} (h : InFlight names phases laps i x net)
    (j : Fin (n + 1)) :
    ((transfer net.channels ⟨port i, port (next i)⟩ (.took x)).get (port j)).toList = [] := by
  rw [get_transfer]
  simp only [port_inj]
  split
  · next hij => rw [Channel.toList_pop, h.channels, if_pos hij.symm, List.tail_cons]
  · next hij => rw [h.channels, if_neg (Ne.symm hij)]

/-- The machine that the signal is on its way to takes it and sends on what it makes of it. -/
theorem InFlight.pass {laps : Fin (n + 1) → Nat} (h : InFlight names phases laps i x net)
    (laps' : Fin (n + 1) → Nat) (hi : laps i = laps' i + 1)
    (hothers : ∀ j, j ≠ i → laps' j = laps j) :
    ∃ net', Interleaving net (List.replicate (lapLength (laps' i)) i) net' ∧
      InFlight names phases laps' (next i) (amplify (phases.get i) x) net' := by
  obtain ⟨sent, hbetween, -⟩ := h.machines i
  rw [hi] at hbetween
  obtain ⟨m, hpasses, hm⟩ := passes_lap hbetween x
  have hfront : (net.channels.get (net.wires.get i).input).front? = some x := by
    rw [h.wires, Channel.front?_eq, h.channels, if_pos rfl]
    rfl
  have hrun := Interleaving.of_passes hpasses (supplies_lap _ hfront)
  rw [length_lap] at hrun
  refine ⟨_, hrun, h.wires, ?_, ?_⟩
  · intro j
    rw [get_set]
    by_cases hij : i = j
    · subst hij
      rw [if_pos rfl]
      exact ⟨_, hm, fun _ _ => Array.back?_push⟩
    · obtain ⟨sent, hj, -⟩ := h.machines j
      rw [if_neg hij, hothers j (Ne.symm hij)]
      exact ⟨sent, hj, fun e => absurd (next_inj e).symm hij⟩
  · intro j
    -- A machine that is alone in the ring sends to the channel that it took the signal from.
    rw [transferAll_lap, h.wires, get_transfer]
    simp only [port_inj, @eq_comm _ j]
    split
    · rw [Channel.toList_send, h.toList_took, List.nil_append]
    · exact h.toList_took j

/-- What the first `m` machines make of a signal. -/
def through (phases : Vector Int (n + 1)) (m : Nat) (x : Int) : Int :=
  (phases.toList.take m).foldl (fun x phase => amplify phase x) x

theorem through_succ (phases : Vector Int (n + 1)) (i : Fin (n + 1)) (x : Int) :
    through phases (i + 1) x = amplify (phases.get i) (through phases i x) := by
  have hi : i.val < phases.toList.length := by
    rw [Vector.length_toList]
    exact i.isLt
  unfold through
  rw [List.take_succ_eq_append_getElem hi, List.foldl_append]
  rfl

theorem through_all (phases : Vector Int (n + 1)) (x : Int) :
    through phases (n + 1) x = around phases x := by
  unfold through around
  rw [List.take_of_length_le (Nat.le_of_eq Vector.length_toList)]

/-- During a round, the signal has been passed on by the first `m` machines. -/
def Underway (names : Vector String (n + 1)) (phases : Vector Int (n + 1)) (laps : Nat) (x : Int)
    (m : Nat) : Network (n + 1) (n + 1 + 2 * (n + 1)) → Prop :=
  InFlight names phases (fun j => if j.val < m then laps else laps + 1) (place n m)
    (through phases m x)

theorem Underway.pass (h : Underway names phases laps x i net) :
    ∃ net', Interleaving net (List.replicate (lapLength laps) i) net' ∧
      Underway names phases laps x (i + 1) net' := by
  rw [Underway, place_val] at h
  have hpass := h.pass (fun j => if j.val < i.val + 1 then laps else laps + 1) (by simp) ?_
  · simp only [Nat.lt_succ_self, if_true, ← through_succ] at hpass
    exact hpass
  · intro j hij
    have hval : j.val ≠ i.val := fun e => hij (Fin.ext e)
    simp only [Nat.lt_succ_iff_lt_or_eq, hval, or_false]

/-- The signal makes a round. -/
theorem InFlight.round (h : InFlight names phases (fun _ => laps + 1) (place n 0) x net) :
    ∃ schedule final, Interleaving net schedule final ∧
      schedule.length = (n + 1) * lapLength laps ∧
      InFlight names phases (fun _ => laps) (place n 0) (around phases x) final := by
  have hstart : Underway names phases laps x 0 net := h
  obtain ⟨schedule, final, hrun, hlength, hfinal⟩ := sweep (fun _ _ hi => hi.pass) hstart
  refine ⟨schedule, final, hrun, hlength, ?_⟩
  simpa only [Underway, Fin.is_lt, if_true, place_length, through_all] using hfinal

/-- The signal makes all the rounds that are left, and then every machine has halted. -/
theorem InFlight.rounds (h : InFlight names phases (fun _ => laps + 1) (place n 0) x net) :
    ∃ schedule final, Interleaving net schedule final ∧
      schedule.length = (n + 1) * (6 * (laps + 1) + 1) ∧
      InFlight names phases (fun _ => 0) (place n 0) ((around phases)^[laps + 1] x) final := by
  induction laps generalizing x net with
  | zero => exact h.round
  | succ laps ih =>
      obtain ⟨schedule, mid, hrun, hlength, hmid⟩ := h.round
      obtain ⟨rest, final, hrest, hlength', hfinal⟩ := ih hmid
      refine ⟨_, final, hrun.trans hrest, ?_, hfinal⟩
      rw [List.length_append, hlength, hlength', lapLength, if_neg (Nat.succ_ne_zero laps),
        ← Nat.mul_add]
      congr 1
      omega

/-- Before the rounds, the first `m` machines have taken their phases. -/
structure Tuned (names : Vector String (n + 1)) (phases : Vector Int (n + 1)) (m : Nat)
    (net : Network (n + 1) (n + 1 + 2 * (n + 1))) : Prop where
  wires : ∀ j, net.wires.get j = ⟨port j, port (next j)⟩
  tuned : ∀ j : Fin (n + 1), j.val < m →
    Between (names.get j) (phases.get j) #[] 5 (net.machines.get j)
  fresh : ∀ j : Fin (n + 1), m ≤ j.val →
    net.machines.get j = .boot (names.get j) .feedbackAmplifier
  channels : ∀ j : Fin (n + 1), (net.channels.get (port j)).toList =
    (if j.val < m then [] else [phases.get j]) ++ if j.val = 0 then [0] else []

theorem tuned_network : Tuned names phases 0 (network names phases) where
  wires := network_wire names phases
  tuned _ h := absurd h (Nat.not_lt_zero _)
  fresh j _ := network_machine names phases j
  channels := network_channel names phases

/-- The next machine takes its phase. -/
theorem Tuned.pass (h : Tuned names phases i net) :
    ∃ net', Interleaving net (List.replicate 2 i) net' ∧ Tuned names phases (i + 1) net' := by
  obtain ⟨m, hpasses, hm⟩ := passes_phase (names.get i) (phases.get i)
  rw [← h.fresh i (Nat.le_refl _)] at hpasses
  have hfront : (net.channels.get (net.wires.get i).input).front? = some (phases.get i) := by
    rw [h.wires, Channel.front?_eq, h.channels, if_neg (Nat.lt_irrefl _)]
    rfl
  have hsupplied : Supplies (net.wires.get i) net.channels [.took (phases.get i), .none] := by
    simpa [Supplies] using hfront
  refine ⟨_, Interleaving.of_passes hpasses hsupplied, h.wires, ?_, ?_, ?_⟩
  · intro j hj
    rw [get_set]
    split
    · next hij => exact hij ▸ hm
    · next hij => exact h.tuned j (by omega)
  · intro j hj
    rw [get_set, if_neg (by omega)]
    exact h.fresh j (by omega)
  · intro j
    change Channel.toList ((transfer _ (net.wires.get i) (.took (phases.get i))).get _) = _
    rw [h.wires, get_transfer]
    simp only [port_inj]
    split
    · next hij =>
        subst hij
        rw [Channel.toList_pop, h.channels, if_neg (Nat.lt_irrefl _), if_pos (Nat.lt_succ_self _)]
        rfl
    · next hij =>
        have hval : j.val ≠ i.val := fun e => hij (Fin.ext e.symm)
        rw [h.channels]
        simp only [Nat.lt_succ_iff_lt_or_eq, hval, or_false]

/-- Once all machines have taken their phases, the signal is the only value left. -/
theorem Tuned.inFlight (h : Tuned names phases (n + 1) net) :
    InFlight names phases (fun _ => 5) (place n 0) 0 net where
  wires := h.wires
  machines j := ⟨#[], h.tuned j j.isLt, fun _ hlt => absurd hlt (Nat.lt_irrefl 5)⟩
  channels j := by
    rw [h.channels, if_pos j.isLt, List.nil_append]
    simp only [Fin.ext_iff, place, Nat.zero_mod]

/-- There is a schedule in which all machines halt. -/
theorem completes (names : Vector String (n + 1)) (phases : Vector Int (n + 1)) :
    ∃ schedule final, Interleaving (network names phases) schedule final ∧
      schedule.length = 33 * (n + 1) ∧
      InFlight names phases (fun _ => 0) (place n 0) ((around phases)^[5] 0) final := by
  obtain ⟨prelude, mid, hprelude, hlength, hmid⟩ :=
    sweep (fun _ _ hi => Tuned.pass hi) (@tuned_network n names phases)
  obtain ⟨schedule, final, hrun, hlength', hfinal⟩ := hmid.inFlight.rounds
  refine ⟨_, final, hprelude.trans hrun, ?_, hfinal⟩
  rw [List.length_append, hlength, hlength']
  omega

theorem InFlight.halted (h : InFlight names phases (fun _ => 0) i x net) (j : Fin (n + 1)) :
    (net.machines.get j).state.halted = true ∧ (net.machines.get j).state.faulted = false := by
  obtain ⟨sent, ⟨report, signal, hm⟩, -⟩ := h.machines j
  rw [hm]
  exact ⟨rfl, rfl⟩

theorem InFlight.settled (h : InFlight names phases (fun _ => 0) i x net) : net.Settled := by
  intro j hready
  have hhalted := (h.halted j).1
  rw [hready.2.1] at hhalted
  cases hhalted

/-- What arrives at the first machine was sent by the last one. -/
theorem InFlight.last_sent (h : InFlight names phases (fun _ => laps) (place n 0) x net)
    (hlaps : laps < 5) :
    (net.machines.get (last n)).diagnostics.back? = some x := by
  obtain ⟨sent, hbetween, hsent⟩ := h.machines (last n)
  rw [hbetween.diagnostics_eq]
  exact hsent (place_length n) hlaps

theorem network_pointToPoint (names : Vector String (n + 1)) (phases : Vector Int (n + 1)) :
    (network names phases).PointToPoint where
  input_inj i j h := by
    rw [network_wire, network_wire] at h
    exact port_inj.mp h
  output_inj i j h := by
    rw [network_wire, network_wire] at h
    exact next_inj (port_inj.mp h)

theorem network_fits (names : Vector String (n + 1)) (phases : Vector Int (n + 1)) :
    (network names phases).Fits := by
  intro i
  rw [network_machine]
  change Program.feedbackAmplifier.image.size < addressSpace
  decide

end

/-- In every interleaving of a ring of feedback amplifiers, whatever the phases, no machine faults.
An interleaving has at most 33 steps for each machine, and it can be carried on until no machine is
ready. All machines have halted then, and the value that the last one sent last is what five rounds
make of the signal 0. -/
theorem every_schedule_amplifies (names : Vector String (n + 1)) (phases : Vector Int (n + 1)) :
    (∀ schedule other, Interleaving (network names phases) schedule other →
      schedule.length ≤ 33 * (n + 1) ∧
      (∀ i, (other.machines.get i).state.faulted = false) ∧
      ∃ rest final, Interleaving other rest final ∧ final.Settled) ∧
    ∀ schedule final, Interleaving (network names phases) schedule final → final.Settled →
      (∀ i, (final.machines.get i).state.halted = true) ∧
      (final.machines.get (last n)).diagnostics.back? = some ((around phases)^[5] 0) := by
  obtain ⟨complete, final, hrun, hlength, hfinal⟩ := completes names phases
  -- From wherever another schedule has come to, what is left of the known one leads to its end.
  have hresidual {left : List (Fin (n + 1))} {other : Network (n + 1) (n + 1 + 2 * (n + 1))}
      (h : Interleaving (network names phases) left other) :
      ∃ rest, complete.Perm (left ++ rest) ∧ Interleaving other rest final :=
    h.residual hrun (network_pointToPoint names phases) (network_fits names phases) hfinal.settled
  constructor
  · intro left other h
    obtain ⟨rest, hperm, hrest⟩ := hresidual h
    refine ⟨?_, ?_, rest, final, hrest, hfinal.settled⟩
    · have hsplit := hperm.length_eq
      rw [hlength, List.length_append] at hsplit
      omega
    · intro i
      by_contra hfaulted
      have hstill := hrest.faulted (eq_true_of_ne_false hfaulted)
      rw [(hfinal.halted i).2] at hstill
      cases hstill
  · intro left other h hsettled
    obtain ⟨rest, -, hrest⟩ := hresidual h
    cases hrest with
    | done => exact ⟨fun i => (hfinal.halted i).1, hfinal.last_sent (by decide)⟩
    | step ready _ => exact absurd ready (hsettled _)

end Loop

end Intcode
