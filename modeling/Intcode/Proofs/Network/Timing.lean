import Intcode.Proofs.Network.Journal
import Intcode.Proofs.Network.Schedule

/-!
# Timing of inputs

It does not matter when a machine is given its inputs, nor in how many pieces it runs. However
inputs, steps and bounded runs follow each other, the machine executes the instructions that it
executes with all its inputs queued at the start, and the network ends up the same. Its outputs up
to the point where it waits are therefore a first part of its outputs on more inputs.
-/

namespace Intcode

/-- What the driver of a single machine can call. -/
inductive Call
  | write (v : Int)
  | step
  | run (limit : Nat)

namespace Call

/-- A call on the `i`-th machine. -/
def operation {n k : Nat} (i : Fin n) : Call → Operation n k
  | write v => .act (.writeInput i v)
  | step => .act (.step i)
  | run limit => .act (.run i limit)

/-- The value that a call queues. -/
def written : Call → List Int
  | write v => [v]
  | step | run _ => []

end Call

namespace Network

variable {n k : Nat} {net : Network n k} {i : Fin n}

theorem writeInputs_append (net : Network n k) (i : Fin n) (xs ys : List Int) :
    net.writeInputs i (xs ++ ys) = (net.writeInputs i xs).writeInputs i ys :=
  List.foldl_append

theorem advance_add (net : Network n k) (i : Fin n) (s t : Nat) :
    net.advance i (s + t) = (net.advance i s).advance i t := by
  induction s generalizing net with
  | zero => rw [Nat.zero_add]; rfl
  | succ s ih => rw [Nat.succ_add]; exact ih (net.step i).2

/-- To queue a value for a machine is to send it along the wire the other way round. -/
theorem writeInput_eq (net : Network n k) (i : Fin n) (v : Int) :
    net.writeInput i v = { net with
      channels := transfer net.channels ⟨(net.wires.get i).output, (net.wires.get i).input⟩
        (.sent v) } := by
  simp only [writeInput, onChannel, transfer, modifyAt_eq, Channel.perform]

/-- A value that is queued behind the others does not change the next step. -/
theorem ready_writeInput (hfit : (net.machines.get i).Fits) (hr : net.Ready i) (v : Int) :
    (net.writeInput i v).Ready i ∧ (net.writeInput i v).stepped i = net.stepped i := by
  refine ready_of_front hfit rfl ?_ hr
  intro x hx
  rw [front?, writeInput_wires, get_writeInput, if_pos rfl]
  exact Channel.front?_send v hx

/-- A value can be queued before or after a step, since the step does not send to its own queue. -/
theorem step_writeInput (hfit : (net.machines.get i).Fits)
    (hwire : (net.wires.get i).input ≠ (net.wires.get i).output) (hr : net.Ready i) (v : Int) :
    ((net.writeInput i v).step i).2 = (net.step i).2.writeInput i v := by
  have hstepped := (ready_writeInput hfit hr v).2
  have hfront (x : Int) (h : (net.stepped i).1.transfer = .took x) :
      (net.channels.get (net.wires.get i).input).front? = some x :=
    Machine.front_of_took hfit h
  have hmove : ∀ x, Transfer.sent v = .took x →
      (net.channels.get (net.wires.get i).output).front? = some x := by
    intro x hx
    cases hx
  rw [step_eq (net.writeInput i v), hstepped, writeInput_eq, writeInput_eq, step_eq net]
  exact congrArg (Network.mk _ _) (transfer_comm (w := ⟨(net.wires.get i).output,
    (net.wires.get i).input⟩) hwire (Ne.symm hwire) hfront hmove).symm

/-- Any number of values can be queued before or after a step. -/
theorem step_writeInputs (hfit : (net.machines.get i).Fits)
    (hwire : (net.wires.get i).input ≠ (net.wires.get i).output) (hr : net.Ready i)
    (vs : List Int) :
    (net.writeInputs i vs).stepped i = net.stepped i ∧
      ((net.writeInputs i vs).step i).2 = (net.step i).2.writeInputs i vs := by
  induction vs generalizing net with
  | nil => exact ⟨rfl, rfl⟩
  | cons v vs ih =>
      obtain ⟨hready, hstepped⟩ := ready_writeInput hfit hr v
      obtain ⟨hsame, hnext⟩ := @ih (net.writeInput i v) hfit hwire hready
      refine ⟨hsame.trans hstepped, hnext.trans ?_⟩
      rw [step_writeInput hfit hwire hr v]
      rfl

theorem isInstruction_stepped : (net.stepped i).1.isInstruction = true ↔ net.Ready i :=
  Machine.isInstruction_step

/-- Only steps of the `i`-th machine and values queued for it. -/
def Feeds (net : Network n k) (i : Fin n) (moves : List (Move n k)) : Prop :=
  ∀ m ∈ moves, m = .step i ∨ ∃ v, m = .channel (net.wires.get i).input (.send v)

/-- The values that moves queue. -/
def fed (moves : List (Move n k)) : List Int :=
  moves.flatMap fun
    | .channel _ op => op.sent
    | _ => []

/-- Moves that feed a machine and let it step have the same effect as feeding it first. -/
theorem moveAll_fed {moves : List (Move n k)} (hfit : (net.machines.get i).Fits)
    (hwire : (net.wires.get i).input ≠ (net.wires.get i).output) (hfeeds : net.Feeds i moves) :
    let made := (net.record moves).instructionsOf i
    let queued := net.writeInputs i (fed moves)
    queued.entries i made.length = made ∧ queued.advance i made.length = net.moveAll moves := by
  induction moves generalizing net with
  | nil => exact ⟨rfl, rfl⟩
  | cons m rest ih =>
      have hrest : net.Feeds i rest := fun m' hm' => hfeeds m' (List.mem_cons_of_mem m hm')
      simp only [record, Journal.instructionsOf_cons]
      rcases hfeeds m List.mem_cons_self with rfl | ⟨v, rfl⟩
      · rw [stepOf?_event_step]
        by_cases hr : net.Ready i
        · obtain ⟨hsame, hstep⟩ := step_writeInputs hfit hwire hr (fed rest)
          have hinstruction : [TraceEntry.of (net.stepped i)].filter (·.outcome.isInstruction) =
              [.of (net.stepped i)] := by
            simpa [TraceEntry.of] using isInstruction_stepped.mpr hr
          obtain ⟨hentries, hadvance⟩ := @ih (net.step i).2 (fits_step_self hfit)
            (by rwa [step_wires]) (by rwa [Feeds, step_wires])
          simp only [Option.toList_some, hinstruction, List.singleton_append, List.length_cons]
          constructor
          · exact congrArg₂ List.cons (congrArg TraceEntry.of hsame) (hstep ▸ hentries)
          · exact (congrArg (advance i _) hstep).trans hadvance
        · have hidle : [TraceEntry.of (net.stepped i)].filter (·.outcome.isInstruction) = [] := by
            simpa [TraceEntry.of] using mt isInstruction_stepped.mp hr
          -- An attempt that finds nothing to do leaves no trace.
          have hstay : net.move (.step i) = net := step_of_not_ready hr
          simp only [Option.toList_some, hidle, List.nil_append, moveAll_cons, hstay]
          exact ih hfit hwire hrest
      · exact @ih (net.writeInput i v) hfit hwire hrest

theorem feeds_moves (net : Network n k) (i : Fin n) (c : Call) :
    net.Feeds i (net.moves (c.operation i)) ∧ fed (net.moves (c.operation i)) = c.written := by
  cases c with
  | write v =>
      refine ⟨?_, rfl⟩
      intro m hm
      exact .inr ⟨v, List.mem_singleton.mp hm⟩
  | step =>
      refine ⟨?_, rfl⟩
      intro m hm
      exact .inl (List.mem_singleton.mp hm)
  | run limit =>
      constructor
      · intro m hm
        exact .inl (List.eq_of_mem_replicate hm)
      · apply List.flatMap_eq_nil_iff.mpr
        intro m hm
        rw [List.eq_of_mem_replicate hm]

/-- Calls on a machine come down to its steps and the values queued for it. -/
theorem feeds_expand (net : Network n k) (i : Fin n) (calls : List Call) :
    net.Feeds i (net.expand (calls.map (Call.operation i))) ∧
      fed (net.expand (calls.map (Call.operation i))) = calls.flatMap Call.written := by
  induction calls generalizing net with
  | nil => exact ⟨nofun, rfl⟩
  | cons c rest ih =>
      obtain ⟨hfirst, hwritten⟩ := feeds_moves net i c
      obtain ⟨hrest, hfed⟩ := ih (net.operate (c.operation i))
      have hwires : (net.operate (c.operation i)).wires = net.wires := by
        cases c <;> exact (sameMakeup_act net _).wires
      simp only [Feeds, hwires] at hrest
      constructor
      · intro m hm
        rcases List.mem_append.mp hm with hm | hm
        · exact hfirst m hm
        · exact hrest m hm
      · simp only [List.map_cons, expand, fed, List.flatMap_append, List.flatMap_cons]
        exact congrArg₂ (· ++ ·) hwritten hfed

/-- A run that stops where the machine waits has stopped at once or carried out an instruction. -/
theorem runFrom_blocked {made fuel steps : Nat} {waiting : Network n k}
    (h : runFrom i made fuel net = (.blocked steps, waiting)) :
    (steps = made ∧ waiting = net) ∨
      ∃ fuel', fuel = fuel' + 1 ∧ net.Ready i ∧
        runFrom i (made + 1) fuel' (net.step i).2 = (.blocked steps, waiting) := by
  -- On a machine that has faulted before, the run ends with that fault and does not wait.
  have hfaulted (hf : (net.machines.get i).state.faulted = true) :
      (net.step i).1 = .failed .faulted := by
    rw [step_outcome, stepped, Machine.step, if_pos hf]
  unfold runFrom at h
  split at h
  · split at h
    · cases h
    · split at h <;> cases h
      exact .inl ⟨rfl, rfl⟩
  · next fuel' =>
    split at h
    · cases h
    · next hhalted =>
      split at h
      · cases h
        exact .inl ⟨rfl, rfl⟩
      · next hwaits =>
        refine .inr ⟨fuel', rfl, ?_, ?_⟩
        · refine ⟨Bool.eq_false_iff.mpr ?_, Bool.eq_false_iff.mpr hhalted,
            Bool.eq_false_iff.mpr hwaits⟩
          intro hf
          split at h
          · cases h
          · next hne hs => exact hne _ (by rw [← hfaulted hf, hs])
        · split at h
          · cases h
          · next hs => rwa [hs]

/-- A run that stops where the machine waits has made its steps, and makes the same ones with more
values queued behind. -/
theorem advance_of_blocked {made fuel steps : Nat} {waiting : Network n k}
    (hfit : (net.machines.get i).Fits)
    (hwire : (net.wires.get i).input ≠ (net.wires.get i).output)
    (h : runFrom i made fuel net = (.blocked steps, waiting)) :
    ∃ t, steps = made + t ∧
      ∀ vs, (net.writeInputs i vs).advance i t = waiting.writeInputs i vs := by
  induction fuel generalizing made net with
  | zero =>
      obtain ⟨rfl, rfl⟩ | ⟨fuel', hfuel, -⟩ := runFrom_blocked h
      · exact ⟨0, rfl, fun _ => rfl⟩
      · cases hfuel
  | succ fuel ih =>
      obtain ⟨rfl, rfl⟩ | ⟨fuel', hfuel, hr, hrun⟩ := runFrom_blocked h
      · exact ⟨0, rfl, fun _ => rfl⟩
      · cases hfuel
        obtain ⟨t, rfl, hrest⟩ := ih (fits_step_self hfit) (by rwa [step_wires]) hrun
        refine ⟨t + 1, by omega, ?_⟩
        intro vs
        rw [← hrest vs, ← (step_writeInputs hfit hwire hr vs).2]
        rfl

theorem diagnostics_advance (net : Network n k) (i : Fin n) (t : Nat) :
    (net.machines.get i).diagnostics.toList <+:
      ((net.advance i t).machines.get i).diagnostics.toList := by
  induction t with
  | zero => exact List.prefix_refl _
  | succ t ih =>
      rw [advance_succ, step_machine_self, stepped, Machine.diagnostics_step]
      exact ih.trans (List.prefix_append _ _)

/-- However a machine is given its inputs and run in pieces, the instructions that it carries out
are those that it carries out with all inputs queued at the start, with the same results, and they
leave the same network. What it has sent where it waits on some inputs is a first part of what it
has sent after at least as many steps on these inputs and more. -/
theorem inputs_any_time (net : Network n k) (i : Fin n)
    (hfit : (net.machines.get i).state.memory.size < addressSpace)
    (hwire : (net.wires.get i).input ≠ (net.wires.get i).output) :
    (∀ calls : List Call,
      let ops := calls.map (Call.operation i)
      let made := (net.journal ops).instructionsOf i
      let queued := net.writeInputs i (calls.flatMap Call.written)
      queued.entries i made.length = made ∧ queued.advance i made.length = net.operateAll ops) ∧
    ∀ (xs ys : List Int) (limit steps t : Nat) (waiting : Network n k),
      (net.writeInputs i xs).run i limit = (.blocked steps, waiting) → steps ≤ t →
      (waiting.machines.get i).diagnostics.toList <+:
        (((net.writeInputs i (xs ++ ys)).advance i t).machines.get i).diagnostics.toList := by
  constructor
  · intro calls ops
    obtain ⟨hfeeds, hfed⟩ := feeds_expand net i calls
    rw [operateAll_eq_moveAll, ← hfed]
    exact moveAll_fed hfit hwire hfeeds
  · intro xs ys limit steps t waiting hrun hle
    obtain ⟨hmachines, hwires, -⟩ := net.writeInputs_spec i xs
    obtain ⟨steps', hsteps, hadvance⟩ := advance_of_blocked (by rwa [hmachines])
      (by rwa [hwires]) hrun
    obtain ⟨more, rfl⟩ := Nat.exists_eq_add_of_le hle
    rw [hsteps, Nat.zero_add, writeInputs_append, advance_add, hadvance ys]
    have hprefix := diagnostics_advance (waiting.writeInputs i ys) i more
    rwa [(waiting.writeInputs_spec i ys).1] at hprefix

/-- A feedback amplifier waits for its phase and for each signal, in runs of any length. -/
theorem inputs_any_time_feedback :
    let net := single .feedbackAmplifier "amplifier" []
    let calls : List Call := [.step, .write 5, .run 20, .write 1, .run 3, .step, .run 20, .write 2,
      .run 20, .step]
    let made := (net.journal (calls.map (Call.operation 0))).instructionsOf 0
    let waiting := ((net.writeInputs 0 [5, 1]).run 0 20).2
    (made.length = 14 ∧ (net.writeInputs 0 [5, 1, 2]).entries 0 14 = made ∧
      (net.writeInputs 0 [5, 1, 2]).advance 0 14 =
        net.operateAll (calls.map (Call.operation 0))) ∧
    (waiting.machines.get 0).diagnostics = #[3] ∧
    (waiting.machines.get 0).diagnostics.toList <+:
      (((net.writeInputs 0 ([5, 1] ++ [2])).advance 0 14).machines.get 0).diagnostics.toList := by
  intro net calls made waiting
  have hmade : made.length = 14 := by decide +kernel
  obtain ⟨hcalls, hprefix⟩ := inputs_any_time net 0 (by decide +kernel) (by decide +kernel)
  obtain ⟨hentries, hadvance⟩ := hcalls calls
  rw [hmade] at hentries hadvance
  have hblocked : (net.writeInputs 0 [5, 1]).run 0 20 = (.blocked 8, waiting) := by decide +kernel
  have hle : 8 ≤ 14 := by decide
  exact ⟨⟨hmade, hentries, hadvance⟩, by decide +kernel,
    hprefix [5, 1] [2] 20 8 14 waiting hblocked hle⟩

end Network

end Intcode
