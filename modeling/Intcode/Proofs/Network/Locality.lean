import Intcode.Proofs.Network.Journal

/-!
# Locality

All that a machine learns from the network around it is the values that its own inputs take.
Whatever channels it shares with others and in whatever order all of them step, it does what it
would do alone, with just these values queued for it.
-/

namespace Intcode

namespace Network

variable {n k : Nat}

/-- A machine with channels of its own, and the values that wait on them. -/
def solo (m : Machine) (inputs outputs : List Int) : Network 1 2 where
  machines := #v[m]
  wires := #v[⟨⟨0, Nat.zero_lt_two⟩, ⟨1, Nat.one_lt_two⟩⟩]
  channels := #v[.ofList inputs, .ofList outputs]

@[simp] theorem solo_machine (m : Machine) (inputs outputs : List Int) :
    (solo m inputs outputs).machines.get 0 = m := rfl

theorem solo_waits (m : Machine) (inputs outputs : List Int) :
    (solo m inputs outputs).waits 0 = (inputs.head?.isNone && m.state.awaitsInput) := by
  rw [waits, front?, Channel.front?_eq]
  rfl

theorem stepped_solo (m : Machine) (inputs outputs : List Int) :
    (solo m inputs outputs).stepped 0 = m.step inputs.head? := by
  have hfront : (solo m inputs outputs).front? 0 = inputs.head? :=
    (Channel.front?_eq (.ofList inputs)).trans rfl
  rw [stepped, hfront]
  rfl

/-- A machine alone takes a value from the one queue, sends a value to the other, or neither. -/
theorem step_solo (m : Machine) (inputs outputs : List Int) :
    ((solo m inputs outputs).step 0).2 =
      solo (m.step inputs.head?).2 (inputs.drop (m.step inputs.head?).1.taken.length)
        (outputs ++ (m.step inputs.head?).1.sent) := by
  rw [step_eq, stepped_solo]
  rcases Machine.transfer_step inputs.head? m with ⟨ht, htaken, hsent⟩ | ⟨v, hfront, ho⟩ | ⟨v, ho⟩
  · rw [ht, htaken, hsent, List.append_nil]
    rfl
  · obtain ⟨rest, rfl⟩ := List.head?_eq_some_iff.mp hfront
    have hpop : (Channel.ofList (v :: rest)).pop = .ofList rest :=
      Channel.ext_toList (by simp)
    rw [ho, Outcome.transfer, transfer, modifyAt_eq]
    simp only [Outcome.taken, Outcome.sent, List.append_nil, solo]
    exact congrArg (fun c => Network.mk #v[_] #v[_] #v[c, _]) hpop
  · have hsend : (Channel.ofList outputs).send v = .ofList (outputs ++ [v]) :=
      Channel.ext_toList (by simp)
    rw [ho, Outcome.transfer, transfer, modifyAt_eq]
    exact congrArg (fun c => Network.mk #v[_] #v[_] #v[_, c]) hsend

theorem solo_step (m : Machine) (inputs outputs : List Int) :
    (solo m inputs outputs).step 0 = ((m.step inputs.head?).1,
      solo (m.step inputs.head?).2 (inputs.drop (m.step inputs.head?).1.taken.length)
        (outputs ++ (m.step inputs.head?).1.sent)) := by
  refine Prod.ext ?_ (step_solo m inputs outputs)
  rw [step_outcome, stepped_solo]

/-- With the value that a step takes at the front of its queue, a machine alone makes the same step
and has the rest of the queue left. -/
theorem step_solo_of_taken {m : Machine} {front : Option Int} (hfit : m.Fits)
    (hmade : (m.step front).1 ≠ .waiting) (rest outputs : List Int) :
    (solo m ((m.step front).1.taken ++ rest) outputs).stepped 0 = m.step front ∧
    ((solo m ((m.step front).1.taken ++ rest) outputs).step 0).2 =
      solo (m.step front).2 rest (outputs ++ (m.step front).1.sent) := by
  have hs := Machine.step_of_taken hfit hmade rest
  refine ⟨by rw [stepped_solo, hs], ?_⟩
  rw [step_solo, hs, List.drop_left]

/-- A machine alone, with just the values queued that it takes in a network, follows its steps in
the network. -/
theorem solo_follows {net : Network n k} {moves : List (Move n k)} {i : Fin n}
    (hfit : (net.machines.get i).Fits) (hstart : .start i ∉ net.record moves)
    (hover : .overwrite i ∉ net.record moves) (outputs : List Int) :
    let steps := (net.record moves).madeBy i
    let alone := solo (net.machines.get i) (TraceEntry.taken steps) outputs
    alone.entries 0 steps.length = steps ∧
    alone.advance 0 steps.length =
      solo ((net.moveAll moves).machines.get i) [] (outputs ++ TraceEntry.sent steps) := by
  -- The values still to be taken are those of the moves still to come.
  induction moves generalizing net outputs with
  | nil => exact ⟨rfl, congrArg (solo _ _) (List.append_nil _).symm⟩
  | cons m rest ih =>
      simp only [record, List.mem_cons, not_or] at hstart hover
      simp only [record, Journal.madeBy_cons, moveAll_cons]
      rcases move_cases (Ne.symm hstart.1) with rfl | ⟨f, rfl⟩ | ⟨hsame, hentry⟩
      · have hnext : (net.move (.step i)).machines.get i = (net.stepped i).2 :=
          step_machine_self net i
        have hfit' : ((net.move (.step i)).machines.get i).Fits := fits_step_self hfit
        rw [stepOf?_event_step]
        by_cases hwait : (net.stepped i).1 = .waiting
        · have hsame : (net.stepped i).2 = net.machines.get i := Machine.step_of_waiting hwait
          have hrest := ih hfit' hstart.2 hover.2 outputs
          rw [hnext, hsame] at hrest
          simpa [TraceEntry.of, hwait] using hrest
        · obtain ⟨hsame, hstep⟩ := step_solo_of_taken hfit hwait
            (TraceEntry.taken (((net.move (.step i)).record rest).madeBy i)) outputs
          have hrest := ih hfit' hstart.2 hover.2 (outputs ++ (net.stepped i).1.sent)
          rw [hnext] at hrest
          have hmade : [TraceEntry.of (net.stepped i)].filter (·.outcome ≠ .waiting) =
              [.of (net.stepped i)] := by
            simp [TraceEntry.of, hwait]
          simp only [Option.toList_some, hmade, List.singleton_append, List.length_cons]
          generalize ((net.move (.step i)).record rest).madeBy i = made at hsame hstep hrest ⊢
          constructor
          · exact congrArg₂ List.cons (congrArg TraceEntry.of hsame) (hstep ▸ hrest.1)
          · refine (congrArg (advance 0 made.length) hstep).trans (hrest.2.trans ?_)
            rw [List.append_assoc]
            rfl
      · exact absurd rfl hover.1
      · have hrest := ih (hsame ▸ hfit) hstart.2 hover.2 outputs
        rw [hsame] at hrest
        simpa [hentry] using hrest

/-- In every session in which a machine is not restarted and its state is not changed from outside,
whatever its neighbours and the holders of the channels do, the machine makes the steps that it
makes alone, with a queue of just the values that it took. In the end it is in the same state, its
queue is empty, and it has sent the same values. -/
theorem steps_as_alone (net : Network n k) (ops : List (Operation n k)) (i : Fin n)
    (hfit : (net.machines.get i).state.memory.size < addressSpace)
    (hstart : .start i ∉ net.journal ops) (hover : .overwrite i ∉ net.journal ops) :
    let steps := (net.journal ops).madeBy i
    let alone := solo (net.machines.get i) (TraceEntry.taken steps) []
    alone.entries 0 steps.length = steps ∧
    alone.advance 0 steps.length =
      solo ((net.operateAll ops).machines.get i) [] (TraceEntry.sent steps) := by
  rw [operateAll_eq_moveAll]
  exact solo_follows hfit hstart hover []

/-- Two machines that take values from the same channel and send on what they receive. -/
def rivals : Network 2 5 :=
  let shared : Fin 1 := ⟨0, Nat.zero_lt_one⟩
  assemble #v[.ofList [7, 8]]
    #v[⟨.echo, { input := some shared }⟩, ⟨.echo, { input := some shared }⟩]

/-- The first value goes to the one machine, the second to the other. -/
theorem steps_as_alone_rivals :
    let turns : List (Operation 2 5) := [0, 1, 1, 0, 1, 0].map fun i => .act (.step i)
    let steps := (rivals.journal turns).madeBy 1
    TraceEntry.taken steps = [8] ∧ steps.length = 3 ∧
    (solo (rivals.machines.get 1) (TraceEntry.taken steps) []).advance 0 steps.length =
      solo ((rivals.operateAll turns).machines.get 1) [] (TraceEntry.sent steps) := by
  intro turns steps
  exact ⟨by decide +kernel, by decide +kernel,
    (steps_as_alone rivals turns 1 (by decide +kernel) (by decide +kernel) (by decide +kernel)).2⟩

end Network

end Intcode
