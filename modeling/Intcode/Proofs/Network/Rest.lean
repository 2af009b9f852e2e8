import Intcode.Proofs.Network.Journal

/-!
# Machines at rest

A machine comes to rest by halting or on a fault, and never in both ways at once. It then stays at
rest until it is reset: whatever is asked of it, it gives the same answer each time and nothing in
the network changes. Steps look at the fault flag first and runs look at the halt flag alone, so the
two agree only because no machine that is left to itself ever has both flags set.
-/

namespace Intcode

/-- What the driver of a machine can ask of it. Runs and calls are allowed at least one step. -/
inductive Request
  | step
  | run (more : Nat)
  | call (more : Nat)

/-- The answers to requests. A run or call may also stop before it has an answer. -/
inductive Response
  | step (outcome : Outcome)
  | run (answer : Except Fault (Array Int) ⊕ RunEnd)
  | call (answer : Except Failure (String × Int) ⊕ RunEnd)
deriving DecidableEq

namespace Machine

/-- The answers of a machine that has halted. -/
def haltedReply (m : Machine) : Request → Response
  | .step => .step .idle
  | .run _ => .run (.inl (.ok m.diagnostics))
  | .call _ => .call <| .inl <|
    match m.diagnostics.toList.getLast? with
    | some last => .ok (m.name, last)
    | none => .error ⟨m.name, .noOutput⟩

/-- The answers of a machine that has faulted. -/
def faultedReply (m : Machine) : Request → Response
  | .step => .step (.failed .faulted)
  | .run _ => .run (.inl (.error .faulted))
  | .call _ => .call (.inl (.error ⟨m.name, .faulted⟩))

/-- The machine has not both halted and faulted. -/
def Coherent (m : Machine) : Prop := ¬ (m.state.halted = true ∧ m.state.faulted = true)

variable {m : Machine} {front : Option Int}

theorem coherent_boot (name : String) (program : Program) : (boot name program).Coherent := by
  simp [Coherent, boot, State.initial]

/-- A step that sets one of the flags finds the other one clear. -/
theorem Coherent.step (h : m.Coherent) (front : Option Int) : (m.step front).2.Coherent := by
  rcases step_ending front m with hr | ⟨hr, fault, memory, -, -, hs⟩ | ⟨-, e, memory, -, -, hs⟩
  · rwa [(stays_of_not_ready hr).1]
  · rw [hs]
    simp [Coherent, stop, hr.2.1]
  · rw [hs]
    simp [Coherent, complete]

theorem Coherent.not_faulted (h : m.Coherent) (hhalted : m.state.halted = true) :
    m.state.faulted = false :=
  Bool.eq_false_iff.mpr fun hfaulted => h ⟨hhalted, hfaulted⟩

theorem Coherent.not_halted (h : m.Coherent) (hfaulted : m.state.faulted = true) :
    m.state.halted = false :=
  Bool.eq_false_iff.mpr fun hhalted => h ⟨hhalted, hfaulted⟩

theorem step_of_faulted (h : m.state.faulted = true) : m.step front = (.failed .faulted, m) :=
  if_pos h

theorem step_of_halted (h : m.state.halted = true) (hclear : m.state.faulted = false) :
    m.step front = (.idle, m) := by
  rw [step, if_neg (Bool.eq_false_iff.mp hclear), if_pos h]

/-- A machine at rest stays as it is. -/
theorem stays_at_rest (h : m.state.halted = true ∨ m.state.faulted = true) :
    (m.step front).2 = m := by
  refine (stays_of_not_ready ?_).1
  rintro ⟨hfaulted, hhalted, -⟩
  rcases h with h | h
  · rw [hhalted] at h
    cases h
  · rw [hfaulted] at h
    cases h

/-- A step that fails leaves a machine that has not halted at rest on a fault. -/
theorem faulted_of_failed {fault : Fault} (hrunning : m.state.halted = false)
    (h : (m.step front).1 = .failed fault) :
    (m.step front).2.state.faulted = true ∧ (m.step front).2.state.halted = false := by
  rcases step_ending front m with hr | ⟨-, fault', memory, -, -, hs⟩ | ⟨-, e, memory, -, -, hs⟩
  · rcases step_of_not_ready hr with ⟨hfaulted, hs⟩ | ⟨-, hs⟩ | hs <;> rw [hs] at h ⊢
    · exact ⟨hfaulted, hrunning⟩
    · cases h
    · cases h
  · rw [hs]
    exact ⟨rfl, hrunning⟩
  · rw [hs] at h
    cases h

theorem result_eq (m : Machine) :
    m.result = match m.diagnostics.toList.getLast? with
      | some last => .ok (m.name, last)
      | none => .error ⟨m.name, .noOutput⟩ := by
  cases h : m.diagnostics.back? with
  | some last => simp only [result, Array.getLast?_toList, h]
  | none => simp only [result, Array.getLast?_toList, h]

end Machine

/-- What the end of a run tells about the state that it leaves. -/
def RunEnd.Describes (s : State) : RunEnd → Prop
  | halted => s.halted = true
  | failed _ => s.faulted = true ∧ s.halted = false
  | blocked _ | exhausted _ => s.halted = false

namespace Network

variable {n k : Nat}

/-- Ask something of the `i`-th machine. -/
def ask (net : Network n k) (i : Fin n) : Request → Response × Network n k
  | .step =>
    let (outcome, net) := net.step i
    (.step outcome, net)
  | .run more =>
    match net.run i (more + 1) with
    | (.halted, net) => (.run (.inl (.ok (net.machines.get i).diagnostics)), net)
    | (.failed fault, net) => (.run (.inl (.error fault)), net)
    | (stopped, net) => (.run (.inr stopped), net)
  | .call more =>
    let (answer, net) := net.call i (more + 1)
    (.call answer, net)

/-- Ask one thing after the other. -/
def askAll (i : Fin n) : List Request → Network n k → List Response × Network n k
  | [], net => ([], net)
  | r :: rest, net =>
    let (response, net) := net.ask i r
    let (responses, net) := askAll i rest net
    (response :: responses, net)

variable {net : Network n k} {i : Fin n}

theorem step_of_halted (h : (net.machines.get i).state.halted = true)
    (hclear : (net.machines.get i).state.faulted = false) : net.step i = (.idle, net) := by
  have hs : net.stepped i = (.idle, net.machines.get i) := Machine.step_of_halted h hclear
  rw [step_eq, hs, set_get_self]
  rfl

theorem step_of_faulted (h : (net.machines.get i).state.faulted = true) :
    net.step i = (.failed .faulted, net) := by
  have hs : net.stepped i = (.failed .faulted, net.machines.get i) := Machine.step_of_faulted h
  rw [step_eq, hs, set_get_self]
  rfl

/-- A run does not touch a machine that has halted, whatever else its state holds. -/
theorem run_of_halted (h : (net.machines.get i).state.halted = true) (limit : Nat) :
    net.run i limit = (.halted, net) :=
  runFrom_of_halted h 0 limit

/-- A run finds a machine on a fault as soon as it may make a step. -/
theorem run_of_faulted (h : (net.machines.get i).state.faulted = true)
    (hrunning : (net.machines.get i).state.halted = false) (more : Nat) :
    net.run i (more + 1) = (.failed .faulted, net) := by
  have hwaits : net.waits i = false := by
    simp [waits, State.awaitsInput, h]
  simp only [run, runFrom, hrunning, hwaits, step_of_faulted h, Bool.false_eq_true, if_false]

theorem ask_of_halted (h : (net.machines.get i).state.halted = true)
    (hclear : (net.machines.get i).state.faulted = false) (r : Request) :
    net.ask i r = ((net.machines.get i).haltedReply r, net) := by
  cases r with
  | step => simp only [ask, step_of_halted h hclear, Machine.haltedReply]
  | run more => simp only [ask, run_of_halted h, Machine.haltedReply]
  | call more =>
      simp only [ask, call, run_of_halted h, verdict, Machine.haltedReply, Machine.result_eq]

theorem ask_of_faulted (h : (net.machines.get i).state.faulted = true)
    (hrunning : (net.machines.get i).state.halted = false) (r : Request) :
    net.ask i r = ((net.machines.get i).faultedReply r, net) := by
  cases r with
  | step => simp only [ask, step_of_faulted h, Machine.faultedReply]
  | run more => simp only [ask, run_of_faulted h hrunning, Machine.faultedReply]
  | call more => simp only [ask, call, run_of_faulted h hrunning, verdict, Machine.faultedReply]

/-- Requests that change nothing are all answered as the first one would be. -/
theorem askAll_of_ask {reply : Request → Response} (h : ∀ r, net.ask i r = (reply r, net))
    (requests : List Request) : askAll i requests net = (requests.map reply, net) := by
  induction requests with
  | nil => rfl
  | cons r rest ih => simp only [askAll, h r, ih, List.map_cons]

/-- How a run ended can be seen from the flags of the machine. -/
theorem describes_runFrom (net : Network n k) (i : Fin n) (made fuel : Nat) :
    (runFrom i made fuel net).1.Describes
      ((runFrom i made fuel net).2.machines.get i).state := by
  induction fuel generalizing made net with
  | zero =>
      unfold runFrom
      split
      · next hhalted => exact hhalted
      · next hhalted => split <;> exact Bool.eq_false_iff.mpr hhalted
  | succ fuel ih =>
      unfold runFrom
      split
      · next hhalted => exact hhalted
      · next hhalted =>
        have hrunning := Bool.eq_false_iff.mpr hhalted
        split
        · exact hrunning
        · have hself := step_machine_self net i
          have houtcome := step_outcome net i
          split
          · next fault net' hs =>
            rw [hs] at hself houtcome
            rw [hself]
            exact Machine.faulted_of_failed hrunning houtcome.symm
          · exact ih _ (made + 1)

/-- A machine that was made or reset in a session, and not changed from outside since, has not both
halted and faulted. -/
theorem coherent_since {moves : List (Move n k)}
    (hstart : (∃ name program, net.machines.get i = .boot name program) ∨
      .start i ∈ net.record moves)
    (hwrite : .overwrite i ∉ (net.record moves).since i) :
    ((net.moveAll moves).machines.get i).Coherent :=
  since_preserves (P := fun m _ => m.Coherent) hstart hwrite Machine.coherent_boot
    fun _ front _ h => h.step front

/-- A machine at rest is the same for as long as it is neither made anew or reset nor changed from
outside, whatever else is done in the network. -/
theorem stays_at_rest {moves : List (Move n k)}
    (h : (net.machines.get i).state.halted = true ∨ (net.machines.get i).state.faulted = true)
    (hstart : .start i ∉ net.record moves) (hwrite : .overwrite i ∉ net.record moves) :
    (net.moveAll moves).machines.get i = net.machines.get i := by
  apply record_preserves (P := fun m _ => m = net.machines.get i) [] hstart
  · rintro m front steps rfl
    exact Machine.stays_at_rest h
  · intro hmem
    exact absurd hmem hwrite
  · rfl

/-- Whatever is done with a machine after it was made or reset, short of writing to its state, it
has never both halted and faulted. Once it has done one of them, every sequence of requests changes
nothing and is answered as such a machine answers, and no activity in the network changes the
machine. A run or call that comes to its end leaves the machine halted, and a run that fails leaves
it on a fault. -/
theorem rests_until_reset (net : Network n k) (ops : List (Operation n k)) (i : Fin n)
    (hstart : (∃ name program, net.machines.get i = .boot name program) ∨
      .start i ∈ net.journal ops)
    (hwrite : .overwrite i ∉ (net.journal ops).since i) :
    let used := net.operateAll ops
    let m := used.machines.get i
    ¬ (m.state.halted = true ∧ m.state.faulted = true) ∧
    (m.state.halted = true → ∀ requests,
      used.askAll i requests = (requests.map m.haltedReply, used)) ∧
    (m.state.faulted = true → ∀ requests,
      used.askAll i requests = (requests.map m.faultedReply, used)) ∧
    (m.state.halted = true ∨ m.state.faulted = true → ∀ more,
      .start i ∉ used.journal more → .overwrite i ∉ used.journal more →
      (used.operateAll more).machines.get i = m) ∧
    (∀ limit, (used.run i limit).1 = .halted →
      ((used.run i limit).2.machines.get i).state.halted = true) ∧
    (∀ limit answer, (used.call i limit).1 = .inl (.ok answer) →
      ((used.call i limit).2.machines.get i).state.halted = true) ∧
    ∀ limit fault, (used.run i limit).1 = .failed fault →
      ((used.run i limit).2.machines.get i).state.faulted = true ∧
      ((used.run i limit).2.machines.get i).state.halted = false := by
  intro used m
  have hcoherent : m.Coherent := by
    rw [show m = (net.moveAll (net.expand ops)).machines.get i by rw [← operateAll_eq_moveAll]]
    exact coherent_since hstart hwrite
  have hdescribes (limit : Nat) : (used.run i limit).1.Describes
      ((used.run i limit).2.machines.get i).state :=
    describes_runFrom used i 0 limit
  refine ⟨hcoherent, ?_, ?_, ?_, ?_, ?_, ?_⟩
  · intro hhalted
    exact askAll_of_ask (ask_of_halted hhalted (hcoherent.not_faulted hhalted))
  · intro hfaulted
    exact askAll_of_ask (ask_of_faulted hfaulted (hcoherent.not_halted hfaulted))
  · intro hrest more hstart' hwrite'
    rw [operateAll_eq_moveAll]
    exact stays_at_rest hrest hstart' hwrite'
  · intro limit hend
    have h := hdescribes limit
    rwa [hend] at h
  · intro limit answer hend
    have h := hdescribes limit
    simp only [call] at hend ⊢
    -- Only a run that halted is answered with a name and a value.
    cases hstop : (used.run i limit).1 with
    | halted => rwa [hstop] at h
    | failed fault => simp [hstop, verdict] at hend
    | blocked steps | exhausted steps => simp [hstop, verdict] at hend
  · intro limit fault hend
    have h := hdescribes limit
    rwa [hend] at h

/-- A machine that halts without output answers every call with that failure and is not at fault. A
machine that reads a negative address stays on its fault. -/
theorem rests_until_reset_silent :
    let silent : Network 1 2 := single .addSelf "silent" []
    let broken : Network 1 2 := single (.ofList [4, -3, 99]) "broken" []
    let halted := silent.operateAll [.act (.reset 0), .act (.run 0 10)]
    let faulted := broken.operateAll [.act (.call 0 10)]
    halted.askAll 0 [.call 5, .step, .run 0] =
      ([.call (.inl (.error ⟨"silent", .noOutput⟩)), .step .idle, .run (.inl (.ok #[]))],
        halted) ∧
    faulted.askAll 0 [.step, .call 3] =
      ([.step (.failed .faulted), .call (.inl (.error ⟨"broken", .faulted⟩))], faulted) := by
  intro silent broken halted faulted
  have hhalted := (rests_until_reset silent [.act (.reset 0), .act (.run 0 10)] 0
    (.inr (by decide +kernel)) (by decide +kernel)).2.1 (by decide +kernel)
  have hfaulted := (rests_until_reset broken [.act (.call 0 10)] 0
    (.inl ⟨"broken", .ofList [4, -3, 99], by decide +kernel⟩) (by decide +kernel)).2.2.1
    (by decide +kernel)
  exact ⟨(hhalted _).trans (Prod.ext (by decide +kernel) rfl),
    (hfaulted _).trans (Prod.ext (by decide +kernel) rfl)⟩

end Network

end Intcode
