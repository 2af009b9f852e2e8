import Intcode.Proofs.Machine.Precedence
import Intcode.Proofs.Network.Journal

/-!
# Growth of memory

An instruction that is executed touches its own cells and the cells that its parameters name,
whether it makes use of them or not. Memory grows just far enough to hold all of them, new cells
hold zero, and nothing but the cell for the result is changed. Over a run the size follows the
largest address that was touched so far, and memory never shrinks until the machine is put back at
its start.
-/

namespace Intcode

/-- The least size at which a memory has cells at all of these addresses, which is one more than the
largest of them. -/
def extent (addresses : List Nat) : Nat := addresses.foldr (fun a size => max (a + 1) size) 0

@[simp] theorem extent_nil : extent [] = 0 := rfl

@[simp] theorem extent_cons (a : Nat) (rest : List Nat) :
    extent (a :: rest) = max (a + 1) (extent rest) := rfl

theorem extent_append (first rest : List Nat) :
    extent (first ++ rest) = max (extent first) (extent rest) := by
  induction first with
  | nil => exact (Nat.zero_max _).symm
  | cons a first ih => rw [List.cons_append, extent_cons, extent_cons, ih, Nat.max_assoc]

theorem lt_extent {addresses : List Nat} {a : Nat} (h : a ∈ addresses) : a < extent addresses := by
  induction addresses with
  | nil => cases h
  | cons b rest ih =>
      rw [extent_cons]
      cases h with
      | head => exact Nat.le_max_left _ _
      | tail _ h => exact Nat.lt_of_lt_of_le (ih h) (Nat.le_max_right _ _)

namespace Survey

variable {α β : Type}

/-- A survey in two parts that go through reaches as far as both. -/
theorem reach_bind {s : Survey α} {a : α} (h : s.result = .ok a) (f : α → Survey β) :
    (s >>= f).reach = max s.reach (f a).reach := by
  rw [bind_of_ok h]

theorem reach_known_bind {r : Except Fault α} {a : α} (h : r = .ok a) (f : α → Survey β) :
    (known r >>= f).reach = (f a).reach := by
  rw [reach_bind h]
  exact Nat.zero_max _

end Survey

namespace State

section
variable (s : State)

/-- The cell of the `k`-th parameter and the cell that it names. -/
def parameterCells (k : Nat) (mode : Mode) : List Nat := [s.pc + k, (s.denoted k mode).toNat]

/-- The addresses that the next instruction touches: its own cell and those of its parameters. -/
def touched (i : Instruction) : List Nat :=
  s.pc :: (i.modes.zipIdx 1).flatMap fun (mode, k) => s.parameterCells k mode

/-- The cell that receives the result of the next instruction. -/
def target? (i : Instruction) : Option Nat :=
  if i.opcode.writesResult then
    i.modes.getLast?.map fun mode => (s.denoted i.opcode.arity mode).toNat
  else none

end

variable {s : State} {p : Plan}

/-- Finding an operand touches the cell of its parameter and the operand. -/
theorem reach_address {k a : Nat} {mode : Mode}
    (h : (Survey.address s.memory.read mode (s.pc + k) s.base).result = .ok a) :
    (s.denoted k mode).toNat = a ∧
      (Survey.address s.memory.read mode (s.pc + k) s.base).reach =
        extent (s.parameterCells k mode) := by
  obtain ⟨hl, ha, he⟩ := Survey.address_eq_ok.mp h
  have hdenoted : (s.denoted k mode).toNat = a := by
    rw [denoted, he, Int.toNat_natCast]
  refine ⟨hdenoted, ?_⟩
  simp only [Survey.address, if_pos hl, he, Int.toNat_natCast, if_pos ha, parameterCells, hdenoted,
    extent_cons, extent_nil, Nat.max_zero]
  rw [if_neg (by omega)]

theorem reach_operand {k : Nat} {mode : Mode} {v : Int}
    (h : (Plan.operand s.memory.read s.pc s.base k mode).result = .ok v) :
    (Plan.operand s.memory.read s.pc s.base k mode).reach = extent (s.parameterCells k mode) := by
  obtain ⟨a, ha, -⟩ := Plan.operand_eq_ok.mp h
  rw [Plan.operand, Survey.reach_bind ha, (reach_address ha).2]
  exact Nat.max_zero _

theorem reach_target {k cell : Nat} {mode : Mode} {opcode : Opcode}
    (h : (Plan.target s.memory.read s.pc s.base opcode k mode).result = .ok cell) :
    (s.denoted k mode).toNat = cell ∧
      (Plan.target s.memory.read s.pc s.base opcode k mode).reach =
        extent (s.parameterCells k mode) := by
  obtain ⟨hmode, ha⟩ := Plan.target_eq_ok.mp h
  rw [Plan.target, if_neg hmode]
  exact reach_address ha

/-- The cell that a parameter names is among its cells. -/
theorem succ_le_extent (s : State) (k : Nat) (mode : Mode) :
    (s.denoted k mode).toNat + 1 ≤ extent (s.parameterCells k mode) :=
  lt_extent (List.mem_cons_of_mem _ (List.mem_singleton_self _))

theorem reach_compute {opcode : Opcode} {f : Int → Int → Int} {left right dst : Mode}
    (h : (Plan.compute s.memory.read s.pc s.base opcode f left right dst).result = .ok p) :
    p.write.map Prod.fst = some (s.denoted 3 dst).toNat ∧
    (Plan.compute s.memory.read s.pc s.base opcode f left right dst).reach =
      max (extent (s.parameterCells 1 left)) (max (extent (s.parameterCells 2 right))
        (extent (s.parameterCells 3 dst))) := by
  obtain ⟨cell, a, b, hcell, hpc, ha, hb, rfl⟩ := Plan.compute_eq_ok.mp h
  have hnext : displace s.pc 4 = .ok (s.pc + 4) := if_pos hpc
  have hdst := s.succ_le_extent 3 dst
  obtain ⟨rfl, hreach⟩ := reach_target hcell
  refine ⟨rfl, ?_⟩
  rw [Plan.compute, Survey.reach_bind hcell, Survey.reach_known_bind hnext, Survey.reach_bind ha,
    Survey.reach_bind hb, hreach, reach_operand ha, reach_operand hb]
  change max _ (max _ (max _ ((s.denoted 3 dst).toNat + 1))) = _
  omega

theorem reach_takeInput {front : Option Int} {dst : Mode}
    (h : (Plan.takeInput s.memory.read s.pc s.base front dst).result = .ok p) :
    p.write.map Prod.fst = some (s.denoted 1 dst).toNat ∧
    (Plan.takeInput s.memory.read s.pc s.base front dst).reach =
      extent (s.parameterCells 1 dst) := by
  obtain ⟨cell, v, hcell, hpc, rfl, rfl⟩ := Plan.takeInput_eq_ok.mp h
  have hnext : displace s.pc 2 = .ok (s.pc + 2) := if_pos hpc
  have hdst := s.succ_le_extent 1 dst
  obtain ⟨rfl, hreach⟩ := reach_target hcell
  refine ⟨rfl, ?_⟩
  rw [Plan.takeInput, Survey.reach_bind hcell, Survey.reach_known_bind hnext, hreach]
  exact Nat.max_eq_left hdst

theorem reach_jump {opcode : Opcode} {taken : Int → Bool} {condition dst : Mode}
    (h : (Plan.jump s.memory.read s.pc s.base opcode taken condition dst).result = .ok p) :
    p.write.map Prod.fst = none ∧
    (Plan.jump s.memory.read s.pc s.base opcode taken condition dst).reach =
      max (extent (s.parameterCells 1 condition)) (extent (s.parameterCells 2 dst)) := by
  obtain ⟨a, b, next, hpc, ha, hb, -, rfl⟩ := Plan.jump_eq_ok.mp h
  have hnext : displace s.pc 3 = .ok (s.pc + 3) := if_pos hpc
  refine ⟨rfl, ?_⟩
  rw [Plan.jump, Survey.reach_known_bind hnext, Survey.reach_bind ha, Survey.reach_bind hb,
    reach_operand ha, reach_operand hb]
  -- Whether the jump is taken or not, no further cell is looked at.
  cases (if taken a then jumpTarget b else .ok (s.pc + 3)) <;>
    exact congrArg (max _) (Nat.max_zero _)

/-- Outputs and shifts of the base touch one operand. -/
theorem reach_one {f : Nat → Int → Plan} {mode : Mode} (hf : ∀ next v, (f next v).write = none)
    (h : (do
      let next ← Survey.known (displace s.pc 2)
      let v ← Plan.operand s.memory.read s.pc s.base 1 mode
      return f next v : Survey Plan).result = .ok p) :
    p.write.map Prod.fst = none ∧
    (do
      let next ← Survey.known (displace s.pc 2)
      let v ← Plan.operand s.memory.read s.pc s.base 1 mode
      return f next v : Survey Plan).reach = extent (s.parameterCells 1 mode) := by
  obtain ⟨v, hpc, hv, rfl⟩ := Plan.single_eq_ok.mp h
  have hnext : displace s.pc 2 = .ok (s.pc + 2) := if_pos hpc
  refine ⟨by rw [hf]; rfl, ?_⟩
  rw [Survey.reach_known_bind hnext, Survey.reach_bind hv, reach_operand hv]
  exact Nat.max_zero _

/-- A plan that was found reaches the cells that its instruction touches, and writes to the cell for
the result. -/
theorem reach_ofInstruction {front : Option Int} {i : Instruction}
    (h : (Plan.ofInstruction s.memory.read s.pc s.base front i).result = .ok p) :
    p.write.map Prod.fst = s.target? i ∧
    max (s.pc + 1) (Plan.ofInstruction s.memory.read s.pc s.base front i).reach =
      extent (s.touched i) := by
  rw [touched, extent_cons]
  cases i with
  | add a b c | mul a b c | lessThan a b c | equals a b c =>
      obtain ⟨hwrite, hreach⟩ := reach_compute h
      refine ⟨hwrite, congrArg (max _) (hreach.trans ?_)⟩
      simp [Instruction.modes, extent_append]
  | input a =>
      obtain ⟨hwrite, hreach⟩ := reach_takeInput h
      refine ⟨hwrite, congrArg (max _) (hreach.trans ?_)⟩
      simp [Instruction.modes]
  | output a | adjustBase a =>
      obtain ⟨hwrite, hreach⟩ := reach_one (fun _ _ => rfl) h
      refine ⟨hwrite, congrArg (max _) (hreach.trans ?_)⟩
      simp [Instruction.modes]
  | jumpIfTrue a b | jumpIfFalse a b =>
      obtain ⟨hwrite, hreach⟩ := reach_jump h
      refine ⟨hwrite, congrArg (max _) (hreach.trans ?_)⟩
      simp [Instruction.modes, extent_append]
  | halt =>
      obtain ⟨hpc, rfl⟩ := Plan.halt_eq_ok.mp h
      have hnext : displace s.pc 1 = .ok (s.pc + 1) := if_pos hpc
      refine ⟨rfl, congrArg (max _) ?_⟩
      rw [Plan.ofInstruction, hnext]
      rfl

/-- What becomes of memory when an instruction is executed: it grows to what is touched, and only
the cell for the result changes. -/
structure GrowsBy (s : State) (i : Instruction) (memory : Memory) : Prop where
  size_eq : memory.size = max s.memory.size (extent (s.touched i))
  old_cell : ∀ a, a < s.memory.size → s.target? i ≠ some a → memory.get? a = s.memory.get? a
  new_cell : ∀ a, s.memory.size ≤ a → a < memory.size → s.target? i ≠ some a →
    memory.get? a = some 0

end State

namespace Memory

theorem read_of_size_le {m : Memory} {a : Nat} (h : m.size ≤ a) : m.read a = 0 := by
  rw [read, get?_eq, if_neg (Nat.not_lt.mpr h), Option.getD_none]

/-- Only the cell that is written changes its value. -/
theorem read_put {m : Memory} {w : Option (Nat × Int)} {a : Nat} (h : w.map Prod.fst ≠ some a) :
    (m.put w).read a = m.read a := by
  cases w with
  | none => rfl
  | some w =>
      have ha : w.1 ≠ a := fun e => h (congrArg some e)
      simp [put, write, read, get?, ha]

end Memory

namespace Machine

variable {m : Machine} {front : Option Int}

/-- The plan of a machine reaches what the next instruction touches. -/
theorem reach_plan {p : Plan} (h : (m.plan front).result = .ok p) :
    ∃ i, Instruction.decode (m.state.memory.read m.state.pc) = .ok i ∧
      p.write.map Prod.fst = m.state.target? i ∧
      (m.plan front).reach = extent (m.state.touched i) := by
  obtain ⟨hpc, i, hi, hplan⟩ := Plan.fetch_eq_ok.mp h
  obtain ⟨hwrite, hreach⟩ := State.reach_ofInstruction hplan
  refine ⟨i, hi, hwrite, ?_⟩
  have hcell : (Survey.cell m.state.pc (m.state.memory.read m.state.pc)).result =
      .ok (m.state.memory.read m.state.pc) := by
    rw [Survey.cell, if_pos hpc]
  rw [plan, Plan.fetch, Survey.reach_bind hcell, Survey.reach_known_bind hi, ← hreach, Survey.cell,
    if_pos hpc]

theorem grows_follow {p : Plan} {i : Instruction}
    (hwrite : p.write.map Prod.fst = m.state.target? i) :
    m.state.GrowsBy i (m.follow p (extent (m.state.touched i))).state.memory where
  size_eq := by
    rw [follow, Memory.size_put, Memory.size_extend]
  old_cell := by
    intro a ha htarget
    rw [← hwrite] at htarget
    have hlt := Nat.lt_of_lt_of_le ha (le_max_left _ (extent (m.state.touched i)))
    rw [follow, Memory.get?_eq, Memory.get?_eq, Memory.read_put htarget, Memory.read_extend,
      Memory.size_put, Memory.size_extend, if_pos ha, if_pos hlt]
  new_cell := by
    intro a ha hlt htarget
    rw [← hwrite] at htarget
    rw [Memory.get?_eq, if_pos hlt, follow, Memory.read_put htarget, Memory.read_extend,
      Memory.read_of_size_le ha]

/-- The addresses that a machine touches in a step, if an instruction is executed. -/
def touches (front : Option Int) (m : Machine) : List Nat :=
  match (m.step front).1, Instruction.decode (m.state.memory.read m.state.pc) with
  | .executed _ _, .ok i => m.state.touched i
  | _, _ => []

/-- An executed instruction touches its cells, and memory grows by it. -/
theorem grows_of_executed {opcode : Opcode} {transfer : Transfer} (hfit : m.Fits)
    (h : (m.step front).1 = .executed opcode transfer) :
    ∃ i, Instruction.decode (m.state.memory.read m.state.pc) = .ok i ∧
      m.touches front = m.state.touched i ∧ m.state.GrowsBy i (m.step front).2.state.memory := by
  rcases step_cases front hfit with hr | ⟨-, e, -, hs⟩ | ⟨-, p, hp, hs⟩
  · rw [← isInstruction_step, h] at hr
    exact absurd rfl hr
  · rw [hs] at h
    cases h
  · obtain ⟨i, hi, hwrite, hreach⟩ := reach_plan hp
    refine ⟨i, hi, ?_, ?_⟩
    · rw [touches, h, hi]
    · rw [hs, hreach]
      exact grows_follow hwrite

theorem touches_of_opcode?_eq_none (h : (m.step front).1.opcode? = none) :
    m.touches front = [] := by
  unfold touches
  split
  · next ho _ =>
      rw [ho] at h
      cases h
  · rfl

theorem size_le_step (front : Option Int) (m : Machine) :
    m.state.memory.size ≤ (m.step front).2.state.memory.size := by
  rcases step_ending front m with hr | ⟨-, fault, memory, -, hsize, hs⟩ |
    ⟨-, e, memory, -, hsize, hs⟩
  · rw [(stays_of_not_ready hr).1]
  · rwa [hs]
  · rwa [hs]

/-- A step that does not fail makes memory just large enough for what it touches. -/
theorem size_step (hfit : m.Fits) (h : ∀ fault, (m.step front).1 ≠ .failed fault) :
    (m.step front).2.state.memory.size = max m.state.memory.size (extent (m.touches front)) := by
  cases ho : (m.step front).1 with
  | executed opcode transfer =>
      obtain ⟨i, -, htouches, hgrows⟩ := grows_of_executed hfit ho
      rw [htouches, hgrows.size_eq]
  | failed fault => exact absurd ho (h fault)
  | idle | waiting =>
      have hr : ¬ m.Ready front := by
        rw [← isInstruction_step, ho]
        decide
      rw [(stays_of_not_ready hr).1, touches_of_opcode?_eq_none (by rw [ho]; rfl)]
      exact (Nat.max_zero _).symm

/-- A step makes memory large enough for what it touches, and never smaller. -/
theorem extent_le_step (hfit : m.Fits) :
    max m.state.memory.size (extent (m.touches front)) ≤ (m.step front).2.state.memory.size := by
  by_cases h : ∀ fault, (m.step front).1 ≠ .failed fault
  · rw [size_step hfit h]
  · push Not at h
    obtain ⟨fault, ho⟩ := h
    rw [touches_of_opcode?_eq_none (by rw [ho]; rfl)]
    exact Nat.max_le.mpr ⟨size_le_step front m, Nat.zero_le _⟩

end Machine

/-- No step of the `i`-th machine failed. -/
def Journal.Unfailing {n k : Nat} (events : Journal n k) (i : Fin n) : Prop :=
  ∀ entry ∈ events.stepsOf i, ∀ fault, entry.outcome ≠ .failed fault

theorem Journal.unfailing_cons {n k : Nat} {e : Event n k} {rest : Journal n k} {i : Fin n} :
    Unfailing (e :: rest) i ↔ Unfailing [e] i ∧ Unfailing rest i := by
  simp only [Unfailing, stepsOf_cons, stepsOf_nil, List.append_nil, List.mem_append, or_imp,
    forall_and]

namespace Network

variable {n k : Nat} {net : Network n k} {i : Fin n}

/-- The addresses that the `i`-th machine touches in a move. -/
def touches (net : Network n k) (i : Fin n) : Move n k → List Nat
  | .step j => if j = i then (net.machines.get i).touches (net.front? i) else []
  | .channel .. | .start .. | .overwrite .. => []

/-- The addresses that the `i`-th machine touches in some moves. -/
def touchedBy (i : Fin n) (net : Network n k) : List (Move n k) → List Nat
  | [] => []
  | m :: rest => net.touches i m ++ touchedBy i (net.move m) rest

/-- The size of the memory of the `i`-th machine. -/
def memorySize (net : Network n k) (i : Fin n) : Nat := (net.machines.get i).state.memory.size

/-- The `i`-th machine touched some addresses on the way from one network to another, and its memory
is at least as large as that takes, and no larger unless a step failed. -/
structure Grown (i : Fin n) (net net' : Network n k) (events : Journal n k)
    (touched : List Nat) : Prop where
  fits : (net'.machines.get i).Fits
  extent_le : max (net.memorySize i) (extent touched) ≤ net'.memorySize i
  size_eq : events.Unfailing i → net'.memorySize i = max (net.memorySize i) (extent touched)

theorem Grown.refl (hfit : (net.machines.get i).Fits) : Grown i net net [] [] where
  fits := hfit
  extent_le := Nat.max_le.mpr ⟨Nat.le_refl _, Nat.zero_le _⟩
  size_eq := by
    intro _
    exact (Nat.max_zero _).symm

theorem Grown.cons {net' net'' : Network n k} {e : Event n k} {rest : Journal n k}
    {touched more : List Nat} (h : Grown i net net' [e] touched)
    (hrest : Grown i net' net'' rest more) : Grown i net net'' (e :: rest) (touched ++ more) where
  fits := hrest.fits
  extent_le := by
    have hfirst := h.extent_le
    have hlater := hrest.extent_le
    rw [extent_append]
    omega
  size_eq := by
    intro hevents
    obtain ⟨he, hr⟩ := Journal.unfailing_cons.mp hevents
    rw [hrest.size_eq hr, h.size_eq he, extent_append, Nat.max_assoc]

/-- In a move that does not start the machine or change it from outside, memory grows to what is
touched. -/
theorem grown_move {m : Move n k} (hfit : (net.machines.get i).Fits)
    (hstart : net.event m ≠ .start i) (hover : net.event m ≠ .overwrite i) :
    Grown i net (net.move m) [net.event m] (net.touches i m) := by
  rcases move_cases hstart with rfl | ⟨f, rfl⟩ | ⟨hsame, hentry⟩
  · have htouches : net.touches i (.step i) = (net.machines.get i).touches (net.front? i) :=
      if_pos rfl
    refine ⟨fits_step_self hfit, ?_, ?_⟩
    · rw [memorySize, memorySize, move, step_machine_self, htouches]
      exact Machine.extent_le_step hfit
    · intro hevents
      rw [memorySize, memorySize, move, step_machine_self, htouches]
      apply Machine.size_step hfit
      intro fault
      exact hevents (.of (net.stepped i)) (by simp [Journal.stepsOf, stepOf?_event_step]) fault
  · exact absurd rfl hover
  · have htouches : net.touches i m = [] := by
      cases m with
      | step j =>
          refine if_neg fun hij => ?_
          rw [hij, stepOf?_event_step] at hentry
          cases hentry
      | channel | start | overwrite => rfl
    have hsize : (net.move m).memorySize i = net.memorySize i := by
      rw [memorySize, hsame, memorySize]
    rw [htouches]
    exact ⟨by rwa [hsame], by rw [hsize]; simp, fun _ => by rw [hsize]; simp⟩

/-- Memory grows to what is touched for as long as the machine is not put back at its start. -/
theorem grown_moveAll {moves : List (Move n k)} (hfit : (net.machines.get i).Fits)
    (hstart : .start i ∉ net.record moves) (hover : .overwrite i ∉ net.record moves) :
    Grown i net (net.moveAll moves) (net.record moves) (net.touchedBy i moves) := by
  induction moves generalizing net with
  | nil => exact .refl hfit
  | cons m rest ih =>
      simp only [record, List.mem_cons, not_or] at hstart hover
      have hmove := grown_move hfit (Ne.symm hstart.1) (Ne.symm hover.1)
      exact hmove.cons (ih hmove.fits hstart.2 hover.2)

/-- Memory grows exactly as far as it is touched. An instruction that is executed makes it just
large enough for the cells of the instruction and those that its parameters name, and apart from the
cell for the result all old cells keep their values and all new cells hold zero. An address that was
touched stays within memory until the machine is put back at its start, and as long as no step fails
the size is that of the beginning, or of the image if the machine is new, or one more than the
largest address that was touched. -/
theorem grows_as_touched (net : Network n k) (i : Fin n)
    (hfit : (net.machines.get i).state.memory.size < addressSpace) :
    let s := (net.machines.get i).state
    (∀ opcode transfer, (net.step i).1 = .executed opcode transfer →
      ∃ instruction, Instruction.decode (s.memory.read s.pc) = .ok instruction ∧
        s.GrowsBy instruction ((net.step i).2.machines.get i).state.memory) ∧
    ∀ ops, .start i ∉ net.journal ops → .overwrite i ∉ net.journal ops →
      let touched := net.touchedBy i (net.expand ops)
      let size := (net.operateAll ops).memorySize i
      (∀ a ∈ touched, a < size) ∧
      ((net.journal ops).Unfailing i →
        size = max (net.memorySize i) (extent touched) ∧
        ∀ name program, net.machines.get i = .boot name program →
          size = max program.image.size (extent touched)) := by
  intro s
  refine ⟨?_, ?_⟩
  · intro opcode transfer ho
    rw [step_outcome] at ho
    obtain ⟨instruction, hi, -, hgrows⟩ := Machine.grows_of_executed hfit ho
    rw [step_machine_self]
    exact ⟨instruction, hi, hgrows⟩
  · intro ops hstart hover touched size
    have hgrown := grown_moveAll hfit hstart hover
    rw [← operateAll_eq_moveAll] at hgrown
    refine ⟨?_, ?_⟩
    · intro a ha
      exact Nat.lt_of_lt_of_le (lt_extent ha) (Nat.le_trans (le_max_right _ _) hgrown.extent_le)
    · intro hevents
      have hsize := hgrown.size_eq hevents
      refine ⟨hsize, ?_⟩
      intro name program hboot
      have himage : net.memorySize i = program.image.size := by
        rw [memorySize, hboot]
        rfl
      rw [← himage]
      exact hsize

/-- A jump that is not taken still touches the cell that holds its target. -/
theorem grows_as_touched_untaken :
    let net : Network 1 2 := single (.ofList [105, 0, 100, 99]) "untaken" []
    let ops : List (Operation 1 2) := [.act (.run 0 5)]
    net.touchedBy 0 (net.expand ops) = [0, 1, 1, 2, 100, 3] ∧ net.memorySize 0 = 4 ∧
    (net.operateAll ops).memorySize 0 = 101 := by
  intro net ops
  have htouched : net.touchedBy 0 (net.expand ops) = [0, 1, 1, 2, 100, 3] := by
    decide +kernel
  have hevents : (net.journal ops).Unfailing 0 := by
    unfold Journal.Unfailing
    have hsteps : (net.journal ops).stepsOf 0 =
        [⟨.executed .jumpIfTrue .none, 3, 0, 101⟩, ⟨.executed .halt .none, 4, 0, 101⟩] := by
      decide +kernel
    rw [hsteps]
    simp
  have hgrows := (grows_as_touched net 0 (by decide +kernel)).2 ops (by decide +kernel)
    (by decide +kernel)
  refine ⟨htouched, by decide +kernel, ?_⟩
  rw [(hgrows.2 hevents).1, htouched]
  decide +kernel

end Network

end Intcode
