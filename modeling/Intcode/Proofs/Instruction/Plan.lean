import Intcode.Effect
import Intcode.Proofs.Memory.Survey

/-!
# Plans of instructions

Every check of an instruction comes before its only write, so an instruction can be worked out
from the values in memory before anything is changed. The plan is what is found out in this way:
the effect, and the cell to be written with its new value. Carrying out an instruction is the same
as growing memory to the reach of the survey and then writing that one cell.
-/

namespace Intcode

/-- The effect of an instruction and the write that belongs to it. -/
structure Plan where
  effect : Effect
  /-- The cell to be written and its new value. -/
  write : Option (Nat × Int)

/-- Write a cell if there is one to be written. -/
def Memory.put (m : Memory) : Option (Nat × Int) → Memory
  | some (a, v) => m.write a v
  | none => m

@[simp] theorem Memory.size_put (m : Memory) (w : Option (Nat × Int)) :
    (m.put w).size = m.size := by
  cases w with
  | none => rfl
  | some w => exact m.size_write w.1 w.2

/-- Grow memory as a survey asks, and write what was planned unless a fault was found. -/
def Survey.commit (s : Survey Plan) (m : Memory) : Except Fault Effect × Memory :=
  match s.result with
  | .ok p => (.ok p.effect, (m.extend s.reach).put p.write)
  | .error e => (.error e, m.extend s.reach)

namespace Plan

section
variable (view : Nat → Int) (pc : Nat) (base : Int)

/-- The operand of the `k`-th parameter. -/
def operand (k : Nat) (mode : Mode) : Survey Int := do
  return view (← Survey.address view mode (pc + k) base)

/-- The cell that receives the result, named by the `k`-th parameter. -/
def target (opcode : Opcode) (k : Nat) (mode : Mode) : Survey Nat :=
  if mode = .immediate then .known (.error (.immediateTarget opcode pc))
  else .address view mode (pc + k) base

/-- Write a value to a cell and go on to the next instruction. -/
def store (opcode : Opcode) (next cell : Nat) (v : Int) (transfer : Transfer) : Survey Plan :=
  ⟨.ok ⟨⟨opcode, next, base, false, transfer⟩, some (cell, v)⟩, cell + 1⟩

/-- Store a function of two operands. -/
def compute (opcode : Opcode) (f : Int → Int → Int) (left right dst : Mode) : Survey Plan := do
  let cell ← target view pc base opcode 3 dst
  let next ← Survey.known (displace pc 4)
  let a ← operand view pc base 1 left
  let b ← operand view pc base 2 right
  store base opcode next cell (f a b) .none

/-- Go to the second operand if the first one satisfies the condition. -/
def jump (opcode : Opcode) (taken : Int → Bool) (condition dst : Mode) : Survey Plan := do
  let next ← Survey.known (displace pc 3)
  let a ← operand view pc base 1 condition
  let b ← operand view pc base 2 dst
  let next ← Survey.known (if taken a then jumpTarget b else .ok next)
  return ⟨⟨opcode, next, base, false, .none⟩, none⟩

/-- Store the value at the front of the input channel. -/
def takeInput (front : Option Int) (dst : Mode) : Survey Plan := do
  let cell ← target view pc base .input 1 dst
  let next ← Survey.known (displace pc 2)
  match front with
  | some v => store base .input next cell v (.took v)
  | none => Survey.known (.error .inputDisconnected)

/-- The plan of an instruction at `pc`, with `front` the value waiting on the input channel. -/
def ofInstruction (front : Option Int) : Instruction → Survey Plan
  | .add a b c => compute view pc base .add (· + ·) a b c
  | .mul a b c => compute view pc base .mul (· * ·) a b c
  | .lessThan a b c => compute view pc base .lessThan (fun x y => if x < y then 1 else 0) a b c
  | .equals a b c => compute view pc base .equals (fun x y => if x = y then 1 else 0) a b c
  | .input a => takeInput view pc base front a
  | .output a => do
    let next ← Survey.known (displace pc 2)
    let v ← operand view pc base 1 a
    return ⟨⟨.output, next, base, false, .sent v⟩, none⟩
  | .jumpIfTrue a b => jump view pc base .jumpIfTrue (fun x => x ≠ 0) a b
  | .jumpIfFalse a b => jump view pc base .jumpIfFalse (fun x => x = 0) a b
  | .adjustBase a => do
    let next ← Survey.known (displace pc 2)
    let v ← operand view pc base 1 a
    return ⟨⟨.adjustBase, next, base + v, false, .none⟩, none⟩
  | .halt => do
    let next ← Survey.known (displace pc 1)
    return ⟨⟨.halt, next, base, true, .none⟩, none⟩

/-- Fetch and decode the instruction at `pc` and plan it. -/
def fetch (front : Option Int) : Survey Plan := do
  let v ← Survey.cell pc (view pc)
  let instruction ← Survey.known (Instruction.decode v)
  ofInstruction view pc base front instruction

end

section
variable {view : Nat → Int} {pc : Nat} {base : Int}

theorem displace_eq_ok {a k n : Nat} :
    displace a k = .ok n ↔ a + k < addressSpace ∧ a + k = n := by
  unfold displace
  by_cases h : a + k < addressSpace <;> simp [h]

theorem jumpTarget_eq_ok {v : Int} {n : Nat} :
    jumpTarget v = .ok n ↔ n < addressSpace ∧ v = n := by
  unfold jumpTarget
  split
  · simp only [Except.ok.injEq]
    omega
  · simp only [reduceCtorEq, false_iff]
    omega

theorem operand_eq_ok {k : Nat} {mode : Mode} {v : Int} :
    (operand view pc base k mode).result = .ok v ↔
      ∃ a, (Survey.address view mode (pc + k) base).result = .ok a ∧ view a = v := by
  simp [operand, Survey.bind_result_eq_ok]

theorem target_eq_ok {opcode : Opcode} {k : Nat} {mode : Mode} {cell : Nat} :
    (target view pc base opcode k mode).result = .ok cell ↔
      mode ≠ .immediate ∧ (Survey.address view mode (pc + k) base).result = .ok cell := by
  unfold target
  by_cases h : mode = .immediate <;> simp [h, Survey.known]

theorem compute_eq_ok {opcode : Opcode} {f : Int → Int → Int} {left right dst : Mode}
    {p : Plan} :
    (compute view pc base opcode f left right dst).result = .ok p ↔
      ∃ cell a b, (target view pc base opcode 3 dst).result = .ok cell ∧
        pc + 4 < addressSpace ∧
        (operand view pc base 1 left).result = .ok a ∧
        (operand view pc base 2 right).result = .ok b ∧
        p = ⟨⟨opcode, pc + 4, base, false, .none⟩, some (cell, f a b)⟩ := by
  simp only [compute, Survey.bind_result_eq_ok, Survey.known, displace_eq_ok, store,
    Except.ok.injEq]
  constructor
  · rintro ⟨cell, hcell, _, ⟨hpc, rfl⟩, a, ha, b, hb, rfl⟩
    exact ⟨cell, a, b, hcell, hpc, ha, hb, rfl⟩
  · rintro ⟨cell, a, b, hcell, hpc, ha, hb, rfl⟩
    exact ⟨cell, hcell, _, ⟨hpc, rfl⟩, a, ha, b, hb, rfl⟩

theorem jump_eq_ok {opcode : Opcode} {taken : Int → Bool} {condition dst : Mode} {p : Plan} :
    (jump view pc base opcode taken condition dst).result = .ok p ↔
      ∃ a b next, pc + 3 < addressSpace ∧
        (operand view pc base 1 condition).result = .ok a ∧
        (operand view pc base 2 dst).result = .ok b ∧
        (if taken a then next < addressSpace ∧ b = next else next = pc + 3) ∧
        p = ⟨⟨opcode, next, base, false, .none⟩, none⟩ := by
  have hnext (a b : Int) (n : Nat) :
      (if taken a then jumpTarget b else .ok (pc + 3)) = .ok n ↔
        if taken a then n < addressSpace ∧ b = n else n = pc + 3 := by
    split
    · exact jumpTarget_eq_ok
    · simp [eq_comm]
  simp only [jump, Survey.bind_result_eq_ok, Survey.known, displace_eq_ok, Survey.pure_eq,
    Except.ok.injEq]
  constructor
  · rintro ⟨_, ⟨hpc, rfl⟩, a, ha, b, hb, next, hn, rfl⟩
    exact ⟨a, b, next, hpc, ha, hb, (hnext a b next).mp hn, rfl⟩
  · rintro ⟨a, b, next, hpc, ha, hb, hn, rfl⟩
    exact ⟨_, ⟨hpc, rfl⟩, a, ha, b, hb, next, (hnext a b next).mpr hn, rfl⟩

theorem takeInput_eq_ok {front : Option Int} {dst : Mode} {p : Plan} :
    (takeInput view pc base front dst).result = .ok p ↔
      ∃ cell v, (target view pc base .input 1 dst).result = .ok cell ∧
        pc + 2 < addressSpace ∧ front = some v ∧
        p = ⟨⟨.input, pc + 2, base, false, .took v⟩, some (cell, v)⟩ := by
  simp only [takeInput, Survey.bind_result_eq_ok, Survey.known, displace_eq_ok]
  constructor
  · rintro ⟨cell, hcell, _, ⟨hpc, rfl⟩, hp⟩
    cases front with
    | none => cases hp
    | some v =>
        cases hp
        exact ⟨cell, v, hcell, hpc, rfl, rfl⟩
  · rintro ⟨cell, v, hcell, hpc, rfl, rfl⟩
    exact ⟨cell, hcell, _, ⟨hpc, rfl⟩, rfl⟩

/-- Outputs and shifts of the base read one operand and write nothing. -/
theorem single_eq_ok {f : Nat → Int → Plan} {mode : Mode} {p : Plan} :
    (do
      let next ← Survey.known (displace pc 2)
      let v ← operand view pc base 1 mode
      return f next v : Survey Plan).result = .ok p ↔
      ∃ v, pc + 2 < addressSpace ∧ (operand view pc base 1 mode).result = .ok v ∧
        p = f (pc + 2) v := by
  simp only [Survey.bind_result_eq_ok, Survey.known, displace_eq_ok, Survey.pure_eq,
    Except.ok.injEq]
  constructor
  · rintro ⟨_, ⟨hpc, rfl⟩, v, hv, rfl⟩
    exact ⟨v, hpc, hv, rfl⟩
  · rintro ⟨v, hpc, hv, rfl⟩
    exact ⟨_, ⟨hpc, rfl⟩, v, hv, rfl⟩

theorem halt_eq_ok {front : Option Int} {p : Plan} :
    (ofInstruction view pc base front .halt).result = .ok p ↔
      pc + 1 < addressSpace ∧ p = ⟨⟨.halt, pc + 1, base, true, .none⟩, none⟩ := by
  simp only [ofInstruction, Survey.bind_result_eq_ok, Survey.known, displace_eq_ok,
    Survey.pure_eq, Except.ok.injEq]
  constructor
  · rintro ⟨_, ⟨hpc, rfl⟩, rfl⟩
    exact ⟨hpc, rfl⟩
  · rintro ⟨hpc, rfl⟩
    exact ⟨_, ⟨hpc, rfl⟩, rfl⟩

/-- A plan that was found is the plan of the instruction that the cell at `pc` holds. -/
theorem fetch_eq_ok {front : Option Int} {p : Plan} :
    (fetch view pc base front).result = .ok p ↔
      pc + 1 < addressSpace ∧ ∃ i, Instruction.decode (view pc) = .ok i ∧
        (ofInstruction view pc base front i).result = .ok p := by
  simp only [fetch, Survey.bind_result_eq_ok, Survey.known, Survey.cell]
  by_cases h : pc + 1 < addressSpace <;> simp [h]

/-- A planned input takes the value that waits at the front, and nothing else takes one. -/
theorem front_of_took {front : Option Int} {p : Plan} {v : Int}
    (h : (fetch view pc base front).result = .ok p) (ht : p.effect.transfer = .took v) :
    front = some v := by
  obtain ⟨-, i, -, hi⟩ := fetch_eq_ok.mp h
  cases i with
  | input dst =>
      obtain ⟨cell, w, -, -, rfl, rfl⟩ := takeInput_eq_ok.mp hi
      cases ht
      rfl
  | add _ _ _ | mul _ _ _ | lessThan _ _ _ | equals _ _ _ =>
      obtain ⟨_, _, _, -, -, -, -, rfl⟩ := compute_eq_ok.mp hi
      cases ht
  | jumpIfTrue _ _ | jumpIfFalse _ _ =>
      obtain ⟨_, _, _, -, -, -, -, rfl⟩ := jump_eq_ok.mp hi
      cases ht
  | output _ | adjustBase _ =>
      obtain ⟨_, -, -, rfl⟩ := single_eq_ok.mp hi
      cases ht
  | halt =>
      obtain ⟨-, rfl⟩ := halt_eq_ok.mp hi
      cases ht

/-- An input that fails before it takes a value fails in the same way whatever is waiting. -/
theorem takeInput_of_error {dst : Mode} (front : Option Int)
    (h : ∀ cell, (target view pc base .input 1 dst).result = .ok cell →
      ¬ pc + 2 < addressSpace) :
    takeInput view pc base front dst = takeInput view pc base none dst := by
  unfold takeInput
  cases ht : (target view pc base .input 1 dst).result with
  | error e => rw [Survey.bind_of_error ht, Survey.bind_of_error ht]
  | ok cell =>
      have hd : displace pc 2 = .error (.addressOutOfRange (pc + 2)) := if_neg (h cell ht)
      rw [Survey.bind_of_ok ht, Survey.bind_of_ok ht, hd]
      rfl

/-- Only an input that gets as far as taking a value depends on what is waiting. -/
theorem fetch_eq_of_input (front : Option Int)
    (h : ∀ dst, Instruction.decode (view pc) = .ok (.input dst) →
      takeInput view pc base front dst = takeInput view pc base none dst) :
    fetch view pc base front = fetch view pc base none := by
  unfold fetch Survey.cell
  split
  · cases hi : Instruction.decode (view pc) with
    | error e => simp only [Survey.ok_bind, hi, Survey.known, Survey.error_bind]
    | ok i =>
        cases i with
        | input dst =>
            simp only [Survey.ok_bind, hi, Survey.known, ofInstruction, h dst hi]
        | _ => simp only [Survey.ok_bind, hi, Survey.known, ofInstruction]
  · rfl

end

end Plan

namespace Access

variable {α : Type} {view : Nat → Int}

/-- On every memory with the given values that fits the address space, carrying out an access is
committing its plan, and the cell to be written is within reach. -/
structure Carries (x : Access Effect) (view : Nat → Int) (s : Survey Plan) : Prop where
  reach_lt : s.reach < addressSpace
  write_lt : ∀ p a v, s.result = .ok p → p.write = some (a, v) → a < s.reach
  exec_eq : ∀ m : Memory, m.size < addressSpace → m.read = view → x.exec m = s.commit m

/-- What is found out first is found out for the whole plan. -/
theorem Surveys.carries {x : Access α} {s : Survey α} {f : α → Access Effect}
    {g : α → Survey Plan} (hx : x.Surveys view s)
    (hf : ∀ a, s.result = .ok a → (f a).Carries view (g a)) :
    (x >>= f).Carries view (s >>= g) := by
  cases h : s.result with
  | error e =>
      rw [Survey.bind_of_error h]
      refine ⟨hx.reach_lt, ?_, ?_⟩
      · intro p a v hp
        cases hp
      · intro m hm hv
        rw [exec_bind, hx.exec_eq m hm hv, h]
        rfl
  | ok a =>
      have ha := hf a h
      rw [Survey.bind_of_ok h]
      refine ⟨Nat.max_lt.mpr ⟨hx.reach_lt, ha.reach_lt⟩, ?_, ?_⟩
      · intro p b v hp hw
        exact Nat.lt_of_lt_of_le (ha.write_lt p b v hp hw) (Nat.le_max_right _ _)
      · intro m hm hv
        have hfit := Memory.size_extend_lt hm hx.reach_lt
        rw [exec_bind, hx.exec_eq m hm hv, h]
        simp only [ha.exec_eq _ hfit (by simpa using hv), Survey.commit, Memory.extend_extend]

theorem carries_throw (e : Fault) :
    (throw e : Access Effect).Carries view (.known (.error e)) where
  reach_lt := by simp [Survey.known, addressSpace]
  write_lt := by
    intro p a v hp
    cases hp
  exec_eq := by
    intro m _ _
    simp [Survey.commit, Survey.known]

theorem carries_return (e : Effect) : (pure e : Access Effect).Carries view (pure ⟨e, none⟩) where
  reach_lt := by simp [addressSpace]
  write_lt := by
    intro p a v hp hw
    cases hp
    cases hw
  exec_eq := by
    intro m _ _
    simp [Survey.commit, Memory.put]

/-- A write to a cell that can be reached does not fail. -/
theorem carries_store (base : Int) (opcode : Opcode) (next cell : Nat) (v : Int)
    (transfer : Transfer) (h : cell + 1 < addressSpace) :
    (do Memory.store cell v; return ⟨opcode, next, base, false, transfer⟩ :
      Access Effect).Carries view (Plan.store base opcode next cell v transfer) where
  reach_lt := h
  write_lt := by
    intro p a v hp hw
    cases hp
    cases hw
    exact Nat.lt_succ_self _
  exec_eq := by
    intro m hm _
    rw [exec_bind, Memory.exec_store cell v m hm, if_pos h]
    rfl

end Access

namespace Instruction

variable (view : Nat → Int) (pc : Nat) (base : Int)

/-- The address of a parameter's own cell is checked together with the cell. -/
theorem surveys_locate (k : Nat) (mode : Mode) :
    (locate pc base k mode).Surveys view (.address view mode (pc + k) base) := by
  by_cases h : pc + k < addressSpace
  · have hd : displace pc k = .ok (pc + k) := if_pos h
    simp only [locate, hd]
    exact Access.surveys_resolve view mode (pc + k) base
  · have hd : displace pc k = .error (.addressOutOfRange (pc + k)) := if_neg h
    have ha : Survey.address view mode (pc + k) base =
        .known (.error (.addressOutOfRange (pc + k))) := by
      rw [Survey.address, if_neg (by omega)]
      rfl
    rw [ha]
    simp only [locate, hd]
    exact Access.surveys_throw view _

/-- An operand lies within reach once its address is found. -/
theorem surveys_operand (k : Nat) (mode : Mode) :
    (operand pc base k mode).Surveys view (Plan.operand view pc base k mode) := by
  have h := (surveys_locate view pc base k mode).bind fun a _ => Access.surveys_load view a
  suffices hs : Plan.operand view pc base k mode =
      Survey.address view mode (pc + k) base >>= fun a => Survey.cell a (view a) by
    rw [hs]
    exact h
  -- Loading the operand needs no cell beyond the one that finding its address has reached.
  change (_ >>= fun a => pure (view a)) = _
  cases ha : (Survey.address view mode (pc + k) base).result with
  | error e => rw [Survey.bind_of_error ha, Survey.bind_of_error ha]
  | ok a =>
      have hlt := (Survey.address_eq_ok.mp ha).2.1
      have hreach := Survey.lt_reach_of_address ha
      rw [Survey.bind_of_ok ha, Survey.bind_of_ok ha]
      simp only [Survey.pure_eq, Survey.cell, if_pos hlt]
      congr 1
      omega

theorem surveys_target (opcode : Opcode) (k : Nat) (mode : Mode) :
    (target pc base opcode k mode).Surveys view (Plan.target view pc base opcode k mode) := by
  by_cases h : mode = .immediate
  · simp only [target, Plan.target, if_pos h]
    exact Access.surveys_throw view _
  · simp only [target, Plan.target, if_neg h]
    exact surveys_locate view pc base k mode

/-- The cell for a result can be reached once it is found. -/
theorem lt_of_target {opcode : Opcode} {k : Nat} {mode : Mode} {cell : Nat}
    (h : (Plan.target view pc base opcode k mode).result = .ok cell) :
    cell + 1 < addressSpace :=
  (Survey.address_eq_ok.mp (Plan.target_eq_ok.mp h).2).2.1

theorem carries_compute (opcode : Opcode) (f : Int → Int → Int) (left right dst : Mode) :
    (compute pc base opcode f left right dst).Carries view
      (Plan.compute view pc base opcode f left right dst) := by
  apply (surveys_target view pc base opcode 3 dst).carries
  intro cell hcell
  apply (Access.surveys_known view (displace pc 4)).carries
  intro next _
  apply (surveys_operand view pc base 1 left).carries
  intro a _
  apply (surveys_operand view pc base 2 right).carries
  intro b _
  exact Access.carries_store base opcode next cell (f a b) .none (lt_of_target view pc base hcell)

theorem carries_jump (opcode : Opcode) (taken : Int → Bool) (condition dst : Mode) :
    (jump pc base opcode taken condition dst).Carries view
      (Plan.jump view pc base opcode taken condition dst) := by
  apply (Access.surveys_known view (displace pc 3)).carries
  intro next _
  apply (surveys_operand view pc base 1 condition).carries
  intro a _
  apply (surveys_operand view pc base 2 dst).carries
  intro b _
  cases taken a with
  | true =>
      apply (Access.surveys_known view (jumpTarget b)).carries
      intro next _
      exact Access.carries_return _
  | false => exact Access.carries_return _

theorem carries_takeInput (front : Option Int) (dst : Mode) :
    (takeInput pc base front dst).Carries view (Plan.takeInput view pc base front dst) := by
  apply (surveys_target view pc base .input 1 dst).carries
  intro cell hcell
  apply (Access.surveys_known view (displace pc 2)).carries
  intro next _
  cases front with
  | some v =>
      exact Access.carries_store base .input next cell v (.took v) (lt_of_target view pc base hcell)
  | none => exact Access.carries_throw _

theorem carries_perform (front : Option Int) (i : Instruction) :
    (perform pc base front i).Carries view (Plan.ofInstruction view pc base front i) := by
  cases i with
  | add a b c => exact carries_compute view pc base .add _ a b c
  | mul a b c => exact carries_compute view pc base .mul _ a b c
  | lessThan a b c => exact carries_compute view pc base .lessThan _ a b c
  | equals a b c => exact carries_compute view pc base .equals _ a b c
  | input a => exact carries_takeInput view pc base front a
  | jumpIfTrue a b => exact carries_jump view pc base .jumpIfTrue _ a b
  | jumpIfFalse a b => exact carries_jump view pc base .jumpIfFalse _ a b
  | output a | adjustBase a =>
      apply (Access.surveys_known view (displace pc 2)).carries
      intro next _
      apply (surveys_operand view pc base 1 a).carries
      intro v _
      exact Access.carries_return _
  | halt =>
      apply (Access.surveys_known view (displace pc 1)).carries
      intro next _
      exact Access.carries_return _

/-- Fetching, decoding and carrying out an instruction is committing its plan. -/
theorem carries_execute (front : Option Int) :
    (execute pc base front).Carries view (Plan.fetch view pc base front) := by
  apply (Access.surveys_load view pc).carries
  intro v _
  apply (Access.surveys_known view (decode v)).carries
  intro i _
  exact carries_perform view pc base front i

theorem exec_execute (front : Option Int) (m : Memory) (h : m.size < addressSpace) :
    (execute pc base front).exec m = (Plan.fetch m.read pc base front).commit m :=
  (carries_execute m.read pc base front).exec_eq m h rfl

end Instruction

end Intcode
