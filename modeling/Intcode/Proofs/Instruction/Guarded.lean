import Intcode.Effect
import Intcode.Proofs.Instruction.Digits
import Intcode.Proofs.Memory.Tape

/-!
# Instructions within bounds

The same instructions on a machine of limited means. Its addresses are machine numbers, an
instruction has room for three modes, and cells and modes are looked up by an index that must have
an entry. An operation that relies on a bound is not defined outside of it: it violates the bound,
and what it is part of has no result. Only a sum that is checked gives a fault instead. Main
statement: on every memory whose size is a machine number, an instruction violates no bound, does
what it does without them, and leaves such a memory.
-/

namespace Intcode

/-- An operation outside of the bounds that it relies on. -/
inductive Violation
  /-- There is no cell at this index. -/
  | cell (index size : Nat)
  /-- There is no mode for this parameter, counted from one. -/
  | mode (parameter count : Nat)
  /-- There is no room for a further mode. -/
  | room (count : Nat)
  /-- The sum is no machine number. -/
  | sum (a b : Nat)

/-- An access that relies on bounds. -/
abbrev Guarded (α : Type) := ExceptT Fault (StateT Memory (Except Violation)) α

namespace Guarded

variable {α β : Type}

/-- Run an access on a memory. -/
def exec (x : Guarded α) (m : Memory) : Except Violation (Except Fault α × Memory) := (x.run).run m

/-- An access given by its result and the memory that it leaves. -/
def of (f : Memory → Except Violation (Except Fault α × Memory)) : Guarded α := ExceptT.mk f

def violate (v : Violation) : Guarded α := of fun _ => .error v

/-- The sum of two machine numbers, if it is one. -/
def sum? (a b : Nat) : Option Nat := if a + b < addressSpace then some (a + b) else none

/-- A sum that must be a machine number. -/
def sum (a b : Nat) : Guarded Nat :=
  match sum? a b with
  | some n => pure n
  | none => violate (.sum a b)

/-- A sum that is checked. -/
def displace (a k : Nat) : Guarded Nat :=
  match sum? a k with
  | some n => pure n
  | none => throw (.addressOutOfRange (a + k))

def cell (a : Nat) : Guarded Int := of fun m =>
  match m.get? a with
  | some v => .ok (.ok v, m)
  | none => .error (.cell a m.size)

def setCell (a : Nat) (v : Int) : Guarded Unit := of fun m =>
  if a < m.size then .ok (.ok (), m.write a v) else .error (.cell a m.size)

/-- Grow memory until an address is valid. -/
def ensure (a : Nat) : Guarded Unit := of fun m =>
  if m.size ≤ a then
    match sum? a 1 with
    | some n => .ok (.ok (), m.extend n)
    | none => .ok (.error (.addressOutOfRange a), m)
  else .ok (.ok (), m)

def load (a : Nat) : Guarded Int := do
  ensure a
  cell a

def store (a : Nat) (v : Int) : Guarded Unit := do
  ensure a
  setCell a v

def resolve (mode : Mode) (location : Nat) (base : Int) : Guarded Nat := do
  let a ← match mode with
    | .immediate => pure location
    | .position => do Memory.toAddress (← load location)
    | .relative => do Memory.toAddress ((← load location) + base)
  ensure a
  return a

/-- The room for modes in an instruction. -/
def maxModes : Nat := 3

def push (modes : List Mode) (mode : Mode) : Guarded (List Mode) :=
  if modes.length < maxModes then pure (modes ++ [mode]) else violate (.room modes.length)

/-- Add the modes that the low digits of a number stand for to those that are there. -/
def collect (modes : List Mode) : Nat → Nat → Guarded (List Mode)
  | 0, _ => pure modes
  | n + 1, digits => do
    let mode ← (Mode.ofCode (digits % 10)).mapError Fault.unknownCode
    collect (← push modes mode) n (digits / 10)

def decode : Int → Guarded (Opcode × List Mode)
  | .ofNat v => do
    let opcode ← (Opcode.ofCode (v % 100000 % 100)).mapError Fault.unknownCode
    let modes ← collect [] opcode.arity (v % 100000 / 100)
    return (opcode, modes)
  | .negSucc v => throw (.instructionOutOfRange (.negSucc v))

/-- The mode of the `k`-th parameter, counted from one. -/
def modeOf (modes : List Mode) (k : Nat) : Guarded Mode :=
  if 1 ≤ k then
    match modes[k - 1]? with
    | some mode => pure mode
    | none => violate (.mode k modes.length)
  else violate (.mode k modes.length)

section

variable (pc : Nat) (base : Int) (opcode : Opcode) (modes : List Mode)

def locate (k : Nat) : Guarded Nat := do
  let mode ← modeOf modes k
  resolve mode (← displace pc k) base

def operand (k : Nat) : Guarded Int := do
  load (← locate pc base modes k)

/-- The cell for the result, which the last parameter names. -/
def target : Guarded Nat :=
  if opcode.writesResult then
    if modes.getLast?.getD .position = .immediate then throw (.immediateTarget opcode pc)
    else locate pc base modes modes.length
  else pure 0

variable (dst next : Nat)

def compute (f : Int → Int → Int) : Guarded Effect := do
  let a ← operand pc base modes 1
  let b ← operand pc base modes 2
  store dst (f a b)
  return ⟨opcode, next, base, false, .none⟩

def jump : Guarded Effect := do
  let a ← operand pc base modes 1
  let b ← operand pc base modes 2
  if (a == 0) == (opcode == .jumpIfFalse) then
    return ⟨opcode, ← jumpTarget b, base, false, .none⟩
  else
    return ⟨opcode, next, base, false, .none⟩

/-- Carry out an operation, with the cell for its result and the address behind it. -/
def carryOut (front : Option Int) : Guarded Effect :=
  match opcode with
  | .add => compute pc base opcode modes dst next (· + ·)
  | .mul => compute pc base opcode modes dst next (· * ·)
  | .lessThan => compute pc base opcode modes dst next fun x y => if x < y then 1 else 0
  | .equals => compute pc base opcode modes dst next fun x y => if x = y then 1 else 0
  | .input =>
    match front with
    | some v => do
      store dst v
      return ⟨opcode, next, base, false, .took v⟩
    | none => throw .inputDisconnected
  | .output => do
    let v ← operand pc base modes 1
    return ⟨opcode, next, base, false, .sent v⟩
  | .jumpIfTrue | .jumpIfFalse => jump pc base opcode modes next
  | .adjustBase => do
    let v ← operand pc base modes 1
    return ⟨opcode, next, base + v, false, .none⟩
  | .halt => return ⟨opcode, next, base, true, .none⟩

/-- Find the cell for the result and the address behind the instruction, and carry it out. -/
def perform (front : Option Int) : Guarded Effect := do
  let dst ← target pc base opcode modes
  let width ← sum modes.length 1
  let next ← displace pc width
  carryOut pc base opcode modes dst next front

end

/-- Fetch, decode and carry out the instruction at `pc`. -/
def execute (pc : Nat) (base : Int) (front : Option Int) : Guarded Effect := do
  let (opcode, modes) ← decode (← load pc)
  perform pc base opcode modes front

@[simp] theorem exec_of (f : Memory → Except Violation (Except Fault α × Memory)) (m : Memory) :
    (of f).exec m = f m := rfl

theorem exec_bind (x : Guarded α) (f : α → Guarded β) (m : Memory) :
    exec (x >>= f) m =
      match x.exec m with
      | .ok (.ok a, m') => (f a).exec m'
      | .ok (.error e, m') => .ok (.error e, m')
      | .error v => .error v := by
  change StateT.run ((x >>= f).run) m = _
  simp only [ExceptT.run_bind, StateT.run_bind, exec]
  rcases StateT.run x.run m with _ | ⟨_ | _, _⟩ <;> rfl

/-- On every memory that fits the address space, an access keeps to its bounds and does what the
other access does, and memory keeps fitting the address space. -/
structure Follows (x : Guarded α) (y : Access α) : Prop where
  exec_eq : ∀ m : Memory, m.size < addressSpace → x.exec m = .ok (y.exec m)
  fits : ∀ m : Memory, m.size < addressSpace → (y.exec m).2.size < addressSpace

theorem follows_pure (a : α) : (pure a : Guarded α).Follows (pure a) :=
  ⟨fun _ _ => rfl, fun _ h => h⟩

theorem follows_throw (e : Fault) : (throw e : Guarded α).Follows (throw e) :=
  ⟨fun _ _ => rfl, fun _ h => h⟩

theorem follows_lift (r : Except Fault α) : (liftM r : Guarded α).Follows (liftM r) :=
  ⟨fun _ _ => rfl, fun _ h => h⟩

theorem Follows.bind {x : Guarded α} {y : Access α} {f : α → Guarded β} {g : α → Access β}
    (hx : x.Follows y) (hf : ∀ a, (f a).Follows (g a)) : (x >>= f).Follows (y >>= g) := by
  constructor
  · intro m hm
    have hfits := hx.fits m hm
    rw [exec_bind, Access.exec_bind, hx.exec_eq m hm]
    generalize y.exec m = r at hfits
    rcases r with ⟨e | a, m'⟩
    · rfl
    · exact (hf a).exec_eq m' hfits
  · intro m hm
    have hfits := hx.fits m hm
    rw [Access.exec_bind]
    generalize y.exec m = r at hfits
    rcases r with ⟨e | a, m'⟩
    · exact hfits
    · exact (hf a).fits m' hfits

theorem sum?_of_lt {a b : Nat} (h : a + b < addressSpace) : sum? a b = some (a + b) := if_pos h

theorem sum?_of_le {a b : Nat} (h : addressSpace ≤ a + b) : sum? a b = none :=
  if_neg (Nat.not_lt.mpr h)

/-- A checked sum gives a fault exactly where there is no address. -/
theorem follows_displace (a k : Nat) :
    (displace a k).Follows (liftM (Intcode.displace a k)) := by
  unfold displace Intcode.displace
  rcases Nat.lt_or_ge (a + k) addressSpace with h | h
  · rw [sum?_of_lt h, if_pos h]
    exact follows_lift _
  · rw [sum?_of_le h, if_neg (Nat.not_lt.mpr h)]
    exact follows_lift _

theorem follows_ensure (a : Nat) : (ensure a).Follows (Memory.ensure a) := by
  constructor
  · intro m hm
    rw [Memory.exec_ensure a m hm, ensure, exec_of]
    rcases Nat.lt_or_ge a m.size with ha | ha
    · rw [if_neg (Nat.not_le.mpr ha), if_pos (Nat.lt_of_le_of_lt ha hm),
        Memory.extend_of_le m (a + 1) ha]
    · rw [if_pos ha]
      rcases Nat.lt_or_ge (a + 1) addressSpace with h | h
      · rw [sum?_of_lt h, if_pos h]
      · rw [sum?_of_le h, if_neg (Nat.not_lt.mpr h)]
  · intro m hm
    rw [Memory.exec_ensure a m hm]
    split
    · next h => exact Memory.size_extend_lt hm h
    · exact hm

/-- What needs the cell at an address may rely on it once the address is ensured. -/
theorem follows_ensured {a : Nat} {x : Guarded α} {y : Access α}
    (h : ∀ m : Memory, a < m.size → x.exec m = .ok (y.exec m) ∧ (y.exec m).2.size = m.size) :
    (ensure a >>= fun _ => x).Follows (Memory.ensure a >>= fun _ => y) := by
  have hvalid (m : Memory) : a < (m.extend (a + 1)).size := by
    rw [Memory.size_extend]
    omega
  constructor
  · intro m hm
    rw [exec_bind, Access.exec_bind, (follows_ensure a).exec_eq m hm, Memory.exec_ensure a m hm]
    by_cases hs : a + 1 < addressSpace
    · rw [if_pos hs]
      exact (h _ (hvalid m)).1
    · rw [if_neg hs]
  · intro m hm
    rw [Access.exec_bind, Memory.exec_ensure a m hm]
    by_cases hs : a + 1 < addressSpace
    · rw [if_pos hs]
      simp only [(h _ (hvalid m)).2]
      exact Memory.size_extend_lt hm hs
    · rw [if_neg hs]
      exact hm

theorem follows_load (a : Nat) : (load a).Follows (Memory.load a) := by
  apply follows_ensured
  intro m ha
  simp [cell, Memory.get?_eq, ha]

theorem follows_store (a : Nat) (v : Int) : (store a v).Follows (Memory.store a v) := by
  apply follows_ensured
  intro m ha
  simp [setCell, ha]

theorem follows_resolve (mode : Mode) (location : Nat) (base : Int) :
    (resolve mode location base).Follows (Memory.resolve mode location base) := by
  have hreturn (a : Nat) : (do ensure a; return a : Guarded Nat).Follows
      (do Memory.ensure a; return a) :=
    (follows_ensure a).bind fun _ => follows_pure a
  cases mode with
  | immediate => exact hreturn location
  | position =>
      apply (follows_load location).bind
      intro v
      exact (follows_lift (Memory.toAddress v)).bind hreturn
  | relative =>
      apply (follows_load location).bind
      intro v
      exact (follows_lift (Memory.toAddress (v + base))).bind hreturn

theorem push_of_lt {modes : List Mode} (mode : Mode) (h : modes.length < maxModes) :
    push modes mode = pure (modes ++ [mode]) :=
  if_pos h

/-- Modes are collected as they are read, as long as there is room for all of them. -/
theorem collect_eq {modes : List Mode} {n : Nat} (h : modes.length + n ≤ maxModes)
    (digits : Nat) :
    collect modes n digits =
      liftM (((Instruction.readModes n digits).map (modes ++ ·)).mapError Fault.unknownCode) := by
  induction n generalizing modes digits with
  | zero =>
      rw [collect, Instruction.readModes]
      change _ = pure (modes ++ [])
      rw [List.append_nil]
  | succ n ih =>
      rw [collect, Instruction.readModes]
      cases Mode.ofCode (digits % 10) with
      | error e => rfl
      | ok mode =>
          change (push modes mode >>= fun modes => collect modes n (digits / 10)) = _
          rw [push_of_lt mode (by omega)]
          change collect (modes ++ [mode]) n (digits / 10) = _
          rw [ih (by rw [List.length_append, List.length_singleton]; omega)]
          cases Instruction.readModes n (digits / 10) with
          | error e => rfl
          | ok rest =>
              change (pure (modes ++ [mode] ++ rest) : Guarded (List Mode)) =
                pure (modes ++ mode :: rest)
              rw [List.append_assoc]
              rfl

theorem arity_le (opcode : Opcode) : opcode.arity ≤ maxModes := by
  cases opcode <;> decide

/-- An instruction is decoded into its operation and its modes. -/
theorem decode_eq (v : Int) :
    decode v = liftM ((Instruction.decode v).map fun i => (i.opcode, i.modes)) := by
  cases v with
  | negSucc v => rfl
  | ofNat v =>
      have hparts := Instruction.ofDigits_eq (v % 100000)
      have hmap : (Instruction.decode (.ofNat v)).map (fun i => (i.opcode, i.modes)) =
          ((Instruction.ofDigits (v % 100000)).map fun i => (i.opcode, i.modes)).mapError
            Fault.unknownCode := by
        rw [Instruction.decode]
        cases Instruction.ofDigits (v % 100000) <;> rfl
      rw [hmap, hparts, decode]
      cases Opcode.ofCode (v % 100000 % 100) with
      | error e => rfl
      | ok opcode =>
          change (collect [] opcode.arity (v % 100000 / 100) >>= fun modes =>
            pure (opcode, modes)) = _
          rw [collect_eq (by simpa using arity_le opcode), except_ok_bind]
          cases Instruction.readModes opcode.arity (v % 100000 / 100) <;> rfl

section

variable (pc : Nat) (base : Int)

theorem follows_locate {modes : List Mode} {k : Nat} {mode : Mode}
    (hmode : modes[k]? = some mode) :
    (locate pc base modes (k + 1)).Follows (Instruction.locate pc base (k + 1) mode) := by
  have hof : modeOf modes (k + 1) = pure mode := by
    rw [modeOf, if_pos (Nat.le_add_left 1 k), Nat.add_sub_cancel, hmode]
  rw [locate, hof]
  exact (follows_displace pc (k + 1)).bind fun a => follows_resolve mode a base

theorem follows_operand {modes : List Mode} {k : Nat} {mode : Mode}
    (hmode : modes[k]? = some mode) :
    (operand pc base modes (k + 1)).Follows (Instruction.operand pc base (k + 1) mode) :=
  (follows_locate pc base hmode).bind follows_load

theorem follows_target {opcode : Opcode} {modes : List Mode} {k : Nat} {mode : Mode}
    (hop : opcode.writesResult = true) (hlength : modes.length = k + 1)
    (hlast : modes.getLast? = some mode) :
    (target pc base opcode modes).Follows (Instruction.target pc base opcode (k + 1) mode) := by
  have hmode : modes[k]? = some mode := by
    rw [List.getLast?_eq_getElem?, hlength] at hlast
    exact hlast
  rw [target, if_pos hop, hlast, Option.getD_some, hlength, Instruction.target]
  by_cases h : mode = .immediate
  · rw [if_pos h, if_pos h]
    exact follows_throw _
  · rw [if_neg h, if_neg h]
    exact follows_locate pc base hmode

theorem perform_eq (i : Instruction) (front : Option Int) :
    perform pc base i.opcode i.modes front = (do
      let dst ← target pc base i.opcode i.modes
      let next ← displace pc i.width
      carryOut pc base i.opcode i.modes dst next front) := by
  have hwidth : sum i.modes.length 1 = pure i.width := by
    have harity := arity_le i.opcode
    have hlt : i.modes.length + 1 < addressSpace := by
      rw [Instruction.length_modes]
      exact Nat.lt_of_le_of_lt (Nat.succ_le_succ harity) (by decide)
    rw [sum, sum?_of_lt hlt, Instruction.length_modes]
    rfl
  rw [perform, hwidth]
  rfl

theorem follows_compute {opcode : Opcode} (f : Int → Int → Int) (left right dst : Mode)
    (hop : opcode.writesResult = true) :
    (do
      let cell ← target pc base opcode [left, right, dst]
      let next ← displace pc 4
      compute pc base opcode [left, right, dst] cell next f : Guarded Effect).Follows
      (Instruction.compute pc base opcode f left right dst) := by
  apply (follows_target pc base hop rfl rfl).bind
  intro cell
  apply (follows_displace pc 4).bind
  intro next
  apply (follows_operand pc base rfl).bind
  intro a
  apply (follows_operand pc base rfl).bind
  intro b
  apply (follows_store cell (f a b)).bind
  intro _
  exact follows_pure _

theorem follows_jump {opcode : Opcode} (taken : Int → Bool) (condition dst : Mode)
    (htaken : ∀ a, ((a == 0) == (opcode == .jumpIfFalse)) = taken a) :
    (do
      let next ← displace pc 3
      jump pc base opcode [condition, dst] next : Guarded Effect).Follows
      (Instruction.jump pc base opcode taken condition dst) := by
  apply (follows_displace pc 3).bind
  intro next
  apply (follows_operand pc base rfl).bind
  intro a
  apply (follows_operand pc base rfl).bind
  intro b
  rw [htaken]
  cases taken a with
  | true => exact (follows_lift (jumpTarget b)).bind fun _ => follows_pure _
  | false => exact follows_pure _

theorem follows_takeInput (front : Option Int) (dst : Mode) :
    (do
      let cell ← target pc base .input [dst]
      let next ← displace pc 2
      carryOut pc base .input [dst] cell next front : Guarded Effect).Follows
      (Instruction.takeInput pc base front dst) := by
  apply (follows_target pc base rfl rfl rfl).bind
  intro cell
  apply (follows_displace pc 2).bind
  intro next
  cases front with
  | none => exact follows_throw _
  | some v => exact (follows_store cell v).bind fun _ => follows_pure _

/-- Outputs and shifts of the base read one operand. -/
theorem follows_single (effect : Nat → Int → Effect) (mode : Mode) :
    (do
      let next ← displace pc 2
      let v ← operand pc base [mode] 1
      return effect next v : Guarded Effect).Follows
      (do
        let next ← Intcode.displace pc 2
        let v ← Instruction.operand pc base 1 mode
        return effect next v) := by
  apply (follows_displace pc 2).bind
  intro next
  apply (follows_operand pc base rfl).bind
  intro v
  exact follows_pure _

theorem follows_perform (front : Option Int) (i : Instruction) :
    (perform pc base i.opcode i.modes front).Follows (Instruction.perform pc base front i) := by
  rw [perform_eq]
  cases i with
  | add a b c => exact follows_compute pc base _ a b c rfl
  | mul a b c => exact follows_compute pc base _ a b c rfl
  | lessThan a b c => exact follows_compute pc base _ a b c rfl
  | equals a b c => exact follows_compute pc base _ a b c rfl
  | input a => exact follows_takeInput pc base front a
  | jumpIfTrue a b =>
      apply follows_jump pc base _ a b
      intro x
      by_cases h : x = 0 <;> simp [h, Instruction.opcode]
  | jumpIfFalse a b =>
      apply follows_jump pc base _ a b
      intro x
      by_cases h : x = 0 <;> simp [h, Instruction.opcode]
  | output a => exact follows_single pc base (fun next v => ⟨.output, next, base, false, .sent v⟩) a
  | adjustBase a =>
      exact follows_single pc base (fun next v => ⟨.adjustBase, next, base + v, false, .none⟩) a
  | halt => exact (follows_displace pc 1).bind fun _ => follows_pure _

theorem follows_execute (front : Option Int) :
    (execute pc base front).Follows (Instruction.execute pc base front) := by
  apply (follows_load pc).bind
  intro v
  rw [decode_eq]
  cases Instruction.decode v with
  | error e => exact follows_throw e
  | ok i => exact follows_perform pc base front i

end

end Guarded

end Intcode
