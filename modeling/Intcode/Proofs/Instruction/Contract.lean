import Intcode.Effect

/-!
# Contracts of instructions

What holds of an instruction on every memory: memory never gets shorter, the values exchanged and
the halt flag are those that the operation stands for, and no instruction gives the fault that is
kept for machines which have stopped before.
-/

namespace Intcode

/-- Inputs take the value at the front, outputs send one, a halt halts, and nothing else does any
of this. -/
inductive Effect.Conforms (front : Option Int) : Effect → Prop
  | input (pc : Nat) (base v : Int) (h : front = some v) :
      Conforms front ⟨.input, pc, base, false, .took v⟩
  | output (pc : Nat) (base v : Int) : Conforms front ⟨.output, pc, base, false, .sent v⟩
  | halt (pc : Nat) (base : Int) : Conforms front ⟨.halt, pc, base, true, .none⟩
  | other (opcode : Opcode) (pc : Nat) (base : Int) (hin : opcode ≠ .input)
      (hout : opcode ≠ .output) (hhalt : opcode ≠ .halt) :
      Conforms front ⟨opcode, pc, base, false, .none⟩

namespace Access

variable {α β : Type} {P : α → Prop} {Q : β → Prop}

/-- On every memory, an access leaves at least as many cells, a result satisfies the condition, and
a fault is one that an instruction may give. -/
structure Meets (x : Access α) (P : α → Prop) : Prop where
  size_le : ∀ m : Memory, m.size ≤ (x.exec m).2.size
  result : ∀ (m : Memory) (a : α), (x.exec m).1 = .ok a → P a
  fault : ∀ m : Memory, (x.exec m).1 ≠ .error .faulted

theorem meets_lift {r : Except Fault α} (hok : ∀ a, r = .ok a → P a)
    (hfault : r ≠ .error .faulted) : (liftM r : Access α).Meets P where
  size_le m := Nat.le_refl m.size
  result m a h := hok a (by rwa [exec_lift] at h)
  fault m h := hfault (by rwa [exec_lift] at h)

theorem meets_pure {a : α} (h : P a) : (pure a : Access α).Meets P where
  size_le m := Nat.le_refl m.size
  result m b hb := by
    cases hb
    exact h
  fault m h := by cases h

theorem meets_throw {e : Fault} (h : e ≠ .faulted) : (throw e : Access α).Meets P where
  size_le m := Nat.le_refl m.size
  result m a ha := by cases ha
  fault m he := by
    cases he
    exact h rfl

/-- The second of two accesses decides what the result satisfies. -/
theorem Meets.bind {x : Access α} {f : α → Access β} (hx : x.Meets P)
    (hf : ∀ a, P a → (f a).Meets Q) : (x >>= f).Meets Q := by
  have split (m : Memory) :
      (∃ a, P a ∧ exec (x >>= f) m = (f a).exec (x.exec m).2) ∨
      (∃ e, e ≠ .faulted ∧ exec (x >>= f) m = (.error e, (x.exec m).2)) := by
    have hresult := hx.result m
    have hfault := hx.fault m
    rw [exec_bind]
    generalize x.exec m = r at hresult hfault
    rcases r with ⟨e | a, m'⟩
    · exact .inr ⟨e, fun h => hfault (congrArg Except.error h), rfl⟩
    · exact .inl ⟨a, hresult a rfl, rfl⟩
  constructor
  · intro m
    rcases split m with ⟨a, ha, h⟩ | ⟨e, -, h⟩
    · rw [h]
      exact Nat.le_trans (hx.size_le m) ((hf a ha).size_le _)
    · rw [h]
      exact hx.size_le m
  · intro m b hb
    rcases split m with ⟨a, ha, h⟩ | ⟨e, -, h⟩
    · rw [h] at hb
      exact (hf a ha).result _ b hb
    · rw [h] at hb
      cases hb
  · intro m
    rcases split m with ⟨a, ha, h⟩ | ⟨e, he, h⟩
    · rw [h]
      exact (hf a ha).fault _
    · rw [h]
      intro heq
      cases heq
      exact he rfl

/-- What follows an access of which nothing is known but that it is one. -/
theorem Meets.andThen {x : Access α} {f : α → Access β} (hx : x.Meets fun _ => True)
    (hf : ∀ a, (f a).Meets Q) : (x >>= f).Meets Q :=
  hx.bind fun a _ => hf a

end Access

namespace Memory

theorem meets_ensure (a : Nat) : (ensure a).Meets fun _ => True where
  size_le m := by
    simp only [ensure, Access.exec_of]
    split
    · exact Nat.le_refl _
    · split
      · rw [size_extend]
        exact Nat.le_max_left _ _
      · exact Nat.le_refl _
  result _ _ _ := trivial
  fault m := by
    simp only [ensure, Access.exec_of]
    split
    · simp
    · split <;> simp

theorem meets_load (a : Nat) : (load a).Meets fun _ => True := by
  apply (meets_ensure a).andThen
  intro _
  exact ⟨fun m => Nat.le_refl _, fun _ _ _ => trivial, fun m h => by cases h⟩

theorem meets_store (a : Nat) (v : Int) : (store a v).Meets fun _ => True := by
  apply (meets_ensure a).andThen
  intro _
  refine ⟨?_, fun _ _ _ => trivial, fun m h => by cases h⟩
  intro m
  exact Nat.le_of_eq (m.size_write a v).symm

theorem toAddress_ne_faulted (v : Int) : toAddress v ≠ .error .faulted := by
  unfold toAddress
  split
  · simp
  · split <;> simp

theorem meets_resolve (mode : Mode) (location : Nat) (base : Int) :
    (resolve mode location base).Meets fun _ => True := by
  have hreturn (a : Nat) : (do ensure a; return a : Access Nat).Meets fun _ => True :=
    (meets_ensure a).andThen fun _ => Access.meets_pure trivial
  have haddress (v : Int) : (liftM (toAddress v) : Access Nat).Meets fun _ => True :=
    Access.meets_lift (fun _ _ => trivial) (toAddress_ne_faulted v)
  cases mode with
  | immediate => exact hreturn location
  | position => exact (meets_load location).andThen fun v => (haddress v).andThen hreturn
  | relative =>
      exact (meets_load location).andThen fun v => (haddress (v + base)).andThen hreturn

end Memory

namespace Instruction

variable (pc : Nat) (base : Int)

theorem meets_displace (k : Nat) : (liftM (displace pc k) : Access Nat).Meets fun _ => True := by
  refine Access.meets_lift (fun _ _ => trivial) ?_
  unfold displace
  split <;> simp

theorem meets_jumpTarget (v : Int) : (liftM (jumpTarget v) : Access Nat).Meets fun _ => True := by
  refine Access.meets_lift (fun _ _ => trivial) ?_
  unfold jumpTarget
  split <;> simp

theorem meets_decode (cell : Int) :
    (liftM (decode cell) : Access Instruction).Meets fun _ => True := by
  refine Access.meets_lift (fun _ _ => trivial) ?_
  cases cell with
  | ofNat v =>
      intro h
      cases hd : ofDigits (v % 100000) <;> rw [decode, hd] at h <;> cases h
  | negSucc v => simp [decode]

theorem meets_locate (k : Nat) (mode : Mode) : (locate pc base k mode).Meets fun _ => True :=
  (meets_displace pc k).andThen fun a => Memory.meets_resolve mode a base

theorem meets_operand (k : Nat) (mode : Mode) : (operand pc base k mode).Meets fun _ => True :=
  (meets_locate pc base k mode).andThen Memory.meets_load

theorem meets_target (opcode : Opcode) (k : Nat) (mode : Mode) :
    (target pc base opcode k mode).Meets fun _ => True := by
  unfold target
  split
  · exact Access.meets_throw (by simp)
  · exact meets_locate pc base k mode

variable (front : Option Int)

theorem meets_compute (opcode : Opcode) (f : Int → Int → Int) (left right dst : Mode)
    (hin : opcode ≠ .input) (hout : opcode ≠ .output) (hhalt : opcode ≠ .halt) :
    (compute pc base opcode f left right dst).Meets (Effect.Conforms front) := by
  apply (meets_target pc base opcode 3 dst).andThen
  intro cell
  apply (meets_displace pc 4).andThen
  intro next
  apply (meets_operand pc base 1 left).andThen
  intro a
  apply (meets_operand pc base 2 right).andThen
  intro b
  apply (Memory.meets_store cell (f a b)).andThen
  intro _
  exact Access.meets_pure (.other opcode next base hin hout hhalt)

theorem meets_jump (opcode : Opcode) (taken : Int → Bool) (condition dst : Mode)
    (hin : opcode ≠ .input) (hout : opcode ≠ .output) (hhalt : opcode ≠ .halt) :
    (jump pc base opcode taken condition dst).Meets (Effect.Conforms front) := by
  have hreturn (next : Nat) : (pure ⟨opcode, next, base, false, .none⟩ : Access Effect).Meets
      (Effect.Conforms front) :=
    Access.meets_pure (.other opcode next base hin hout hhalt)
  apply (meets_displace pc 3).andThen
  intro next
  apply (meets_operand pc base 1 condition).andThen
  intro a
  apply (meets_operand pc base 2 dst).andThen
  intro b
  cases taken a with
  | true => exact (meets_jumpTarget b).andThen hreturn
  | false => exact hreturn next

theorem meets_takeInput (dst : Mode) :
    (takeInput pc base front dst).Meets (Effect.Conforms front) := by
  apply (meets_target pc base .input 1 dst).andThen
  intro cell
  apply (meets_displace pc 2).andThen
  intro next
  cases front with
  | none => exact Access.meets_throw (by simp)
  | some v =>
      apply (Memory.meets_store cell v).andThen
      intro _
      exact Access.meets_pure (.input next base v rfl)

theorem meets_perform (i : Instruction) :
    (perform pc base front i).Meets (Effect.Conforms front) := by
  cases i with
  | add a b c => exact meets_compute pc base front .add _ a b c nofun nofun nofun
  | mul a b c => exact meets_compute pc base front .mul _ a b c nofun nofun nofun
  | lessThan a b c => exact meets_compute pc base front .lessThan _ a b c nofun nofun nofun
  | equals a b c => exact meets_compute pc base front .equals _ a b c nofun nofun nofun
  | input a => exact meets_takeInput pc base front a
  | jumpIfTrue a b => exact meets_jump pc base front .jumpIfTrue _ a b nofun nofun nofun
  | jumpIfFalse a b => exact meets_jump pc base front .jumpIfFalse _ a b nofun nofun nofun
  | output a =>
      apply (meets_displace pc 2).andThen
      intro next
      apply (meets_operand pc base 1 a).andThen
      intro v
      exact Access.meets_pure (.output next base v)
  | adjustBase a =>
      apply (meets_displace pc 2).andThen
      intro next
      apply (meets_operand pc base 1 a).andThen
      intro v
      exact Access.meets_pure (.other .adjustBase next (base + v) nofun nofun nofun)
  | halt =>
      apply (meets_displace pc 1).andThen
      intro next
      exact Access.meets_pure (.halt next base)

/-- Fetching, decoding and carrying out an instruction keeps to what its operation stands for. -/
theorem meets_execute : (execute pc base front).Meets (Effect.Conforms front) := by
  apply (Memory.meets_load pc).andThen
  intro cell
  apply (meets_decode cell).andThen
  intro i
  exact meets_perform pc base front i

end Instruction

end Intcode
