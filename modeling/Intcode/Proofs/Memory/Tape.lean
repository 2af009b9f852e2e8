import Intcode.Proofs.Memory.Survey
import Mathlib.Logic.Function.Basic

/-!
# Memory as a tape

A tape has a value at every address, which is zero unless it was written, and a length. Nothing on
it is ever moved or filled in: to reach an address only makes the tape longer. Every sequence of
operations on a memory has the results that it has on a tape, and leaves the same values and the
same length.
-/

namespace Intcode

/-- The largest machine number, which is the only address that no memory can hold. -/
def lastAddress : Nat := addressSpace - 1

/-- A value at every address, and a length. -/
structure Tape where
  view : Nat → Int
  size : Nat

namespace Tape

/-- The tape of an image, with zeros behind it. -/
def ofImage (image : Array Int) : Tape := ⟨fun a => image.getD a 0, image.size⟩

/-- Make the tape long enough for an address. -/
def reach (t : Tape) (a : Nat) : Tape := { t with size := max t.size (a + 1) }

/-- Give an address a new value. -/
def assign (t : Tape) (a : Nat) (v : Int) : Tape := { t with view := Function.update t.view a v }

/-- Perform a memory operation on a tape. -/
def perform (t : Tape) : Memory.Op → Memory.Reply × Tape
  | .measure => (.size t.size, t)
  | .get a => (.value (if a < t.size then some (t.view a) else none), t)
  | .load a =>
    if a = lastAddress then (.failed (.addressOutOfRange a), t)
    else (.value (t.view a), t.reach a)
  | .store a v =>
    if a = lastAddress then (.failed (.addressOutOfRange a), t)
    else (.done, (t.reach a).assign a v)
  | .resolve mode location base =>
    if location = lastAddress then (.failed (.addressOutOfRange location), t)
    else
      let a := mode.denote t.view location base
      if a < 0 then (.failed (.negativeAddress a), t.reach location)
      else if lastAddress ≤ a then (.failed (.addressOutOfRange a.toNat), t.reach location)
      else (.address a.toNat, (t.reach location).reach a.toNat)
  | .reset image => (.done, ofImage image)
  | .dump =>
    let cell (a : Nat) : Option (Nat × Int) := if t.view a = 0 then none else some (a, t.view a)
    (.cells t.size ((List.range t.size).filterMap cell), t)

/-- Perform one operation after the other. -/
def performAll (t : Tape) : List Memory.Op → List Memory.Reply × Tape
  | [] => ([], t)
  | op :: rest =>
    let (reply, t) := t.perform op
    let (replies, t) := t.performAll rest
    (reply :: replies, t)

/-- Only a reset makes a tape shorter. -/
theorem size_le_perform (t : Tape) {op : Memory.Op} (h : ∀ image, op ≠ .reset image) :
    t.size ≤ (t.perform op).2.size := by
  cases op with
  | measure | get a | dump => exact Nat.le_refl _
  | load a | store a v =>
      simp only [perform]
      split
      · exact Nat.le_refl _
      · exact Nat.le_max_left _ _
  | resolve mode location base =>
      have hlocation : t.size ≤ (t.reach location).size := Nat.le_max_left _ _
      simp only [perform]
      split
      · exact Nat.le_refl _
      · split
        · exact hlocation
        · split
          · exact hlocation
          · exact Nat.le_trans hlocation (Nat.le_max_left _ _)
  | reset image => exact absurd rfl (h image)

/-- Only a reset and a store to an address change the value there. -/
theorem view_perform (t : Tape) {op : Memory.Op} {a : Nat} (hreset : ∀ image, op ≠ .reset image)
    (hstore : ∀ v, op ≠ .store a v) : (t.perform op).2.view a = t.view a := by
  cases op with
  | measure | get b | dump => rfl
  | load b => simp only [perform]; split <;> rfl
  | store b v =>
      have hb : a ≠ b := by
        rintro rfl
        exact hstore v rfl
      simp only [perform]
      split
      · rfl
      · exact Function.update_of_ne hb v t.view
  | resolve mode location base =>
      simp only [perform]
      split
      · rfl
      · split
        · rfl
        · split <;> rfl
  | reset image => exact absurd rfl (hreset image)

/-- From reset to reset, a tape never gets shorter and keeps the values that are not stored to. -/
theorem performAll_grows (t : Tape) {ops : List Memory.Op} (h : ∀ image, .reset image ∉ ops) :
    t.size ≤ (t.performAll ops).2.size ∧
      ∀ a, (∀ v, .store a v ∉ ops) → (t.performAll ops).2.view a = t.view a := by
  induction ops generalizing t with
  | nil => exact ⟨Nat.le_refl _, fun _ _ => rfl⟩
  | cons op rest ih =>
      simp only [List.mem_cons, not_or] at h ⊢
      obtain ⟨hsize, hview⟩ := ih (t.perform op).2 fun image => (h image).2
      have hop (image : Array Int) : op ≠ .reset image := fun e => (h image).1 e.symm
      constructor
      · exact Nat.le_trans (t.size_le_perform hop) hsize
      · intro a ha
        refine (hview a fun v => (ha v).2).trans ?_
        exact t.view_perform hop fun v e => (ha v).1 e.symm

end Tape

namespace Memory

/-- The addresses that an operation is given and the size of its image are machine numbers. -/
def Op.Representable : Op → Prop
  | .measure | .dump => True
  | .get a | .load a | .store a _ | .resolve _ a _ => a < addressSpace
  | .reset image => image.size < addressSpace

instance (op : Op) : Decidable op.Representable :=
  match op with
  | .measure | .dump => inferInstanceAs (Decidable True)
  | .get _ | .load _ | .store _ _ | .resolve _ _ _ | .reset _ =>
    inferInstanceAs (Decidable (_ < addressSpace))

/-- Perform one operation after the other. -/
def performAll (m : Memory) : List Op → List Reply × Memory
  | [] => ([], m)
  | op :: rest =>
    let (reply, m) := m.perform op
    let (replies, m) := m.performAll rest
    (reply :: replies, m)

/-- The tape that a memory stands for. -/
def tape (m : Memory) : Tape := ⟨m.read, m.size⟩

/-- A write within bounds changes the value at one address. -/
theorem read_write_eq {m : Memory} {a : Nat} (v : Int) (h : a < m.size) :
    (m.write a v).read = Function.update m.read a v := by
  funext b
  rw [read_write m a b v h, Function.update_apply]
  simp only [eq_comm]

theorem tape_ofImage (image : Array Int) : (ofImage image).tape = Tape.ofImage image := by
  simp only [tape, Tape.ofImage, Array.getD_eq_getD_getElem?]
  rfl

theorem tape_extend (m : Memory) (a : Nat) : (m.extend (a + 1)).tape = m.tape.reach a := by
  simp only [tape, Tape.reach, read_extend_eq, size_extend]

/-- To store is to reach the address and then to assign. -/
theorem tape_store (m : Memory) (a : Nat) (v : Int) :
    ((m.extend (a + 1)).write a v).tape = (m.tape.reach a).assign a v := by
  have ha : a < (m.extend (a + 1)).size := by
    rw [size_extend]
    omega
  simp only [tape, Tape.reach, Tape.assign, read_write_eq v ha, read_extend_eq, size_write,
    size_extend]

theorem get?_eq (m : Memory) (a : Nat) :
    m.get? a = if a < m.size then some (m.read a) else none := by
  by_cases h : a < m.size
  · rw [if_pos h]
    simp only [size] at h
    simp [get?, read, h]
  · rw [if_neg h]
    exact Array.getElem?_eq_none (Nat.le_of_not_lt h)

/-- The cells that differ from zero are found by looking at each address in order. -/
theorem nonzero_eq (m : Memory) :
    m.nonzero = (List.range m.size).filterMap fun a =>
      if m.read a = 0 then none else some (a, m.read a) := by
  have hcells : m.cells.toList.zipIdx = (List.range m.size).map fun a => (m.read a, a) := by
    apply List.ext_getElem
    · simp [size]
    · intro a h _
      have ha : a < m.cells.size := by simpa using h
      simp [read, get?, ha]
  rw [nonzero, hcells, List.filterMap_map]
  rfl

variable {m : Memory}

/-- An answer with the result of an access that was surveyed. -/
theorem answer_of_surveys {α : Type} {x : Access α} {s : Survey α} (hfit : m.size < addressSpace)
    (h : x.Surveys m.read s) (reply : α → Reply) :
    m.answer x reply = match s.result with
      | .ok a => (reply a, m.extend s.reach)
      | .error e => (.failed e, m.extend s.reach) := by
  rw [answer, h.exec_eq m hfit rfl]
  cases s.result <;> rfl

/-- A machine number is an address that can be reached unless it is the last one. -/
theorem succ_lt_addressSpace_iff {a : Nat} (h : a < addressSpace) :
    a + 1 < addressSpace ↔ a ≠ lastAddress := by
  unfold lastAddress
  omega

/-- Each operation has the result on a memory that it has on the tape, and leaves the same. -/
theorem perform_tape (hfit : m.size < addressSpace) {op : Op} (hop : op.Representable) :
    ((m.perform op).1, (m.perform op).2.tape) = m.tape.perform op := by
  cases op with
  | measure => rfl
  | get a => exact congrArg (fun v => (Reply.value v, m.tape)) (get?_eq m a)
  | load a =>
      simp only [perform, Tape.perform, answer_of_surveys hfit (Access.surveys_load m.read a),
        Survey.cell, succ_lt_addressSpace_iff hop]
      by_cases ha : a = lastAddress
      · simp [ha]
      · simp only [if_pos ha, if_neg ha, tape_extend]
        rfl
  | store a v =>
      simp only [perform, Tape.perform, answer, exec_store a v m hfit,
        succ_lt_addressSpace_iff hop]
      by_cases ha : a = lastAddress
      · simp [ha]
      · simp only [if_pos ha, if_neg ha, tape_store]
  | resolve mode location base =>
      have hview : m.tape.view = m.read := rfl
      simp only [perform, Tape.perform, hview,
        answer_of_surveys hfit (Access.surveys_resolve m.read mode location base),
        Survey.address, succ_lt_addressSpace_iff hop]
      generalize mode.denote m.read location base = a
      by_cases hl : location = lastAddress
      · simp [hl]
      · simp only [if_pos hl, if_neg hl]
        by_cases hneg : a < 0
        · simp only [if_pos hneg, tape_extend]
        · have hlast : a.toNat + 1 < addressSpace ↔ ¬ (lastAddress : Int) ≤ a := by
            unfold lastAddress
            omega
          simp only [if_neg hneg, hlast]
          by_cases ha : (lastAddress : Int) ≤ a
          · simp only [ha, not_true, if_true, if_false, tape_extend]
          · simp only [ha, not_false_eq_true, if_true, if_false, ← extend_extend, tape_extend]
  | reset image => exact congrArg (Prod.mk _) (tape_ofImage image)
  | dump => exact congrArg (fun cells => (Reply.cells m.size cells, m.tape)) (nonzero_eq m)

/-- No operation makes a memory larger than a machine number can say. -/
theorem perform_fits (hfit : m.size < addressSpace) {op : Op} (hop : op.Representable) :
    (m.perform op).2.size < addressSpace := by
  have hsurveys {α : Type} {x : Access α} {s : Survey α} (h : x.Surveys m.read s)
      (reply : α → Reply) : (m.answer x reply).2.size < addressSpace := by
    have hextend := size_extend_lt hfit h.reach_lt
    rw [answer_of_surveys hfit h]
    cases s.result <;> exact hextend
  cases op with
  | measure | get a | dump => exact hfit
  | load a => exact hsurveys (Access.surveys_load m.read a) _
  | store a v =>
      simp only [perform, answer, exec_store a v m hfit]
      by_cases ha : a + 1 < addressSpace
      · simpa only [if_pos ha, size_write] using size_extend_lt hfit ha
      · simpa only [if_neg ha] using hfit
  | resolve mode location base => exact hsurveys (Access.surveys_resolve m.read ..) _
  | reset image => exact hop

theorem performAll_tape (hfit : m.size < addressSpace) {ops : List Op}
    (hops : ∀ op ∈ ops, op.Representable) :
    ((m.performAll ops).1, (m.performAll ops).2.tape) = m.tape.performAll ops ∧
      (m.performAll ops).2.size < addressSpace := by
  induction ops generalizing m with
  | nil => exact ⟨rfl, hfit⟩
  | cons op rest ih =>
      have hop := hops op List.mem_cons_self
      obtain ⟨hrest, hsize⟩ := ih (perform_fits hfit hop)
        fun op' h => hops op' (List.mem_cons_of_mem op h)
      refine ⟨?_, hsize⟩
      simp only [performAll, Tape.performAll, ← perform_tape hfit hop, ← hrest]

/-- From any image, every sequence of operations is answered as on the tape of that image, and
leaves the values and the length of that tape, which is never longer than a machine number can say.
The length never decreases except by a reset, and a value changes by a reset or a store alone. -/
theorem performAll_eq_tape (image : Array Int) (ops : List Op)
    (himage : image.size < addressSpace) (hops : ∀ op ∈ ops, op.Representable) :
    let final := (ofImage image).performAll ops
    let reference := (Tape.ofImage image).performAll ops
    final.1 = reference.1 ∧ final.2.tape = reference.2 ∧ final.2.size < addressSpace ∧
    ∀ more : List Op, (∀ op ∈ more, op.Representable) → (∀ image', .reset image' ∉ more) →
      final.2.size ≤ (final.2.performAll more).2.size ∧
      ∀ a, (∀ v, .store a v ∉ more) → (final.2.performAll more).2.read a = final.2.read a := by
  intro final reference
  obtain ⟨hfinal, hsize⟩ := performAll_tape (m := ofImage image) himage hops
  rw [tape_ofImage] at hfinal
  refine ⟨congrArg Prod.fst hfinal, congrArg Prod.snd hfinal, hsize, ?_⟩
  intro more hmore hreset
  have hafter := congrArg Prod.snd (performAll_tape hsize hmore).1
  have hgrows := final.2.tape.performAll_grows hreset
  rw [← hafter] at hgrows
  exact hgrows

/-- Growth by a load and by resolves that fail after they have read their cell, none at the largest
number, and a reset. -/
theorem performAll_eq_tape_edges :
    let image : Array Int := #[1, 18446744073709551615]
    let ops : List Op := [.get 5, .load 5, .resolve .position 7 0, .store 7 (-2),
      .resolve .relative 9 (-1), .measure, .store 18446744073709551615 1,
      .resolve .position 1 0, .reset #[4], .measure]
    ((ofImage image).performAll ops).1 = ((Tape.ofImage image).performAll ops).1 ∧
    ((ofImage image).performAll ops).2.tape = ((Tape.ofImage image).performAll ops).2 ∧
    ((ofImage image).performAll ops).1 =
      [.value none, .value (some 0), .address 0, .done, .failed (.negativeAddress (-1)), .size 10,
        .failed (.addressOutOfRange 18446744073709551615),
        .failed (.addressOutOfRange 18446744073709551615), .done, .size 1] := by
  intro image ops
  obtain ⟨hreplies, htape, -⟩ := performAll_eq_tape image ops (by decide) (by decide)
  exact ⟨hreplies, htape, by decide +kernel⟩

end Memory

end Intcode
