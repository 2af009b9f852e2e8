import Intcode.Instruction
import Intcode.Proofs.Checks
import Mathlib.Algebra.BigOperators.Group.List.Basic
import Mathlib.Algebra.Order.Ring.Int
import Mathlib.Algebra.Order.Ring.Nat
import Mathlib.Tactic.Ring

/-!
# Digits of instructions

An instruction cell of any size is read digit by digit: the two lowest decimal digits name the
operation and the next ones the modes. The digits may be split off one after the other or each be
found by a division of its own, before or after the cell is cut down to its five low digits. Main
statement: decoding agrees with this reading in every case, the first wrong digit is the one that is
reported, and the digits beyond the parameters mean nothing.
-/

namespace Intcode

theorem Opcode.ofCode_eq_ok {c : Nat} {op : Opcode} : ofCode c = .ok op ↔ op.code = c := by
  constructor
  · intro h
    unfold ofCode at h
    split at h <;> cases h <;> rfl
  · rintro rfl
    exact ofCode_code op

/-- A number stands for no operation exactly if it is neither a digit from 1 up nor 99. -/
theorem Opcode.ofCode_eq_error {c : Nat} {e : UnknownCode} :
    ofCode c = .error e ↔ e = ⟨.opcode, c⟩ ∧ ¬ (1 ≤ c ∧ c ≤ 9 ∨ c = 99) := by
  unfold ofCode
  split <;> simp
  case h_11 h1 h2 h3 h4 h5 h6 h7 h8 h9 h99 => grind

theorem Mode.ofCode_eq_ok {d : Nat} {mode : Mode} : ofCode d = .ok mode ↔ mode.code = d := by
  constructor
  · intro h
    unfold ofCode at h
    split at h <;> cases h <;> rfl
  · rintro rfl
    exact ofCode_code mode

theorem Mode.ofCode_eq_error {d : Nat} {e : UnknownCode} :
    ofCode d = .error e ↔ e = ⟨.mode, d⟩ ∧ 2 < d := by
  unfold ofCode
  split <;> simp
  case h_4 h0 h1 h2 => grind

/-- Every digit up to 2 stands for a mode. -/
theorem Mode.exists_code {d : Nat} (h : d ≤ 2) : ∃ mode : Mode, mode.code = d := by
  cases hmode : ofCode d with
  | ok mode => exact ⟨mode, ofCode_eq_ok.mp hmode⟩
  | error e => exact absurd (ofCode_eq_error.mp hmode).2 (Nat.not_lt.mpr h)

theorem Mode.code_le (mode : Mode) : mode.code ≤ 2 := by
  cases mode <;> decide

theorem Opcode.code_lt (op : Opcode) : op.code < 100 := by
  cases op <;> decide

namespace Instruction

/-- Read modes off the low digits of a number, the lowest one first. -/
def readModes : Nat → Nat → Except UnknownCode (List Mode)
  | 0, _ => .ok []
  | n + 1, digits => do
    let mode ← Mode.ofCode (digits % 10)
    return mode :: (← readModes n (digits / 10))

/-- The digits of a number from the second one on are those of its tenth part. -/
theorem map_digit_succ (n digits : Nat) :
    ((List.range (n + 1)).map fun k => digits / 10 ^ k % 10) =
      digits % 10 :: (List.range n).map fun k => digits / 10 / 10 ^ k % 10 := by
  simp [List.range_succ_eq_map, Function.comp_def, Nat.div_div_eq_div_mul, Nat.pow_succ']

/-- The modes that are read are those that the digits stand for. -/
theorem readModes_eq_ok {n digits : Nat} {modes : List Mode} :
    readModes n digits = .ok modes ↔
      modes.map Mode.code = (List.range n).map fun k => digits / 10 ^ k % 10 := by
  induction n generalizing digits modes with
  | zero => simp [readModes, eq_comm]
  | succ n ih =>
      rw [map_digit_succ, readModes, List.map_eq_cons_iff]
      simp only [except_bind_eq_ok, Mode.ofCode_eq_ok, ih]
      constructor
      · rintro ⟨mode, hmode, rest, hrest, h⟩
        cases h
        exact ⟨mode, rest, rfl, hmode, hrest⟩
      · rintro ⟨mode, rest, rfl, hmode, hrest⟩
        exact ⟨mode, hmode, rest, hrest, rfl⟩

/-- The mode that is refused is the first one whose digit stands for none. -/
theorem readModes_eq_error {n digits : Nat} {e : UnknownCode} :
    readModes n digits = .error e ↔
      ∃ j < n, e = ⟨.mode, digits / 10 ^ j % 10⟩ ∧ 2 < digits / 10 ^ j % 10 ∧
        ∀ k < j, digits / 10 ^ k % 10 ≤ 2 := by
  induction n generalizing digits with
  | zero => simp [readModes]
  | succ n ih =>
      have hshift (k : Nat) : digits / 10 / 10 ^ k = digits / 10 ^ (k + 1) := by
        rw [Nat.div_div_eq_div_mul, Nat.pow_succ']
      simp only [readModes, except_bind_eq_error, Mode.ofCode_eq_error, Mode.ofCode_eq_ok, ih,
        hshift]
      constructor
      · rintro (⟨rfl, hlarge⟩ | ⟨mode, hmode, ⟨j, hj, rfl, hlarge, hsmall⟩ | ⟨rest, -, h⟩⟩)
        · exact ⟨0, Nat.succ_pos n, by simp, by simpa using hlarge, by simp⟩
        · refine ⟨j + 1, Nat.succ_lt_succ hj, rfl, hlarge, ?_⟩
          intro k hk
          cases k with
          | zero => simpa [← hmode] using mode.code_le
          | succ k => exact hsmall k (Nat.lt_of_succ_lt_succ hk)
        · cases h
      · rintro ⟨j, hj, rfl, hlarge, hsmall⟩
        cases j with
        | zero => exact .inl (by simpa using hlarge)
        | succ j =>
            have hfirst : digits % 10 ≤ 2 := by simpa using hsmall 0 (Nat.succ_pos j)
            obtain ⟨mode, hmode⟩ := Mode.exists_code hfirst
            exact .inr ⟨mode, hmode, .inl ⟨j, Nat.lt_of_succ_lt_succ hj, rfl, hlarge,
              fun k hk => hsmall (k + 1) (Nat.succ_lt_succ hk)⟩⟩

/-- An instruction is its operation and its modes. -/
theorem eq_of_parts {i j : Instruction} (hop : i.opcode = j.opcode) (hmodes : i.modes = j.modes) :
    i = j := by
  cases i <;> cases j <;> simp_all [opcode, modes]

/-- Every operation with as many modes as it has parameters makes up an instruction. -/
theorem exists_of_parts {op : Opcode} {modes : List Mode} (h : modes.length = op.arity) :
    ∃ i : Instruction, i.opcode = op ∧ i.modes = modes := by
  match op, modes, h with
  | .add, [a, b, c], _ => exact ⟨.add a b c, rfl, rfl⟩
  | .mul, [a, b, c], _ => exact ⟨.mul a b c, rfl, rfl⟩
  | .input, [a], _ => exact ⟨.input a, rfl, rfl⟩
  | .output, [a], _ => exact ⟨.output a, rfl, rfl⟩
  | .jumpIfTrue, [a, b], _ => exact ⟨.jumpIfTrue a b, rfl, rfl⟩
  | .jumpIfFalse, [a, b], _ => exact ⟨.jumpIfFalse a b, rfl, rfl⟩
  | .lessThan, [a, b, c], _ => exact ⟨.lessThan a b c, rfl, rfl⟩
  | .equals, [a, b, c], _ => exact ⟨.equals a b c, rfl, rfl⟩
  | .adjustBase, [a], _ => exact ⟨.adjustBase a, rfl, rfl⟩
  | .halt, [], _ => exact ⟨.halt, rfl, rfl⟩

/-- Reading each digit by a division of its own is splitting off one after the other. -/
theorem ofDigits_eq (word : Nat) :
    (ofDigits word).map (fun i => (i.opcode, i.modes)) = do
      let op ← Opcode.ofCode (word % 100)
      let modes ← readModes op.arity (word / 100)
      return (op, modes) := by
  have h2 : word / 100 / 10 % 10 = word / Nat.pow 10 3 % 10 := by
    rw [Nat.div_div_eq_div_mul]
  have h3 : word / 100 / 10 / 10 % 10 = word / Nat.pow 10 4 % 10 := by
    rw [Nat.div_div_eq_div_mul, Nat.div_div_eq_div_mul]
  unfold ofDigits
  cases Opcode.ofCode (word % 100) with
  | error e => rfl
  | ok op =>
      cases op with
      | halt => rfl
      | input | output | adjustBase =>
          change Except.map _ (Mode.ofCode (word / 100 % 10) >>= _) = _
          simp only [except_ok_bind, Opcode.arity, readModes]
          cases Mode.ofCode (word / 100 % 10) <;> rfl
      | jumpIfTrue | jumpIfFalse =>
          change Except.map _ (Mode.ofCode (word / 100 % 10) >>= _) = _
          simp only [except_ok_bind, Opcode.arity, readModes, h2]
          cases Mode.ofCode (word / 100 % 10) with
          | error e => rfl
          | ok a => cases Mode.ofCode (word / Nat.pow 10 3 % 10) <;> rfl
      | add | mul | lessThan | equals =>
          change Except.map _ (Mode.ofCode (word / 100 % 10) >>= _) = _
          simp only [except_ok_bind, Opcode.arity, readModes, h2, h3]
          cases Mode.ofCode (word / 100 % 10) with
          | error e => rfl
          | ok a =>
              cases Mode.ofCode (word / Nat.pow 10 3 % 10) with
              | error e => rfl
              | ok b => cases Mode.ofCode (word / Nat.pow 10 4 % 10) <;> rfl

/-- Digits beyond the fifth have no part in the operation or the modes. -/
theorem ofDigits_mod (word : Nat) : ofDigits (word % 100000) = ofDigits word := by
  have h0 : word % 100000 % 100 = word % 100 := by omega
  have h1 : word % 100000 / Nat.pow 10 2 % 10 = word / Nat.pow 10 2 % 10 := by
    change word % 100000 / 100 % 10 = word / 100 % 10
    omega
  have h2 : word % 100000 / Nat.pow 10 3 % 10 = word / Nat.pow 10 3 % 10 := by
    change word % 100000 / 1000 % 10 = word / 1000 % 10
    omega
  have h3 : word % 100000 / Nat.pow 10 4 % 10 = word / Nat.pow 10 4 % 10 := by
    change word % 100000 / 10000 % 10 = word / 10000 % 10
    omega
  simp only [ofDigits, h0, h1, h2, h3]

theorem div_hundred (word k : Nat) : word / 100 / 10 ^ k = word / 10 ^ (k + 2) := by
  rw [Nat.div_div_eq_div_mul, Nat.pow_add, Nat.mul_comm]

/-- A word holds an instruction exactly if its digits are those of the operation and the modes. -/
theorem ofDigits_eq_ok {word : Nat} {i : Instruction} :
    ofDigits word = .ok i ↔ i.opcode.code = word % 100 ∧
      i.modes.map Mode.code =
        (List.range i.opcode.arity).map fun k => word / 10 ^ (k + 2) % 10 := by
  have hparts : ofDigits word = .ok i ↔
      (ofDigits word).map (fun i => (i.opcode, i.modes)) = .ok (i.opcode, i.modes) := by
    cases ofDigits word with
    | error e => exact ⟨nofun, nofun⟩
    | ok j =>
        constructor
        · rintro ⟨⟩
          rfl
        · intro h
          obtain ⟨hop, hmodes⟩ := Prod.mk.inj (Except.ok.inj h)
          rw [eq_of_parts hop hmodes]
  rw [hparts, ofDigits_eq]
  simp only [except_bind_eq_ok, Opcode.ofCode_eq_ok, readModes_eq_ok, div_hundred]
  constructor
  · rintro ⟨op, hop, modes, hmodes, h⟩
    cases h
    exact ⟨hop, hmodes⟩
  · rintro ⟨hop, hmodes⟩
    exact ⟨_, hop, _, hmodes, rfl⟩

/-- A word is refused for the number of its operation or, if this is known, for the first digit that
stands for no mode. -/
theorem ofDigits_eq_error {word : Nat} {e : UnknownCode} :
    ofDigits word = .error e ↔
      (e = ⟨.opcode, word % 100⟩ ∧ ¬ (1 ≤ word % 100 ∧ word % 100 ≤ 9 ∨ word % 100 = 99)) ∨
      ∃ op : Opcode, op.code = word % 100 ∧ ∃ j < op.arity,
        e = ⟨.mode, word / 10 ^ (j + 2) % 10⟩ ∧ 2 < word / 10 ^ (j + 2) % 10 ∧
          ∀ k < j, word / 10 ^ (k + 2) % 10 ≤ 2 := by
  have hparts : ofDigits word = .error e ↔
      (ofDigits word).map (fun i => (i.opcode, i.modes)) = .error e := by
    cases ofDigits word with
    | error e' =>
        exact ⟨fun h => congrArg _ (Except.error.inj h), fun h => congrArg _ (Except.error.inj h)⟩
    | ok j => exact ⟨nofun, nofun⟩
  rw [hparts, ofDigits_eq]
  simp only [except_bind_eq_error, Opcode.ofCode_eq_ok, Opcode.ofCode_eq_error,
    readModes_eq_error, div_hundred]
  constructor
  · rintro (h | ⟨op, hop, h | ⟨modes, -, h⟩⟩)
    · exact .inl h
    · exact .inr ⟨op, hop, h⟩
    · cases h
  · rintro (h | ⟨op, hop, h⟩)
    · exact .inl h
    · exact .inr ⟨op, hop, .inl h⟩

theorem ofDigits_eq_unknownOpcode {word c : Nat} :
    ofDigits word = .error ⟨.opcode, c⟩ ↔
      word % 100 = c ∧ ¬ (1 ≤ c ∧ c ≤ 9 ∨ c = 99) := by
  rw [ofDigits_eq_error]
  constructor
  · rintro (⟨h, hc⟩ | ⟨op, -, j, -, h, -⟩)
    · cases h
      exact ⟨rfl, hc⟩
    · cases h
  · rintro ⟨rfl, hc⟩
    exact .inl ⟨rfl, hc⟩

theorem ofDigits_eq_unknownMode {word d : Nat} :
    ofDigits word = .error ⟨.mode, d⟩ ↔
      ∃ op : Opcode, op.code = word % 100 ∧ ∃ j < op.arity,
        word / 10 ^ (j + 2) % 10 = d ∧ 2 < d ∧ ∀ k < j, word / 10 ^ (k + 2) % 10 ≤ 2 := by
  rw [ofDigits_eq_error]
  constructor
  · rintro (⟨h, -⟩ | ⟨op, hop, j, hj, h, hd⟩)
    · cases h
    · cases h
      exact ⟨op, hop, j, hj, rfl, hd⟩
  · rintro ⟨op, hop, j, hj, rfl, hd⟩
    exact .inr ⟨op, hop, j, hj, rfl, hd⟩

/-- Write the modes as decimal digits, the first one lowest. -/
def modeDigits : List Mode → Nat
  | [] => 0
  | m :: rest => m.code + 10 * modeDigits rest

/-- The digits of the modes, with any further digits above them. -/
theorem map_modeDigits (modes : List Mode) (q : Nat) :
    ((List.range modes.length).map fun k =>
      (modeDigits modes + q * 10 ^ modes.length) / 10 ^ k % 10) = modes.map Mode.code := by
  induction modes with
  | nil => rfl
  | cons mode rest ih =>
      have hcode := mode.code_le
      have hsplit : modeDigits (mode :: rest) + q * 10 ^ (rest.length + 1) =
          mode.code + 10 * (modeDigits rest + q * 10 ^ rest.length) := by
        rw [modeDigits]
        ring
      rw [List.length_cons, hsplit, map_digit_succ, List.map_cons, ← ih]
      congr 1
      · omega
      · have htail : (mode.code + 10 * (modeDigits rest + q * 10 ^ rest.length)) / 10 =
            modeDigits rest + q * 10 ^ rest.length := by
          omega
        rw [htail]

/-- The digits of the modes written out as a sum. -/
theorem modeDigits_eq_sum (modes : List Mode) (k : Nat) :
    10 ^ (k + 1) * modeDigits modes =
      ((modes.zipIdx k).map fun (mode, j) => mode.code * 10 ^ (j + 1)).sum := by
  induction modes generalizing k with
  | nil => rfl
  | cons mode rest ih =>
      rw [modeDigits, List.zipIdx_cons, List.map_cons, List.sum_cons, ← ih]
      ring

/-- The digit that an instruction cell gives for the mode of the `k`-th parameter. -/
def digit (v : Int) (k : Nat) : Int := v / 10 ^ (k + 1) % 10

theorem digit_natCast (word k : Nat) : digit word k = (word / 10 ^ (k + 1) % 10 : Nat) := by
  simp [digit]

theorem decode_natCast (word : Nat) : decode word = (ofDigits word).mapError .unknownCode := by
  rw [← ofDigits_mod]
  rfl

theorem decode_of_neg {v : Int} (h : v < 0) : decode v = .error (.instructionOutOfRange v) := by
  cases v with
  | ofNat word => exact absurd h (Int.not_lt.mpr (Int.natCast_nonneg word))
  | negSucc word => rfl

/-- A cell that is not negative holds an instruction exactly if its digits do. -/
theorem decode_natCast_eq_ok {word : Nat} {i : Instruction} :
    decode word = .ok i ↔ i.opcode.code = word % 100 ∧
      i.modes.map Mode.code =
        (List.range i.opcode.arity).map fun k => word / 10 ^ (k + 2) % 10 := by
  rw [← ofDigits_eq_ok, decode_natCast]
  cases ofDigits word with
  | error e => exact ⟨nofun, nofun⟩
  | ok j => exact ⟨fun h => congrArg _ (Except.ok.inj h), fun h => congrArg _ (Except.ok.inj h)⟩

/-- A cell that is not negative is refused only as its digits are. -/
theorem decode_natCast_eq_error {word : Nat} {fault : Fault} :
    decode word = .error fault ↔ ∃ e, fault = .unknownCode e ∧ ofDigits word = .error e := by
  rw [decode_natCast]
  cases ofDigits word with
  | error e =>
      constructor
      · rintro ⟨⟩
        exact ⟨e, rfl, rfl⟩
      · rintro ⟨_, rfl, ⟨⟩⟩
        rfl
  | ok j => exact ⟨nofun, fun ⟨_, _, h⟩ => nomatch h⟩

theorem decode_natCast_eq_unknownCode {word : Nat} {e : UnknownCode} :
    decode word = .error (.unknownCode e) ↔ ofDigits word = .error e := by
  simp [decode_natCast_eq_error]

/-- Parameters are counted from one. -/
theorem unknownMode_natCast {word d : Nat} :
    decode word = .error (.unknownCode ⟨.mode, d⟩) ↔
      ∃ op : Opcode, op.code = word % 100 ∧ ∃ j, 1 ≤ j ∧ j ≤ op.arity ∧
        digit word j = d ∧ 2 < d ∧ ∀ k, 1 ≤ k → k < j → digit word k ≤ 2 := by
  rw [decode_natCast_eq_unknownCode, ofDigits_eq_unknownMode]
  constructor
  · rintro ⟨op, hop, j, hj, hd, hlarge, hsmall⟩
    refine ⟨op, hop, j + 1, Nat.succ_pos j, hj, ?_, hlarge, ?_⟩
    · rw [digit_natCast, hd]
    · intro k hk hkj
      obtain ⟨k, rfl⟩ := Nat.exists_eq_add_of_le' hk
      rw [digit_natCast]
      exact_mod_cast hsmall k (Nat.lt_of_succ_lt_succ hkj)
  · rintro ⟨op, hop, j, hj, hjn, hd, hlarge, hsmall⟩
    obtain ⟨j, rfl⟩ := Nat.exists_eq_add_of_le' hj
    rw [digit_natCast] at hd
    refine ⟨op, hop, j, hjn, by exact_mod_cast hd, hlarge, ?_⟩
    intro k hk
    have h := hsmall (k + 1) (Nat.succ_pos k) (Nat.succ_lt_succ hk)
    rw [digit_natCast] at h
    exact_mod_cast h

/-- The sum of the digits of an instruction, with any further digits above, holds the
instruction. -/
theorem decode_sum (i : Instruction) (q : Nat) :
    decode ((i.opcode.code + ((i.modes.zipIdx 1).map fun (mode, k) =>
      mode.code * 10 ^ (k + 1)).sum + q * 10 ^ (i.opcode.arity + 2) : Nat) : Int) = .ok i := by
  have hcode := i.opcode.code_lt
  have hword : i.opcode.code + 10 ^ 2 * modeDigits i.modes + q * 10 ^ (i.opcode.arity + 2) =
      i.opcode.code + 100 * (modeDigits i.modes + q * 10 ^ i.modes.length) := by
    rw [length_modes]
    ring
  rw [← modeDigits_eq_sum, hword, decode_natCast_eq_ok]
  constructor
  · omega
  · have htail : (i.opcode.code + 100 * (modeDigits i.modes + q * 10 ^ i.modes.length)) / 100 =
        modeDigits i.modes + q * 10 ^ i.modes.length := by
      omega
    simp only [← div_hundred, htail]
    rw [← length_modes, map_modeDigits]

/-- Digits are compared as integers or as natural numbers. -/
theorem map_digit_natCast {modes : List Mode} {word n : Nat} :
    (modes.map fun mode => (mode.code : Int)) = (List.range n).map (fun k => digit word (k + 1)) ↔
      modes.map Mode.code = (List.range n).map fun k => word / 10 ^ (k + 2) % 10 := by
  have hmodes : (modes.map fun mode => (mode.code : Int)) = (modes.map Mode.code).map Nat.cast := by
    rw [List.map_map]
    rfl
  have hdigits : ((List.range n).map fun k => digit word (k + 1)) =
      ((List.range n).map fun k => word / 10 ^ (k + 2) % 10).map Nat.cast := by
    simp only [digit_natCast, List.map_map]
    rfl
  rw [hmodes, hdigits]
  exact (List.map_injective_iff.mpr Nat.cast_injective).eq_iff

/-- Every integer is decoded as its decimal digits say. A negative one is no instruction. Of the
others, the two lowest digits must be the number of an operation and each digit that stands for the
mode of one of its parameters must be at most 2; the first of these that fails is reported. If none
does, the instruction has this operation and exactly these modes. It makes no difference that only
five digits are looked at. Conversely, every operation is decoded together with any modes from the
sum of their digits, whatever digits stand above. -/
theorem decode_reads_digits :
    (∀ v : Int,
      (∀ x, decode v = .error (.instructionOutOfRange x) ↔ v < 0 ∧ x = v) ∧
      (∀ c, decode v = .error (.unknownCode ⟨.opcode, c⟩) ↔
        0 ≤ v ∧ v % 100 = c ∧ ¬ (1 ≤ c ∧ c ≤ 9 ∨ c = 99)) ∧
      (∀ d, decode v = .error (.unknownCode ⟨.mode, d⟩) ↔
        0 ≤ v ∧ ∃ op : Opcode, v % 100 = op.code ∧ ∃ j, 1 ≤ j ∧ j ≤ op.arity ∧
          digit v j = d ∧ 2 < d ∧ ∀ k, 1 ≤ k → k < j → digit v k ≤ 2) ∧
      (∀ i, decode v = .ok i ↔
        0 ≤ v ∧ v % 100 = i.opcode.code ∧ i.width = i.opcode.arity + 1 ∧
          (i.modes.map fun mode => (mode.code : Int)) =
            (List.range i.opcode.arity).map fun k => digit v (k + 1)) ∧
      (∀ fault, decode v = .error fault →
        fault = .instructionOutOfRange v ∨ ∃ e, fault = .unknownCode e) ∧
      (0 ≤ v → decode v = (ofDigits v.toNat).mapError .unknownCode)) ∧
    ∀ (op : Opcode) (modes : List Mode) (q : Nat), modes.length = op.arity →
      ∃ i : Instruction, i.opcode = op ∧ i.modes = modes ∧ i.width = op.arity + 1 ∧
        decode ((op.code + ((modes.zipIdx 1).map fun (mode, k) => mode.code * 10 ^ (k + 1)).sum +
          q * 10 ^ (op.arity + 2) : Nat) : Int) = .ok i := by
  constructor
  · intro v
    rcases lt_or_ge v 0 with hneg | hpos
    · have hdecode := decode_of_neg hneg
      have hnot : ¬ 0 ≤ v := Int.not_le.mpr hneg
      simp [hdecode, hneg, hnot, eq_comm]
    · lift v to Nat using hpos with word
      have hpos : (0 : Int) ≤ word := Int.natCast_nonneg word
      have hcode (c : Nat) : (word : Int) % 100 = c ↔ word % 100 = c := by
        exact_mod_cast Iff.rfl
      refine ⟨?_, ?_, ?_, ?_, ?_, ?_⟩
      · intro x
        simp [decode_natCast_eq_error]
      · intro c
        rw [decode_natCast_eq_unknownCode, ofDigits_eq_unknownOpcode, hcode, and_iff_right hpos]
      · intro d
        simp only [unknownMode_natCast, hcode, hpos, true_and, eq_comm]
      · intro i
        rw [decode_natCast_eq_ok, map_digit_natCast, hcode, eq_comm]
        simp [hpos, width]
      · intro fault h
        obtain ⟨e, rfl, -⟩ := decode_natCast_eq_error.mp h
        exact .inr ⟨e, rfl⟩
      · intro _
        exact decode_natCast word
  · intro op modes q hlength
    obtain ⟨i, rfl, rfl⟩ := exists_of_parts hlength
    exact ⟨i, rfl, rfl, rfl, decode_sum i q⟩

/-- An addition in a cell of 24 digits. -/
theorem decode_reads_digits_huge :
    decode 100000000000000000021101 = .ok (.add .immediate .immediate .relative) := by
  obtain ⟨i, hop, hmodes, -, h⟩ :=
    decode_reads_digits.2 .add [.immediate, .immediate, .relative] 1000000000000000000 rfl
  have hi : i = .add .immediate .immediate .relative := eq_of_parts hop hmodes
  rw [← hi]
  exact h

end Instruction

end Intcode
