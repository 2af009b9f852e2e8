import Intcode.Text
import Mathlib.Data.List.Induction

/-!
# Written integers

An integer is written as its decimal digits, with a minus sign in front if it is negative. Reading
such a text gives back the integer, whatever its size. The texts that can be read are those of a
grammar: a sign or none, a digit, and digits and underscores behind it.
-/

namespace Intcode.Decimal

theorem isDigit_of_mem_toDigits {n : Nat} {c : Char} (h : c ∈ Nat.toDigits 10 n) :
    c.isDigit = true :=
  Nat.isDigit_of_mem_toDigits (by decide) (by decide) h

theorem toList_toString_ofNat (n : Nat) :
    (toString (Int.ofNat n)).toList = Nat.toDigits 10 n := by
  rw [show toString (Int.ofNat n) = toString n from rfl, Nat.toString_eq_ofList_toDigits,
    String.toList_ofList]

theorem toList_toString_negSucc (n : Nat) :
    (toString (Int.negSucc n)).toList = '-' :: Nat.toDigits 10 (n + 1) := by
  rw [show toString (Int.negSucc n) = "-" ++ toString (n + 1) from rfl, String.toList_append,
    Nat.toString_eq_ofList_toDigits]
  exact congrArg ('-' :: ·) String.toList_ofList

/-- A written integer consists of digits and a sign. -/
theorem isDigit_or_sign {v : Int} {c : Char} (h : c ∈ (toString v).toList) :
    c.isDigit = true ∨ c = '-' := by
  cases v with
  | ofNat n =>
      rw [toList_toString_ofNat] at h
      exact .inl (isDigit_of_mem_toDigits h)
  | negSucc n =>
      rw [toList_toString_negSucc] at h
      rcases List.mem_cons.mp h with rfl | h
      · exact .inr rfl
      · exact .inl (isDigit_of_mem_toDigits h)

theorem isNumeral_of_isDigit {cs : List Char} (hne : cs ≠ [])
    (h : ∀ c ∈ cs, c.isDigit = true) : isNumeral cs = true := by
  cases cs with
  | nil => exact absurd rfl hne
  | cons c cs =>
      simp only [isNumeral, Bool.and_eq_true, List.all_eq_true, Bool.or_eq_true]
      exact ⟨h c List.mem_cons_self, fun d hd => .inl (h d (List.mem_cons_of_mem c hd))⟩

theorem magnitude_of_isDigit {cs : List Char} (h : ∀ c ∈ cs, c.isDigit = true) :
    magnitude cs = Nat.ofDigitChars 10 cs 0 := by
  rw [magnitude, List.filter_eq_self.mpr h]

theorem readNat?_toDigits (n : Nat) : readNat? (Nat.toDigits 10 n) = some n := by
  rw [readNat?, if_pos (isNumeral_of_isDigit Nat.toDigits_ne_nil fun _ => isDigit_of_mem_toDigits),
    magnitude_of_isDigit fun _ => isDigit_of_mem_toDigits, Nat.ofDigitChars_ten_toDigits]

/-- A written number is read back. -/
theorem readNat?_toString (n : Nat) : readNat? (toString n).toList = some n := by
  rw [Nat.toString_eq_ofList_toDigits, String.toList_ofList, readNat?_toDigits]

/-- Digits are no sign, so a text that begins with one is read as it is. -/
theorem read?_of_isNumeral {cs : List Char} (h : isNumeral cs = true) :
    read? cs = (readNat? cs).map Int.ofNat := by
  unfold read?
  split
  · cases h
  · cases h
  · rfl

/-- A written integer is read back. -/
theorem read?_toString (v : Int) : read? (toString v).toList = some v := by
  cases v with
  | ofNat n =>
      have hnumeral : isNumeral (Nat.toDigits 10 n) = true :=
        isNumeral_of_isDigit Nat.toDigits_ne_nil fun _ => isDigit_of_mem_toDigits
      rw [toList_toString_ofNat, read?_of_isNumeral hnumeral, readNat?_toDigits]
      rfl
  | negSucc n =>
      rw [toList_toString_negSucc, read?, readNat?_toDigits]
      rfl

/-- The unsigned integers and what they denote. Each digit counts ten times as much as the next one,
and underscores do not count. -/
inductive Numeral : List Char → Nat → Prop
  | digit {d : Char} (h : d.isDigit = true) : Numeral [d] (d.toNat - '0'.toNat)
  | append {cs : List Char} {n : Nat} {d : Char} (front : Numeral cs n) (h : d.isDigit = true) :
      Numeral (cs ++ [d]) (10 * n + (d.toNat - '0'.toNat))
  | underscore {cs : List Char} {n : Nat} (front : Numeral cs n) : Numeral (cs ++ ['_']) n

/-- The integers and what they denote. -/
inductive Literal : List Char → Int → Prop
  | unsigned {cs : List Char} {n : Nat} (h : Numeral cs n) : Literal cs n
  | plus {cs : List Char} {n : Nat} (h : Numeral cs n) : Literal ('+' :: cs) n
  | minus {cs : List Char} {n : Nat} (h : Numeral cs n) : Literal ('-' :: cs) (-n)

theorem magnitude_append_digit (cs : List Char) {d : Char} (h : d.isDigit = true) :
    magnitude (cs ++ [d]) = 10 * magnitude cs + (d.toNat - '0'.toNat) := by
  simp [magnitude, h, Nat.ofDigitChars]

theorem magnitude_append_underscore (cs : List Char) : magnitude (cs ++ ['_']) = magnitude cs := by
  simp [magnitude]

theorem isNumeral_append {cs : List Char} (d : Char) (hne : cs ≠ []) :
    isNumeral (cs ++ [d]) = (isNumeral cs && (d.isDigit || d == '_')) := by
  cases cs with
  | nil => exact absurd rfl hne
  | cons c cs => simp [isNumeral, Bool.and_assoc]

theorem Numeral.ne_nil {cs : List Char} {n : Nat} (h : Numeral cs n) : cs ≠ [] := by
  cases h <;> simp

theorem Numeral.readNat?_eq {cs : List Char} {n : Nat} (h : Numeral cs n) :
    isNumeral cs = true ∧ magnitude cs = n := by
  induction h with
  | digit h => simp [isNumeral, magnitude, h, Nat.ofDigitChars]
  | append front h ih =>
      rw [isNumeral_append _ front.ne_nil, magnitude_append_digit _ h, ih.1, ih.2]
      simp [h]
  | underscore front ih =>
      rw [isNumeral_append _ front.ne_nil, magnitude_append_underscore, ih.1, ih.2]
      simp

theorem numeral_of_isNumeral {cs : List Char} (h : isNumeral cs = true) :
    Numeral cs (magnitude cs) := by
  induction cs using List.reverseRecOn with
  | nil => cases h
  | append_singleton cs d ih =>
      by_cases hne : cs = []
      · subst hne
        have hd : d.isDigit = true := by simpa [isNumeral] using h
        have hvalue : magnitude [d] = d.toNat - '0'.toNat := by
          simp [magnitude, hd, Nat.ofDigitChars]
        exact hvalue ▸ .digit hd
      · rw [isNumeral_append d hne, Bool.and_eq_true, Bool.or_eq_true, beq_iff_eq] at h
        rcases h with ⟨hcs, hd | rfl⟩
        · exact magnitude_append_digit cs hd ▸ .append (ih hcs) hd
        · exact magnitude_append_underscore cs ▸ .underscore (ih hcs)

/-- The unsigned integers are read as what they denote, and nothing else is read. -/
theorem readNat?_eq_some {cs : List Char} {n : Nat} : readNat? cs = some n ↔ Numeral cs n := by
  unfold readNat?
  constructor
  · intro h
    split at h
    · next hnumeral =>
      cases h
      exact numeral_of_isNumeral hnumeral
    · cases h
  · intro h
    rw [if_pos h.readNat?_eq.1, h.readNat?_eq.2]

/-- The integers are read as what they denote, and nothing else is read. -/
theorem read?_eq_some {cs : List Char} {v : Int} : read? cs = some v ↔ Literal cs v := by
  constructor
  · intro h
    unfold read? at h
    split at h <;> obtain ⟨n, hn, rfl⟩ := Option.map_eq_some_iff.mp h
    · exact .plus (readNat?_eq_some.mp hn)
    · exact .minus (readNat?_eq_some.mp hn)
    · exact .unsigned (readNat?_eq_some.mp hn)
  · intro h
    cases h with
    | unsigned h =>
        rw [read?_of_isNumeral h.readNat?_eq.1, readNat?_eq_some.mpr h]
        rfl
    | plus h | minus h =>
        rw [read?, readNat?_eq_some.mpr h]
        rfl

/-- A text that is not read is no integer. -/
theorem read?_eq_none {cs : List Char} : read? cs = none ↔ ∀ v, ¬ Literal cs v := by
  simp only [← read?_eq_some, Option.eq_none_iff_forall_ne_some, ne_eq]

end Intcode.Decimal
