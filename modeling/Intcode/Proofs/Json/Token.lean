import Intcode.Json.Token
import Intcode.Proofs.Text.Decimal
import Mathlib.Data.List.TakeWhile

/-!
# Spellings of tokens

A text spells a list of tokens if it consists of their spellings in order, with any blanks around
them, and no word runs into the next. Cutting such a text into tokens gives back the list, so it
does not matter how a text is laid out.
-/

namespace Intcode.Json

theorem tokenize?_nil : tokenize? [] = some [] := by
  rw [tokenize?]

theorem tokenize?_space {c : Char} (rest : List Char) (h : isSpace c = true) :
    tokenize? (c :: rest) = tokenize? rest := by
  rw [tokenize?, if_pos h]

theorem tokenize?_quote {rest after : List Char} {units : List Nat}
    (h : readString? rest = some (units, after)) :
    tokenize? ('"' :: rest) =
      (tokenize? after).map (.text ((joinUnits? units).map String.ofList) :: ·) := by
  rw [tokenize?, if_neg (by decide), if_pos rfl]
  split
  · next h' =>
    rw [h] at h'
    cases h'
    rfl
  · next h' =>
    rw [h] at h'
    cases h'

theorem tokenize?_punctuation {c : Char} {t : Token} (rest : List Char)
    (h : punctuation? c = some t) : tokenize? (c :: rest) = (tokenize? rest).map (t :: ·) := by
  have hc : isSpace c = false ∧ c ≠ '"' ∧ isWordChar c = false := by
    unfold punctuation? at h
    split at h <;> first | decide | cases h
  rw [tokenize?, hc.1, if_neg Bool.false_ne_true, if_neg hc.2.1, hc.2.2,
    if_neg Bool.false_ne_true, h]
  cases tokenize? rest <;> rfl

/-- A word ends before this text. -/
def EndsWord (rest : List Char) : Prop := ∀ c ∈ rest.head?, isWordChar c = false

theorem endsWord_cons {c : Char} (rest : List Char) (h : isWordChar c = false) :
    EndsWord (c :: rest) := by
  rintro d hd
  cases hd
  exact h

theorem isSpace_of_isWordChar {c : Char} (h : isWordChar c = true) : isSpace c = false := by
  rw [Bool.eq_false_iff]
  intro hspace
  simp only [isSpace, Bool.or_eq_true, beq_iff_eq] at hspace
  rcases hspace with ((rfl | rfl) | rfl) | rfl <;> revert h <;> decide

/-- A word is cut off where its characters end. -/
theorem tokenize?_word {word rest : List Char} {t : Token} (hne : word ≠ [])
    (hword : ∀ c ∈ word, isWordChar c = true) (hread : readWord? word = some t)
    (hrest : EndsWord rest) : tokenize? (word ++ rest) = (tokenize? rest).map (t :: ·) := by
  cases word with
  | nil => exact absurd rfl hne
  | cons c tail =>
      have hc := hword c List.mem_cons_self
      have htail : ∀ d ∈ tail, isWordChar d = true := fun d hd => hword d (.tail c hd)
      have hquote : c ≠ '"' := by
        rintro rfl
        revert hc
        decide
      have hspan : (tail ++ rest).takeWhile isWordChar = tail ∧
          (tail ++ rest).dropWhile isWordChar = rest := by
        rw [List.takeWhile_append_of_pos htail, List.dropWhile_append_of_pos htail]
        cases rest with
        | nil => simp
        | cons d rest => simp [hrest d rfl]
      rw [List.cons_append, tokenize?, isSpace_of_isWordChar hc, if_neg Bool.false_ne_true,
        if_neg hquote, if_pos hc, hspan.1, hread]
      change (tokenize? ((tail ++ rest).dropWhile isWordChar) >>= fun ts => pure (t :: ts)) = _
      rw [hspan.2]
      cases tokenize? rest <;> rfl

theorem isWordChar_of_isDigit {c : Char} (h : c.isDigit = true) : isWordChar c = true := by
  simp [isWordChar, Char.isAlphanum, h]

/-- No number but zero is written with a leading zero. -/
theorem head?_toDigits {n : Nat} (h : 0 < n) : (Nat.toDigits 10 n).head? ≠ some '0' := by
  induction n using Nat.strongRecOn with
  | ind n ih =>
      by_cases hlt : n < 10
      · have hdigit : ∀ d < 10, 0 < d → [Nat.digitChar d].head? ≠ some '0' := by
          decide
        rw [Nat.toDigits_of_lt_base hlt]
        exact hdigit n hlt h
      · have hle : 10 ≤ n := Nat.not_lt.mp hlt
        have hhead := ih (n / 10) (Nat.div_lt_self h (by decide)) (Nat.div_pos hle (by decide))
        rw [Nat.toDigits_of_base_le (by decide) hle]
        cases hdigits : Nat.toDigits 10 (n / 10) with
        | nil => exact absurd hdigits Nat.toDigits_ne_nil
        | cons d rest => rwa [hdigits] at hhead

theorem readNumber?_toDigits (negative : Bool) (n : Nat) (h : negative = true → 0 < n) :
    readNumber? negative (Nat.toDigits 10 n) =
      some (.integer (if negative then -(n : Int) else n)) := by
  have hdigits : ∀ c ∈ Nat.toDigits 10 n, c.isDigit = true :=
    fun _ => Decimal.isDigit_of_mem_toDigits
  have htake : (Nat.toDigits 10 n).takeWhile Char.isDigit = Nat.toDigits 10 n :=
    List.takeWhile_eq_self_iff.mpr hdigits
  have hdrop : (Nat.toDigits 10 n).dropWhile Char.isDigit = [] :=
    List.dropWhile_eq_nil_iff.mpr hdigits
  have hzero : ((Nat.toDigits 10 n).head? == some '0' && (Nat.toDigits 10 n).length != 1) =
      false := by
    rcases Nat.eq_zero_or_pos n with rfl | hn
    · decide
    · simp [head?_toDigits hn]
  have hempty : (Nat.toDigits 10 n).isEmpty = false := by
    simp [List.isEmpty_eq_false_iff, Nat.toDigits_ne_nil]
  unfold readNumber?
  simp only [htake, hdrop, hempty, hzero, Nat.ofDigitChars_ten_toDigits, Bool.or_self,
    Bool.false_eq_true, if_false, List.isEmpty_nil, Bool.not_true]
  cases negative with
  | false => rfl
  | true => simp [Nat.pos_iff_ne_zero.mp (h rfl)]

theorem readWord?_of_isDigit {cs : List Char} (h : ∀ c ∈ cs.head?, c.isDigit = true)
    (hne : cs ≠ []) : readWord? cs = readNumber? false cs := by
  cases cs with
  | nil => exact absurd rfl hne
  | cons c cs =>
      have hc := h c rfl
      have hnot (d : Char) (tail : List Char) (hd : d.isDigit = false) : c :: cs ≠ d :: tail := by
        rintro ⟨rfl, -⟩
        rw [hc] at hd
        cases hd
      have hnull : c :: cs ≠ "null".toList := hnot 'n' _ (by decide)
      have htrue : c :: cs ≠ "true".toList := hnot 't' _ (by decide)
      have hfalse : c :: cs ≠ "false".toList := hnot 'f' _ (by decide)
      unfold readWord?
      rw [if_neg hnull, if_neg htrue, if_neg hfalse]
      split
      · next e => exact absurd e (hnot '-' _ (by decide))
      · rfl

/-- A written integer is read back. -/
theorem readWord?_toString (v : Int) : readWord? (toString v).toList = some (.integer v) := by
  cases v with
  | ofNat n =>
      rw [Decimal.toList_toString_ofNat, readWord?_of_isDigit ?_ Nat.toDigits_ne_nil,
        readNumber?_toDigits false n nofun]
      · rfl
      · intro c hc
        exact Decimal.isDigit_of_mem_toDigits (List.mem_of_head? hc)
  | negSucc n =>
      rw [Decimal.toList_toString_negSucc]
      unfold readWord?
      rw [if_neg (by simp), if_neg (by simp), if_neg (by simp)]
      exact readNumber?_toDigits true (n + 1) fun _ => Nat.succ_pos n

/-- The escape of a control character holds its number. -/
theorem unitEscape_of_lt {n : Nat} (h : n < 32) :
    unitEscape n = ['\\', 'u', '0', '0', Nat.digitChar (n / 16), Nat.digitChar (n % 16)] ∧
      hexUnit? '0' '0' (Nat.digitChar (n / 16)) (Nat.digitChar (n % 16)) = some n := by
  revert n
  decide

theorem readString?_unit {a b c d : Char} {unit : Nat} (rest : List Char)
    (h : hexUnit? a b c d = some unit) :
    readString? ('\\' :: 'u' :: a :: b :: c :: d :: rest) =
      (readString? rest).map fun read => (unit :: read.1, read.2) := by
  rw [readString?, h]
  cases readString? rest <;> rfl

theorem readString?_letter {c e : Char} (rest : List Char) (h : escaped? c = some e)
    (hc : c ≠ 'u') :
    readString? ('\\' :: c :: rest) =
      (readString? rest).map fun read => (e.toNat :: read.1, read.2) := by
  rw [readString?, h]
  · cases readString? rest <;> rfl
  · rintro a b c d rest' rfl -
    exact hc rfl

theorem readString?_plain {c : Char} (rest : List Char) (hquote : c ≠ '"') (hslash : c ≠ '\\')
    (hcontrol : 32 ≤ c.toNat) :
    readString? (c :: rest) = (readString? rest).map fun read => (c.toNat :: read.1, read.2) := by
  rw [readString?.eq_def]
  split
  · next e => cases e
  · next e => exact absurd (List.cons.inj e).1 hquote
  · next e => exact absurd (List.cons.inj e).1 hslash
  · next e => exact absurd (List.cons.inj e).1 hslash
  · next e =>
    cases e
    rw [if_neg (by simp [hslash, Nat.not_lt.mpr hcontrol])]
    cases readString? rest <;> rfl

/-- A character of a string is read back. -/
theorem readString?_escapeChar (c : Char) (rest : List Char) :
    readString? (escapeChar c ++ rest) =
      (readString? rest).map fun read => (c.toNat :: read.1, read.2) := by
  unfold escapeChar
  split
  iterate 7 exact readString?_letter rest rfl (by decide)
  · next hquote hslash _ _ _ _ _ =>
    split
    · next hcontrol =>
      obtain ⟨hescape, hunit⟩ := unitEscape_of_lt hcontrol
      rw [hescape]
      exact readString?_unit rest hunit
    · next hcontrol => exact readString?_plain rest hquote hslash (Nat.not_lt.mp hcontrol)

theorem readString?_flatMap (s rest : List Char) :
    readString? (s.flatMap escapeChar ++ '"' :: rest) = some (s.map Char.toNat, rest) := by
  induction s with
  | nil => rw [List.flatMap_nil, List.nil_append, readString?, List.map_nil]
  | cons c s ih =>
      rw [List.flatMap_cons, List.append_assoc, readString?_escapeChar, ih]
      rfl

/-- No character is half of a surrogate pair. -/
theorem joinUnits?_map_toNat (s : List Char) : joinUnits? (s.map Char.toNat) = some s := by
  induction s with
  | nil => rfl
  | cons c s ih =>
      have hvalid : c.toNat < 0xd800 ∨ 0xdfff < c.toNat ∧ c.toNat < 0x110000 := c.valid
      rw [List.map_cons, joinUnits?.eq_def]
      simp only
      rw [if_neg (by omega), if_neg (by omega), ih, Char.ofNat_toNat]
      rfl

theorem tokenize?_text (s : Option String) (rest : List Char) :
    tokenize? ((Token.text s).spell ++ rest) = (tokenize? rest).map (.text s :: ·) := by
  cases s with
  | some s =>
      have hspell : (Token.text (some s)).spell ++ rest =
          '"' :: (s.toList.flatMap escapeChar ++ '"' :: rest) :=
        congrArg ('"' :: ·) (List.append_assoc _ ['"'] rest)
      rw [hspell, tokenize?_quote (readString?_flatMap s.toList rest), joinUnits?_map_toNat,
        Option.map_some, String.ofList_toList]
  | none =>
      have hspell : (Token.text none).spell ++ rest =
          '"' :: '\\' :: 'u' :: 'd' :: '8' :: '0' :: '0' :: '"' :: rest := by
        rfl
      have hunit : hexUnit? 'd' '8' '0' '0' = some 0xd800 := by
        decide
      have hread : readString? ('\\' :: 'u' :: 'd' :: '8' :: '0' :: '0' :: '"' :: rest) =
          some ([0xd800], rest) := by
        rw [readString?_unit _ hunit, readString?]
        rfl
      rw [hspell, tokenize?_quote hread]
      rfl

namespace Token

/-- Whether a token is a name or a number. -/
def isWord : Token → Bool
  | null | bool _ | integer _ | decimal _ => true
  | openArray | closeArray | openObject | closeObject | comma | colon | text _ => false

/-- A token that can be read back, as all are but numbers kept as they were written, which must be
written as such. -/
def Legible : Token → Prop
  | decimal literal => (∀ c ∈ literal.toList, isWordChar c = true) ∧
      readWord? literal.toList = some (.decimal literal)
  | _ => True

theorem readWord?_spell {t : Token} (h : t.Legible) (hword : t.isWord = true) :
    t.spell ≠ [] ∧ (∀ c ∈ t.spell, isWordChar c = true) ∧ readWord? t.spell = some t := by
  have hne {cs : List Char} (hread : readWord? cs = some t) : cs ≠ [] := by
    rintro rfl
    cases hread
  cases t with
  | null => exact ⟨hne rfl, List.all_eq_true.mp rfl, rfl⟩
  | bool b => cases b <;> exact ⟨hne rfl, List.all_eq_true.mp rfl, rfl⟩
  | integer n =>
      have hread := readWord?_toString n
      refine ⟨hne hread, ?_, hread⟩
      intro c hc
      rcases Decimal.isDigit_or_sign hc with hdigit | rfl
      · exact isWordChar_of_isDigit hdigit
      · rfl
  | decimal literal => exact ⟨hne h.2, h.1, h.2⟩
  | _ => cases hword

end Token

/-- A token is cut off where its spelling ends. -/
theorem tokenize?_spell {t : Token} {rest : List Char} (h : t.Legible)
    (hrest : t.isWord = true → EndsWord rest) :
    tokenize? (t.spell ++ rest) = (tokenize? rest).map (t :: ·) := by
  cases hword : t.isWord with
  | true =>
      obtain ⟨hne, hchars, hread⟩ := t.readWord?_spell h hword
      exact tokenize?_word hne hchars hread (hrest hword)
  | false =>
      cases t with
      | text s => exact tokenize?_text s rest
      | openArray | closeArray | openObject | closeObject | comma | colon =>
          exact tokenize?_punctuation rest rfl
      | null | bool b | integer n | decimal literal => cases hword

/-- A text that spells a list of tokens. -/
inductive Spells : List Token → List Char → Prop
  | nil : Spells [] []
  | space {ts : List Token} {c : Char} {cs : List Char} (h : isSpace c = true)
      (rest : Spells ts cs) : Spells ts (c :: cs)
  | token {t : Token} {ts : List Token} {cs : List Char} (h : t.Legible)
      (ends : t.isWord = true → EndsWord cs) (rest : Spells ts cs) :
      Spells (t :: ts) (t.spell ++ cs)

/-- Cutting a text into tokens gives those that it spells. -/
theorem Spells.tokenize?_eq {ts : List Token} {cs : List Char} (h : Spells ts cs) :
    tokenize? cs = some ts := by
  induction h with
  | nil => exact tokenize?_nil
  | space h _ ih => rw [tokenize?_space _ h, ih]
  | token h ends _ ih =>
      rw [tokenize?_spell h ends, ih]
      rfl

end Intcode.Json
