import Intcode.Text
import Mathlib.Data.List.DropRight

/-!
# Blanks around a text

Trimming takes away all blanks at both ends and nothing else. So blanks that are put around a text
make no difference once it is trimmed, and a text that begins and ends with other characters stays
as it is.
-/

namespace Intcode.Text

/-- A text of blanks alone. -/
def Blanks (s : List Char) : Prop := ∀ c ∈ s, isBlank c = true

/-- The second text is the first with blanks around it. -/
def Pads (s padded : List Char) : Prop :=
  ∃ before after, Blanks before ∧ Blanks after ∧ padded = before ++ s ++ after

variable {s w : List Char}

theorem isBlank_of_isDigit {c : Char} (h : c.isDigit = true) : isBlank c = false := by
  have hrange : 48 ≤ c.toNat ∧ c.toNat ≤ 57 := Char.isDigit_iff_toNat.mp h
  simp only [isBlank, Bool.or_eq_false_iff, Bool.and_eq_false_iff, beq_eq_false_iff_ne,
    decide_eq_false_iff_not]
  omega

theorem blanks_nil : Blanks [] := fun _ h => absurd h List.not_mem_nil

theorem pads_refl (s : List Char) : Pads s s :=
  ⟨[], [], blanks_nil, blanks_nil, (List.append_nil s).symm⟩

theorem trim_blanks_append (h : Blanks w) (s : List Char) : trim (w ++ s) = trim s := by
  rw [trim, List.dropWhile_append_of_pos h]
  rfl

theorem trim_append_blanks (s : List Char) (h : Blanks w) : trim (s ++ w) = trim s := by
  have hreverse : ∀ c ∈ w.reverse, isBlank c = true := fun c hc => h c (List.mem_reverse.mp hc)
  by_cases hs : Blanks s
  · have hnil : s.dropWhile isBlank = [] := List.dropWhile_eq_nil_iff.mpr hs
    have hw : w.dropWhile isBlank = [] := List.dropWhile_eq_nil_iff.mpr h
    rw [trim, trim, List.dropWhile_append_of_pos hs, hw, hnil]
  · have hne : s.dropWhile isBlank ≠ [] := fun e => hs (List.dropWhile_eq_nil_iff.mp e)
    have happend : (s ++ w).dropWhile isBlank = s.dropWhile isBlank ++ w := by
      rw [List.dropWhile_append, if_neg (by simpa using hne)]
    rw [trim, happend, List.reverse_append, List.dropWhile_append_of_pos hreverse]
    rfl

/-- Blanks around a text are trimmed with the text. -/
theorem trim_of_pads {padded : List Char} (h : Pads s padded) : trim padded = trim s := by
  obtain ⟨before, after, hbefore, hafter, rfl⟩ := h
  rw [trim_append_blanks _ hafter, trim_blanks_append hbefore]

/-- A text is what is left of it when it is trimmed, with blanks around. -/
theorem pads_trim (s : List Char) : Pads (trim s) s := by
  refine ⟨s.takeWhile isBlank, (s.dropWhile isBlank).rtakeWhile isBlank, ?_, ?_, ?_⟩
  · exact fun c hc => List.mem_takeWhile_imp hc
  · exact fun c hc => List.mem_rtakeWhile_imp hc
  · change s = _ ++ (s.dropWhile isBlank).rdropWhile isBlank ++ _
    rw [List.append_assoc, List.rdropWhile_append_rtakeWhile, List.takeWhile_append_dropWhile]

theorem trim_of_blanks (h : Blanks s) : trim s = [] := by
  have hnil : s.dropWhile isBlank = [] := List.dropWhile_eq_nil_iff.mpr h
  rw [trim, hnil]
  rfl

theorem trim_eq_nil_iff : trim s = [] ↔ Blanks s := by
  refine ⟨?_, trim_of_blanks⟩
  intro h
  obtain ⟨before, after, hbefore, hafter, he⟩ := pads_trim s
  rw [h, List.append_nil] at he
  rw [he]
  intro c hc
  exact (List.mem_append.mp hc).elim (hbefore c) (hafter c)

/-- A text none of whose characters is blank stays as it is. -/
theorem trim_of_not_blank (h : ∀ c ∈ s, isBlank c = false) : trim s = s := by
  have hdrop : s.dropWhile isBlank = s := by
    rw [List.dropWhile_eq_self_iff]
    intro hlength
    simp [h _ (List.getElem_mem hlength)]
  change (s.dropWhile isBlank).rdropWhile isBlank = s
  rw [hdrop, List.rdropWhile_eq_self_iff]
  intro hne
  simp [h _ (List.getLast_mem hne)]

end Intcode.Text
