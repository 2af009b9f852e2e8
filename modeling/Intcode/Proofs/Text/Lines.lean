import Intcode.Proofs.Text.Decimal

/-!
# Lines of a text

A text whose lines all end with a line feed is cut into its lines again. In particular integers that
are written on lines of their own can be read back.
-/

namespace Intcode.Text

/-- The lines of a text, without the line feeds that end them. -/
def lines : List Char → List (List Char)
  | [] => []
  | c :: cs =>
    if c = '\n' then [] :: lines cs
    else
      match lines cs with
      | [] => [[c]]
      | line :: rest => (c :: line) :: rest

theorem lines_append {line : List Char} (rest : List Char) (h : '\n' ∉ line) :
    lines (line ++ '\n' :: rest) = line :: lines rest := by
  induction line with
  | nil => rfl
  | cons c line ih =>
      simp only [List.mem_cons, not_or] at h
      rw [List.cons_append, lines, if_neg (Ne.symm h.1), ih h.2]

/-- Lines that follow each other are the lines of the text. -/
theorem lines_flatMap {rows : List (List Char)} (h : ∀ row ∈ rows, '\n' ∉ row) :
    lines (rows.flatMap fun row => row ++ ['\n']) = rows := by
  induction rows with
  | nil => rfl
  | cons row rows ih =>
      obtain ⟨hrow, hrows⟩ := List.forall_mem_cons.mp h
      rw [List.flatMap_cons, List.append_assoc]
      exact (lines_append _ hrow).trans (congrArg (row :: ·) (ih hrows))

theorem lineFeed_not_mem_toString (v : Int) : '\n' ∉ (toString v).toList := by
  intro h
  rcases Decimal.isDigit_or_sign h with h | h <;> revert h <;> decide

/-- Integers that stand on lines of their own are the lines of the text. -/
theorem lines_join (vs : List Int) :
    lines (String.join (vs.map fun v => toString v ++ "\n")).toList =
      vs.map fun v => (toString v).toList := by
  have htext : (String.join (vs.map fun v => toString v ++ "\n")).toList =
      (vs.map fun v => (toString v).toList).flatMap fun row => row ++ ['\n'] := by
    rw [String.toList_join, List.flatMap_map, List.flatMap_map]
    simp only [String.toList_append]
    rfl
  rw [htext, lines_flatMap]
  exact List.forall_mem_map.mpr fun v _ => lineFeed_not_mem_toString v

/-- Integers that stand on lines of their own are read back. -/
theorem read?_lines_join (vs : List Int) :
    (lines (String.join (vs.map fun v => toString v ++ "\n")).toList).map Decimal.read? =
      vs.map some := by
  rw [lines_join, List.map_map]
  exact List.map_congr_left fun v _ => Decimal.read?_toString v

end Intcode.Text
