import Intcode.Proofs.Text.Lines
import Intcode.Report
import Mathlib.Data.List.Basic

/-!
# What the table of a report shows

The table has a line for each operation that was executed and for no other, the more frequent ones
first and equally frequent ones in listing order. The sort that puts them in this order is stable,
so it is enough that the lines are in listing order before. No two reports have the same table,
since a line gives away its count and its operation whatever it is aligned to.
-/

namespace Intcode

/-- A stable sort puts the elements in order and leaves those that are equal to the order as they
were. -/
theorem pairwise_mergeSort_stable {α : Type} (le : α → α → Bool) {r : α → α → Prop}
    (trans : ∀ a b c, le a b = true → le b c = true → le a c = true)
    (total : ∀ a b, (le a b || le b a) = true) {l : List α} (h : l.Pairwise r) :
    (l.mergeSort le).Pairwise fun a b => le a b = true ∧ (le b a = true → r a b) := by
  induction l with
  | nil =>
      rw [List.mergeSort_nil]
      exact .nil
  | cons a l ih =>
      obtain ⟨ha, hl⟩ := List.pairwise_cons.mp h
      obtain ⟨before, after, hsort, hrest, hbefore⟩ := List.mergeSort_cons trans total a l
      have hsorted := List.pairwise_mergeSort trans total (a :: l)
      have hold := ih hl
      rw [hsort] at hsorted ⊢
      rw [hrest] at hold
      obtain ⟨hold₁, hold₂, hold₃⟩ := List.pairwise_append.mp hold
      refine List.pairwise_append.mpr ⟨hold₁, List.pairwise_cons.mpr ⟨?_, hold₂⟩, ?_⟩
      · intro b hb
        have hmem : b ∈ l.mergeSort le := by
          rw [hrest]
          exact List.mem_append_right before hb
        have hle := (List.pairwise_append.mp hsorted).2.1
        exact ⟨(List.pairwise_cons.mp hle).1 b hb, fun _ => ha b (List.mem_mergeSort.mp hmem)⟩
      · intro x hx y hy
        rcases List.mem_cons.mp hy with rfl | hy
        · have hnot : le y x = false := by simpa using hbefore x hx
          have hle := total x y
          rw [hnot, Bool.or_false] at hle
          exact ⟨hle, fun h => absurd (h.symm.trans hnot) Bool.noConfusion⟩
        · exact hold₃ x hx y hy

theorem Opcode.mnemonic_inj {a b : Opcode} (h : a.mnemonic = b.mnemonic) : a = b := by
  revert h
  cases a <;> cases b <;> decide

namespace Report

variable {r s : Report} {ops : List Opcode} {entry : Opcode × Nat}

/-- The operations that were executed, the more frequent ones first and equally frequent ones in
listing order. -/
structure Ranked (r : Report) (ops : List Opcode) : Prop where
  mem_iff : ∀ op, op ∈ ops ↔ 0 < r.count op
  ordered : ops.Pairwise fun a b =>
    r.count b < r.count a ∨ r.count a = r.count b ∧ a.index < b.index

/-- No operation is ranked twice. -/
theorem Ranked.nodup (h : Ranked r ops) : ops.Nodup := by
  refine h.ordered.imp ?_
  rintro a b (hlt | ⟨-, hlt⟩) rfl
  · exact Nat.lt_irrefl _ hlt
  · exact Fin.lt_irrefl _ hlt

theorem mem_executed : entry ∈ r.executed ↔ entry.2 = r.count entry.1 ∧ 0 < entry.2 := by
  simp only [executed, List.mem_filter, List.mem_map, decide_eq_true_eq]
  constructor
  · rintro ⟨⟨op, -, rfl⟩, hpos⟩
    exact ⟨rfl, hpos⟩
  · rintro ⟨hcount, hpos⟩
    exact ⟨⟨entry.1, entry.1.mem_all, Prod.ext rfl hcount.symm⟩, hpos⟩

theorem mem_ranking : entry ∈ r.ranking ↔ entry.2 = r.count entry.1 ∧ 0 < entry.2 := by
  rw [ranking, List.mem_mergeSort, mem_executed]

theorem pairwise_executed (r : Report) :
    r.executed.Pairwise fun a b => a.1.index < b.1.index := by
  apply List.Pairwise.filter
  rw [List.pairwise_map]
  exact (by decide : Opcode.all.Pairwise fun a b => a.index < b.index)

theorem ranked_ranking (r : Report) : Ranked r (r.ranking.map Prod.fst) where
  mem_iff op := by
    rw [List.mem_map]
    constructor
    · rintro ⟨entry, hentry, rfl⟩
      obtain ⟨hcount, hpos⟩ := mem_ranking.mp hentry
      rwa [← hcount]
    · exact fun hpos => ⟨(op, r.count op), mem_ranking.mpr ⟨rfl, hpos⟩, rfl⟩
  ordered := by
    have hstable := pairwise_mergeSort_stable (fun x y : Opcode × Nat => x.2 ≥ y.2)
      (by simp; omega) (by simp; omega) r.pairwise_executed
    rw [List.pairwise_map]
    refine hstable.imp_of_mem ?_
    rintro a b ha hb ⟨hle, htie⟩
    rw [← (mem_ranking.mp ha).1, ← (mem_ranking.mp hb).1]
    simp only [ge_iff_le, decide_eq_true_eq] at hle htie
    rcases Nat.lt_or_eq_of_le hle with hlt | heq
    · exact .inl hlt
    · exact .inr ⟨heq.symm, htie (Nat.le_of_eq heq.symm)⟩

/-- A text with blanks in front of it that fill it up to a width. -/
def alignRight (width : Nat) (text : String) : String :=
  String.ofList (List.replicate (width - text.length) ' ') ++ text

/-- The number of columns is the length of the longest count. -/
theorem columns_spec (entries : List (Opcode × Nat)) :
    (∀ entry ∈ entries, (toString entry.2).length ≤ columns entries) ∧
    (entries ≠ [] → ∃ entry ∈ entries, (toString entry.2).length = columns entries) := by
  rw [columns, List.foldl_max]
  cases hmax : (entries.map fun entry => (toString entry.2).length).max? with
  | none =>
      have hnil := List.map_eq_nil_iff.mp (List.max?_eq_none_iff.mp hmax)
      subst hnil
      exact ⟨fun _ h => absurd h List.not_mem_nil, fun h => absurd rfl h⟩
  | some width =>
      obtain ⟨hmem, hle⟩ := List.max?_eq_some_iff.mp hmax
      rw [Option.getD_some, Nat.zero_max]
      exact ⟨List.forall_mem_map.mp hle, fun _ => List.mem_map.mp hmem⟩

theorem tableLine_eq (width : Nat) (entry : Opcode × Nat) :
    tableLine width entry =
      "  " ++ alignRight width (toString entry.2) ++ " " ++ entry.1.mnemonic ++ "\n" := by
  rw [tableLine, alignRight, List.leftpad, String.length_toList, String.ofList_append,
    String.ofList_toList]

example : tableLine 3 (.output, 25) = "   25 out\n" := by
  decide +kernel

/-- The characters of a line of the table, without the line feed. -/
def lineText (width : Nat) (entry : Opcode × Nat) : List Char :=
  (' ' :: ' ' :: (toString entry.2).toList.leftpad width ' ') ++ ' ' :: entry.1.mnemonic.toList

theorem toList_tableLine (width : Nat) (entry : Opcode × Nat) :
    (tableLine width entry).toList = lineText width entry ++ ['\n'] := by
  simp [tableLine, lineText]

theorem count_text_inj {m n : Nat} (h : (toString m).toList = (toString n).toList) : m = n := by
  have hread := congrArg Decimal.readNat? h
  rw [Decimal.readNat?_toString, Decimal.readNat?_toString] at hread
  exact Option.some.inj hread

/-- Only digits are in the text of a count. -/
theorem not_mem_count {c : Char} (hc : c.isDigit = false) (n : Nat) : c ∉ (toString n).toList := by
  intro h
  rw [Nat.toString_eq_ofList_toDigits, String.toList_ofList] at h
  rw [Decimal.isDigit_of_mem_toDigits h] at hc
  cases hc

theorem dropWhile_lineText (width : Nat) (entry : Opcode × Nat) :
    (lineText width entry).dropWhile (· == ' ') =
      (toString entry.2).toList ++ ' ' :: entry.1.mnemonic.toList := by
  have hblanks : ∀ c ∈ ' ' :: ' ' :: List.replicate (width - (toString entry.2).toList.length) ' ',
      (c == ' ') = true := by
    simp
  have hline : lineText width entry =
      ' ' :: ' ' :: List.replicate (width - (toString entry.2).toList.length) ' ' ++
        ((toString entry.2).toList ++ ' ' :: entry.1.mnemonic.toList) := by
    simp [lineText, List.leftpad]
  rw [hline, List.dropWhile_append_of_pos hblanks]
  cases hcount : (toString entry.2).toList with
  | nil =>
      rw [Nat.toString_eq_ofList_toDigits, String.toList_ofList] at hcount
      exact absurd hcount Nat.toDigits_ne_nil
  | cons d ds =>
      have hd : (d == ' ') = false := by
        rw [beq_eq_false_iff_ne]
        rintro rfl
        exact not_mem_count rfl entry.2 (hcount ▸ List.mem_cons_self)
      rw [List.cons_append, List.dropWhile_cons, hd, if_neg Bool.false_ne_true]

theorem blank_not_mem_mnemonic (op : Opcode) : ' ' ∉ op.mnemonic.toList := by
  cases op <;> simp [Opcode.mnemonic]

/-- A line gives away its count and its operation. -/
theorem lineText_inj {width width' : Nat} {a b : Opcode × Nat}
    (h : lineText width a = lineText width' b) : a = b := by
  have hdrop := congrArg (List.dropWhile (· == ' ')) h
  rw [dropWhile_lineText, dropWhile_lineText] at hdrop
  obtain ⟨hcount, -, hmnemonic⟩ := (List.append_cons_inj_of_notMem (not_mem_count rfl a.2)
    (blank_not_mem_mnemonic a.1)).mp hdrop
  exact Prod.ext (Opcode.mnemonic_inj (String.toList_inj.mp hmnemonic)) (count_text_inj hcount)

theorem lineFeed_not_mem_lineText (width : Nat) (entry : Opcode × Nat) :
    '\n' ∉ lineText width entry := by
  have hmnemonic : '\n' ∉ entry.1.mnemonic.toList := by
    cases entry.1 <;> simp [Opcode.mnemonic]
  have hcount : '\n' ∉ (toString entry.2).toList := not_mem_count rfl entry.2
  simp only [lineText, List.leftpad, List.mem_append, List.mem_cons, List.mem_replicate, not_or]
  exact ⟨⟨by decide, by decide, fun h => absurd h.2 (by decide), hcount⟩, by decide, hmnemonic⟩

theorem toList_join_tableLine (width : Nat) (entries : List (Opcode × Nat)) :
    (String.join (entries.map (tableLine width))).toList =
      (entries.map (lineText width)).flatMap fun row => row ++ ['\n'] := by
  rw [String.toList_join, List.flatMap_map, List.flatMap_map]
  exact congrArg (entries.flatMap ·) (funext (toList_tableLine width))

/-- The first line of the table. -/
def heading (r : Report) : String :=
  "opcode counts (" ++ toString r.total ++ " total instructions):"

/-- The last line of the table. -/
def footing (r : Report) : String := "peak memory: " ++ toString r.peak ++ " cells"

/-- The lines of the table. -/
def rows (r : Report) : List (List Char) :=
  r.heading.toList :: (r.ranking.map (lineText (columns r.ranking)) ++ [r.footing.toList])

theorem append_line (text a b c d : String) :
    text ++ a ++ b ++ (c ++ d) = text ++ (a ++ b ++ c ++ d) := by
  simp only [String.append_assoc]

-- Rewriting compares the literals with each other, which is slow, so the equations are put together
-- as terms.
theorem table_eq (r : Report) :
    r.table = r.heading ++ "\n" ++
      String.join (r.ranking.map (tableLine (columns r.ranking))) ++ (r.footing ++ "\n") := by
  have hheading : " total instructions):\n" = " total instructions):" ++ "\n" := by
    simp
  have hfooting : " cells\n" = " cells" ++ "\n" := by
    simp
  have hfirst : "opcode counts (" ++ toString r.total ++ " total instructions):\n" =
      r.heading ++ "\n" :=
    (congrArg ("opcode counts (" ++ toString r.total ++ ·) hheading).trans
      String.append_assoc.symm
  have hlast (text : String) : text ++ "peak memory: " ++ toString r.peak ++ " cells\n" =
      text ++ (r.footing ++ "\n") :=
    (congrArg (text ++ "peak memory: " ++ toString r.peak ++ ·) hfooting).trans
      (append_line text _ _ _ _)
  exact (hlast _).trans (congrArg (· ++ String.join _ ++ (r.footing ++ "\n")) hfirst)

theorem toList_table (r : Report) :
    r.table.toList = r.rows.flatMap fun row => row ++ ['\n'] := by
  rw [table_eq, rows, List.flatMap_cons, List.flatMap_append, List.flatMap_singleton,
    ← toList_join_tableLine]
  simp only [String.toList_append, List.append_assoc]
  rfl

theorem lineFeed_not_mem_framed {a b : String} (n : Nat) (ha : '\n' ∉ a.toList)
    (hb : '\n' ∉ b.toList) : '\n' ∉ (a ++ toString n ++ b).toList := by
  rw [String.toList_append, String.toList_append]
  exact List.not_mem_append (List.not_mem_append ha (not_mem_count rfl n)) hb

theorem framed_inj {a b : String} {m n : Nat}
    (h : (a ++ toString m ++ b).toList = (a ++ toString n ++ b).toList) : m = n := by
  simp only [String.toList_append] at h
  exact count_text_inj (List.append_cancel_left (List.append_cancel_right h))

theorem lines_table (r : Report) : Text.lines r.table.toList = r.rows := by
  rw [toList_table, Text.lines_flatMap]
  rw [rows, List.forall_mem_cons, List.forall_mem_append, List.forall_mem_singleton,
    List.forall_mem_map]
  refine ⟨?_, fun entry _ => lineFeed_not_mem_lineText _ entry, ?_⟩
  · exact lineFeed_not_mem_framed r.total (by simp) (by simp)
  · exact lineFeed_not_mem_framed r.peak (by simp) (by simp)

/-- An entry of the one ranking is in the other if both give the same lines. -/
theorem count_eq_of_lines_eq
    (h : r.ranking.map (lineText (columns r.ranking)) =
      s.ranking.map (lineText (columns s.ranking))) {op : Opcode} (hpos : 0 < r.count op) :
    s.count op = r.count op := by
  have hentry : (op, r.count op) ∈ r.ranking := mem_ranking.mpr ⟨rfl, hpos⟩
  have hline := List.mem_map_of_mem (f := lineText (columns r.ranking)) hentry
  rw [h] at hline
  obtain ⟨entry, hmem, heq⟩ := List.mem_map.mp hline
  rw [lineText_inj heq] at hmem
  exact (mem_ranking.mp hmem).1.symm

/-- A report can be told by its table. -/
theorem eq_of_table_eq (h : r.table = s.table) : r = s := by
  have hrows : r.rows = s.rows := by
    rw [← lines_table, ← lines_table, h]
  have hlength : [r.footing.toList].length = [s.footing.toList].length :=
    List.length_singleton.trans List.length_singleton.symm
  obtain ⟨hlines, hpeak⟩ := List.append_inj' (List.cons.inj hrows).2 hlength
  apply ext_count
  · intro op
    rcases Nat.eq_zero_or_pos (r.count op) with hzero | hpos
    · rcases Nat.eq_zero_or_pos (s.count op) with hzero' | hpos
      · rw [hzero, hzero']
      · exact count_eq_of_lines_eq hlines.symm hpos
    · exact (count_eq_of_lines_eq hlines hpos).symm
  · exact framed_inj (List.singleton_inj.mp hpeak)

/-- In the table, under a heading with the total, there is one line for each operation that was
executed and for no other, the more frequent ones first and equally frequent ones in listing order.
A line holds the count, aligned to the right at the width of the longest one, and the mnemonic. The
peak follows. Reports with the same table are the same. -/
theorem table_lists_executed :
    (∀ r : Report, ∃ ops width, Ranked r ops ∧ ops.Nodup ∧
      (∀ op ∈ ops, (toString (r.count op)).length ≤ width) ∧
      (ops ≠ [] → ∃ op ∈ ops, (toString (r.count op)).length = width) ∧
      r.table = "opcode counts (" ++ toString r.total ++ " total instructions):\n" ++
        String.join (ops.map fun op =>
          "  " ++ alignRight width (toString (r.count op)) ++ " " ++ op.mnemonic ++ "\n") ++
        "peak memory: " ++ toString r.peak ++ " cells\n") ∧
    ∀ r s : Report, r.table = s.table ↔ r = s := by
  refine ⟨?_, fun r s => ⟨eq_of_table_eq, congrArg table⟩⟩
  intro r
  have hcount : ∀ entry ∈ r.ranking, entry.2 = r.count entry.1 := fun entry hentry =>
    (mem_ranking.mp hentry).1
  obtain ⟨hwidest, hattained⟩ := columns_spec r.ranking
  refine ⟨r.ranking.map Prod.fst, columns r.ranking, r.ranked_ranking, r.ranked_ranking.nodup,
    ?_, ?_, ?_⟩
  · rw [List.forall_mem_map]
    intro entry hentry
    rw [← hcount entry hentry]
    exact hwidest entry hentry
  · intro hne
    obtain ⟨entry, hentry, hlength⟩ := hattained (fun hnil => hne (List.map_eq_nil_iff.mpr hnil))
    refine ⟨entry.1, List.mem_map_of_mem hentry, ?_⟩
    rw [← hcount entry hentry, hlength]
  · have hlines : r.ranking.map (tableLine (columns r.ranking)) =
        (r.ranking.map Prod.fst).map fun op => "  " ++
          alignRight (columns r.ranking) (toString (r.count op)) ++ " " ++ op.mnemonic ++ "\n" := by
      rw [List.map_map]
      apply List.map_congr_left
      intro entry hentry
      rw [tableLine_eq, hcount entry hentry]
      rfl
    exact congrArg (fun lines => "opcode counts (" ++ toString r.total ++
      " total instructions):\n" ++ String.join lines ++ "peak memory: " ++ toString r.peak ++
      " cells\n") hlines

end Report

end Intcode
