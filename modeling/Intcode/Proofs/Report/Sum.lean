import Intcode.Report.Json
import Mathlib.Algebra.BigOperators.Group.List.Basic
import Mathlib.Algebra.GroupWithZero.Nat
import Mathlib.Algebra.Order.Group.Nat

/-!
# Sums of reports

Reports are combined by adding them up in pairs. As a commutative monoid they have one sum for each
collection of reports, whatever the order and the brackets. A report can also be added to another
one in place, one count after the other, and with numbers of a limited size; as long as the sums of
the counts stay below the limit, this comes to the same.
-/

namespace Intcode

namespace Report

instance : Zero Report := ⟨empty⟩

@[simp] theorem count_zero (op : Opcode) : (0 : Report).count op = 0 := count_empty op

@[simp] theorem peak_zero : (0 : Report).peak = 0 := rfl

@[simp] theorem peak_add (r s : Report) : (r + s).peak = max r.peak s.peak := rfl

instance : AddCommMonoid Report where
  add_assoc a b c := by
    apply ext_count
    · intro op
      simp only [count_add, Nat.add_assoc]
    · simp only [peak_add, Nat.max_assoc]
  zero_add a := by
    apply ext_count <;> simp
  add_zero a := by
    apply ext_count <;> simp
  add_comm a b := by
    apply ext_count
    · intro op
      simp only [count_add, Nat.add_comm]
    · simp only [peak_add, Nat.max_comm]
  nsmul := nsmulRec

theorem total_add (r s : Report) : (r + s).total = r.total + s.total := by
  simp only [total, Opcode.all, List.map_cons, List.map_nil, List.foldr_cons, List.foldr_nil,
    count_add]
  omega

theorem count_sum (rs : List Report) (op : Opcode) :
    rs.sum.count op = (rs.map fun r => r.count op).sum := by
  induction rs with
  | nil => exact count_zero op
  | cons r rs ih => rw [List.sum_cons, count_add, ih, List.map_cons, List.sum_cons]

theorem peak_sum (rs : List Report) : rs.sum.peak = (rs.map peak).foldr max 0 := by
  induction rs with
  | nil => rfl
  | cons r rs ih => rw [List.sum_cons, peak_add, ih, List.map_cons, List.foldr_cons]

theorem total_sum (rs : List Report) : rs.sum.total = (rs.map total).sum := by
  induction rs with
  | nil => exact total_empty
  | cons r rs ih => rw [List.sum_cons, total_add, ih, List.map_cons, List.sum_cons]

/-- Put a count in its place. -/
def put (r : Report) (i : Fin 10) (n : Nat) : Report := ⟨r.counts.set i n i.isLt, r.peak⟩

/-- Add two counts, unless they reach the bound of counts together. -/
def plus? (a b : Nat) : Option Nat := if a + b < countBound then some (a + b) else none

/-- The number of executed instructions, with the counts added up one after the other. -/
def total? (r : Report) : Option Nat := Opcode.all.foldlM (fun sum op => plus? sum (r.count op)) 0

/-- Raise one count, unless it would reach the bound of counts. -/
def raise? (r : Report) (op : Opcode) (n : Nat) : Option Report := do
  return r.put op.index (← plus? (r.count op) n)

/-- Add a report to a total in place, one count after the other and the peak at the end. -/
def addInPlace? (total r : Report) : Option Report := do
  let raised ← Opcode.all.foldlM (fun total op => total.raise? op (r.count op)) total
  return ⟨raised.counts, max raised.peak r.peak⟩

theorem plus?_eq {a b : Nat} (h : a + b < countBound) : plus? a b = some (a + b) := if_pos h

/-- No sum on the way is larger than the last one. -/
theorem foldlM_plus? (counts : Opcode → Nat) (ops : List Opcode) {sum : Nat}
    (h : sum + (ops.map counts).foldr (· + ·) 0 < countBound) :
    ops.foldlM (fun sum op => plus? sum (counts op)) sum =
      some (sum + (ops.map counts).foldr (· + ·) 0) := by
  induction ops generalizing sum with
  | nil => rfl
  | cons op ops ih =>
      rw [List.map_cons, List.foldr_cons, ← Nat.add_assoc] at h ⊢
      rw [List.foldlM_cons, plus?_eq (Nat.lt_of_le_of_lt (Nat.le_add_right _ _) h)]
      exact ih h

/-- As long as the total stays below the bound, it can be added up. -/
theorem total?_eq {r : Report} (h : r.total < countBound) : r.total? = some r.total := by
  unfold total at h ⊢
  rw [← Nat.zero_add (List.foldr _ _ _)] at h ⊢
  exact foldlM_plus? r.count Opcode.all h

/-- Raising a count changes nothing else. -/
theorem raise?_eq {r : Report} {op : Opcode} {n : Nat} (h : r.count op + n < countBound) :
    ∃ raised, r.raise? op n = some raised ∧ raised.peak = r.peak ∧
      raised.count op = r.count op + n ∧ ∀ x, x ≠ op → raised.count x = r.count x := by
  refine ⟨r.put op.index (r.count op + n), ?_, rfl, ?_, ?_⟩
  · rw [raise?, plus?_eq h]
    rfl
  · simp [count, put]
  · intro x hx
    have hindex : op.index.val ≠ x.index.val := fun e => hx (Opcode.index_inj.1 (Fin.ext e)).symm
    simp [count, put, hindex]

/-- Each count that a pass comes to is raised once, and the others stay as they are. -/
theorem foldlM_raise? {ops : List Opcode} (hnodup : ops.Nodup) (r : Report) {total : Report}
    (h : ∀ op ∈ ops, total.count op + r.count op < countBound) :
    ∃ raised, ops.foldlM (fun total op => total.raise? op (r.count op)) total = some raised ∧
      raised.peak = total.peak ∧ (∀ op ∈ ops, raised.count op = total.count op + r.count op) ∧
      ∀ op, op ∉ ops → raised.count op = total.count op := by
  induction ops generalizing total with
  | nil => exact ⟨total, rfl, rfl, fun op hop => absurd hop List.not_mem_nil, fun _ _ => rfl⟩
  | cons op ops ih =>
      obtain ⟨hop, hnodup⟩ := List.nodup_cons.mp hnodup
      obtain ⟨next, hnext, hpeak, hself, hothers⟩ := raise?_eq (h op List.mem_cons_self)
      have hne {x : Opcode} (hx : x ∈ ops) : x ≠ op := fun e => hop (e ▸ hx)
      have hrest : ∀ x ∈ ops, next.count x + r.count x < countBound := by
        intro x hx
        rw [hothers x (hne hx)]
        exact h x (.tail op hx)
      obtain ⟨raised, hraised, hpeak', hin, hout⟩ := ih hnodup hrest
      refine ⟨raised, ?_, hpeak'.trans hpeak, ?_, ?_⟩
      · rw [List.foldlM_cons, hnext]
        exact hraised
      · rw [List.forall_mem_cons]
        refine ⟨(hout op hop).trans hself, ?_⟩
        intro x hx
        rw [hin x hx, hothers x (hne hx)]
      · intro x hx
        obtain ⟨hxop, hxops⟩ := not_or.mp (List.mem_cons.not.mp hx)
        rw [hout x hxops, hothers x hxop]

/-- As long as the counts stay below the bound, adding in place is adding. -/
theorem addInPlace?_eq {total r : Report} (h : ∀ op, (total + r).count op < countBound) :
    total.addInPlace? r = some (total + r) := by
  simp only [count_add] at h
  obtain ⟨raised, hraised, hpeak, hcount, -⟩ :=
    foldlM_raise? (by decide : Opcode.all.Nodup) r fun op _ => h op
  rw [addInPlace?, hraised]
  refine congrArg some (ext_count ?_ ?_)
  · intro op
    rw [count_add]
    exact hcount op op.mem_all
  · rw [peak_add, ← hpeak]

/-- A way to combine reports: in pairs, with any brackets, from single reports and from empty
ones. -/
inductive Combination
  | empty
  | report (r : Report)
  | add (a b : Combination)

namespace Combination

/-- The reports that are combined, in order. -/
def reports : Combination → List Report
  | empty => []
  | report r => [r]
  | add a b => a.reports ++ b.reports

/-- The report that a combination comes to. -/
def combined : Combination → Report
  | empty => .empty
  | report r => r
  | add a b => a.combined + b.combined

/-- The report that a combination comes to if each sum is made in place. -/
def combinedInPlace? : Combination → Option Report
  | empty => some .empty
  | report r => some r
  | add a b => do (← a.combinedInPlace?).addInPlace? (← b.combinedInPlace?)

theorem combined_eq_sum (t : Combination) : t.combined = t.reports.sum := by
  induction t with
  | empty => rfl
  | report r => exact List.sum_singleton.symm
  | add a b iha ihb => rw [combined, reports, List.sum_append, iha, ihb]

/-- No sum within a combination is larger than the whole. -/
theorem combinedInPlace?_eq {t : Combination} (h : ∀ op, t.combined.count op < countBound) :
    t.combinedInPlace? = some t.combined := by
  induction t with
  | empty => rfl
  | report r => rfl
  | add a b iha ihb =>
      have ha (op : Opcode) : a.combined.count op < countBound := by
        refine Nat.lt_of_le_of_lt (Nat.le_add_right _ (b.combined.count op)) ?_
        rw [← count_add]
        exact h op
      have hb (op : Opcode) : b.combined.count op < countBound := by
        refine Nat.lt_of_le_of_lt (Nat.le_add_left _ (a.combined.count op)) ?_
        rw [← count_add]
        exact h op
      rw [combinedInPlace?, iha ha, ihb hb]
      exact addInPlace?_eq h

end Combination

/-- Reports whose counts add up to machine numbers come to the same report in whatever order and
with whatever brackets they are combined, with empty reports among them or not, and also if each sum
is made in place. It has the sums of the counts and the largest of the peaks. Its total is the sum
of the totals, and is found by adding up its counts if it is a machine number itself. -/
theorem combinations_agree (rs : List Report)
    (h : ∀ op, (rs.map fun r => r.count op).sum < countBound) :
    ∃ sum : Report,
      (∀ op, sum.count op = (rs.map fun r => r.count op).sum) ∧
      sum.peak = (rs.map peak).foldr max 0 ∧
      sum.total = (rs.map total).sum ∧
      ((rs.map total).sum < countBound → sum.total? = some (rs.map total).sum) ∧
      ∀ t : Combination, t.reports.Perm rs →
        t.combined = sum ∧ t.combinedInPlace? = some sum := by
  refine ⟨rs.sum, count_sum rs, peak_sum rs, total_sum rs, ?_, ?_⟩
  · rw [← total_sum]
    exact total?_eq
  · intro t ht
    have hsum : t.combined = rs.sum := t.combined_eq_sum.trans ht.sum_eq
    refine ⟨hsum, ?_⟩
    rw [Combination.combinedInPlace?_eq, hsum]
    intro op
    rw [hsum, count_sum]
    exact h op

/-- Two reports whose outputs come to the largest machine number, the second one first and behind an
empty report. -/
theorem combinations_agree_largest :
    let r := ofCounts (fun op => if op = .output then 9223372036854775808 else 1) 3
    let s := ofCounts (fun op => if op = .output then 9223372036854775807 else 0) 9
    ∃ sum : Report, sum.count .output = 18446744073709551615 ∧ sum.peak = 9 ∧
      Combination.combinedInPlace? (.add (.add .empty (.report s)) (.report r)) = some sum := by
  intro r s
  let t := Combination.add (.add .empty (.report s)) (.report r)
  have ht : t.reports.Perm [r, s] := .swap r s []
  have hbound : ∀ op, ([r, s].map fun r => r.count op).sum < countBound := by
    intro op
    cases op <;> decide
  obtain ⟨sum, hcount, hpeak, -, -, hagree⟩ := combinations_agree [r, s] hbound
  refine ⟨sum, ?_, hpeak, (hagree t ht).2⟩
  rw [hcount]
  simp [r, s]

end Report

end Intcode
