import Intcode.Code

/-!
# Reports

A report counts the executed instructions of each operation and keeps the largest memory size
seen. Reports of several runs add up: counts by sum, sizes by maximum. The table of a report lists
the operations that were executed, most frequent first and equally frequent ones in listing order,
with the counts aligned to the right.
-/

namespace Intcode

/-- Statistics of a run. -/
structure Report where
  counts : Vector Nat 10
  peak : Nat
deriving DecidableEq, Repr

namespace Report

/-- The report of a run without instructions. -/
def empty : Report := ⟨.replicate 10 0, 0⟩

instance : Inhabited Report := ⟨empty⟩

/-- The number of executed instructions with a given operation. -/
def count (r : Report) (op : Opcode) : Nat := r.counts[op.index]

/-- A report with the given counts. -/
def ofCounts (f : Opcode → Nat) (peak : Nat) : Report :=
  ⟨#v[f .add, f .mul, f .input, f .output, f .jumpIfTrue, f .jumpIfFalse, f .lessThan, f .equals,
    f .adjustBase, f .halt], peak⟩

@[simp] theorem count_ofCounts (f : Opcode → Nat) (peak : Nat) (op : Opcode) :
    (ofCounts f peak).count op = f op := by
  cases op <;> rfl

@[simp] theorem count_empty (op : Opcode) : empty.count op = 0 := by
  cases op <;> rfl

/-- A report is made of its counts and its peak. -/
theorem ofCounts_count (r : Report) : ofCounts r.count r.peak = r := by
  obtain ⟨counts, peak⟩ := r
  refine congrArg (mk · peak) (Vector.ext ?_)
  intro i hi
  match i, hi with
  | 0, _ | 1, _ | 2, _ | 3, _ | 4, _ | 5, _ | 6, _ | 7, _ | 8, _ | 9, _ => rfl

/-- Reports are equal if their counts and peaks are. -/
theorem ext_count {r s : Report} (h : ∀ op, r.count op = s.count op) (hpeak : r.peak = s.peak) :
    r = s := by
  rw [← ofCounts_count r, ← ofCounts_count s, funext h, hpeak]

/-- The number of executed instructions. -/
def total (r : Report) : Nat := (Opcode.all.map r.count).foldr (· + ·) 0

@[simp] theorem total_empty : empty.total = 0 := by
  simp [total, Opcode.all]

/-- Count one more instruction, after which memory has the given size. -/
def record (r : Report) (op : Opcode) (size : Nat) : Report :=
  ⟨r.counts.set op.index (r.count op + 1), max r.peak size⟩

theorem count_record (r : Report) (op : Opcode) (size : Nat) (x : Opcode) :
    (r.record op size).count x = r.count x + if x = op then 1 else 0 := by
  by_cases h : x = op
  · subst h
    simp [count, record]
  · have hx : op.index.val ≠ x.index.val := fun e => h (Opcode.index_inj.1 (Fin.ext e)).symm
    simp [count, record, h, hx]

/-- Combine the reports of two runs. -/
def add (r s : Report) : Report :=
  ⟨Vector.zipWith (· + ·) r.counts s.counts, max r.peak s.peak⟩

instance : Add Report := ⟨add⟩

@[simp] theorem count_add (r s : Report) (op : Opcode) :
    (r + s).count op = r.count op + s.count op := by
  change (add r s).count op = _
  simp [count, add]

/-- The operations that were executed, with their counts. -/
def executed (r : Report) : List (Opcode × Nat) :=
  (Opcode.all.map fun op => (op, r.count op)).filter fun entry => 0 < entry.2

/-- The lines of the table: by falling count, then in listing order. -/
def ranking (r : Report) : List (Opcode × Nat) :=
  r.executed.mergeSort fun x y => x.2 ≥ y.2

/-- The number of columns that counts take up. -/
def columns (entries : List (Opcode × Nat)) : Nat :=
  (entries.map fun entry => (toString entry.2).length).foldl max 0

/-- Write one line of the table. -/
def tableLine (width : Nat) (entry : Opcode × Nat) : String :=
  let count := (toString entry.2).toList
  "  " ++ String.ofList (count.leftpad width ' ') ++ " " ++ entry.1.mnemonic ++ "\n"

/-- Write the table of a report. -/
def table (r : Report) : String :=
  "opcode counts (" ++ toString r.total ++ " total instructions):\n" ++
    String.join (r.ranking.map (tableLine (columns r.ranking))) ++
    "peak memory: " ++ toString r.peak ++ " cells\n"

end Report

end Intcode
