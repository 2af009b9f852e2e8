import Intcode.Json.Parse
import Intcode.Json.Print
import Intcode.Report

/-!
# The JSON form of reports

A report is a record of its counts, by the names of the operations, and its peak memory size. The
counts are complete and name nothing else; the record may have further fields.
-/

namespace Intcode.Report

/-- Counts and sizes lie below this bound. -/
def countBound : Nat := Nat.pow 2 64

/-- The JSON form of the counts, in listing order. -/
def countsToJson (r : Report) : Json :=
  .object (Opcode.all.map fun op => (some op.name, .integer (Int.ofNat (r.count op))))

/-- The JSON form of a report. -/
def toJson (r : Report) : Json :=
  .object [(some "opcode_counts", r.countsToJson),
    (some "peak_memory_len", .integer (Int.ofNat r.peak))]

/-- Read one count with the name of its operation. -/
def countField? (field : Option String × Json) : Option (Opcode × Nat) := do
  return (← Opcode.ofName? (← field.1), ← field.2.natBelow? countBound)

/-- The last count given for an operation. -/
def lastCount? (counts : List (Opcode × Nat)) (op : Opcode) : Option Nat :=
  (counts.reverse.find? fun entry => entry.1 == op).map Prod.snd

/-- Read the counts. Each operation must be there, and the last count given for it holds. -/
def counts? : Json → Option (Opcode → Nat)
  | .object fields => do
    let counts ← fields.mapM countField?
    if Opcode.all.all fun op => (lastCount? counts op).isSome then
      some fun op => (lastCount? counts op).getD 0
    else none
  | _ => none

/-- Read a report from its JSON form. -/
def ofJson? (v : Json) : Option Report :=
  match v.record? ["opcode_counts", "peak_memory_len"] with
  | some [counts, peak] => do return ofCounts (← counts? counts) (← peak.natBelow? countBound)
  | _ => none

/-- Write a report as JSON text without blanks. -/
def jsonText (r : Report) : String := r.toJson.compact

/-- Write a report as JSON text on lines. -/
def prettyText (r : Report) : String := r.toJson.pretty

/-- Read a report from JSON text. -/
def ofJsonText? (s : String) : Option Report := do ofJson? (← Json.parse? s)

end Intcode.Report
