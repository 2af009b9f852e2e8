import Intcode.Network
import Std.Data.ExtTreeMap

/-!
# Pools

Running a whole network to completion collects the last output of every machine under its name.
Results are collected in the order in which they arrive: a later result of the same name replaces
an earlier one, and the first failure is the result of the pool.
-/

namespace Intcode

/-- The result of one machine. -/
abbrev Arrival := Except Failure (String × Int)

/-- The last outputs by name. -/
abbrev Outputs := Std.ExtTreeMap String Int

/-- Collect results in the order of their arrival. -/
def collect (arrivals : List Arrival) : Except Failure Outputs :=
  arrivals.foldlM (fun outputs r => r.map fun (name, v) => outputs.insert name v) ∅

namespace Network

variable {n k : Nat}

/-- Give a machine its turn: a step, or its result if it has come to an end. -/
def turn (net : Network n k) (i : Fin n) : Option Arrival × Network n k :=
  if (net.machines.get i).state.halted then (some (net.machines.get i).result, net)
  else
    match net.step i with
    | (.failed fault, net) => (some (.error ⟨(net.machines.get i).name, fault⟩), net)
    | (_, net) => (none, net)

/-- Give each of the pending machines a turn, and list those still pending and the results. -/
def round : List (Fin n) → Network n k → (List (Fin n) × List Arrival) × Network n k
  | [], net => (([], []), net)
  | i :: rest, net =>
    let (arrival, net) := net.turn i
    let ((pending, arrivals), net) := round rest net
    match arrival with
    | some r => ((pending, r :: arrivals), net)
    | none => ((i :: pending, arrivals), net)

/-- Go round the pending machines until all have ended or wait, or one of them fails. -/
def settle : Nat → List (Fin n) → List Arrival → Network n k → List Arrival × Network n k
  | 0, _, arrivals, net => (arrivals, net)
  | fuel + 1, pending, arrivals, net =>
    if pending.all net.waits then (arrivals, net)
    else
      let ((pending, arrived), net) := net.round pending
      if arrived.any (! ·.isOk) then (arrivals ++ arrived, net)
      else settle fuel pending (arrivals ++ arrived) net

/-- Run all machines in turn for at most `fuel` rounds and collect what arrives. There is no
answer if a machine is still at work, or waits, and none has failed. -/
def runAll (fuel : Nat) (net : Network n k) :
    Option (Except Failure Outputs) × Network n k :=
  let (arrivals, net) := settle fuel (List.finRange n) [] net
  let answer :=
    if arrivals.length = n || arrivals.any (! ·.isOk) then some (collect arrivals) else none
  (answer, net)

end Network

end Intcode
