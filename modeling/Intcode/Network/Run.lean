import Intcode.Network

/-!
# Runs

A run lets one machine of a network step until it halts or fails. It stops early, with all its
steps made, where the machine would wait for a value or has used up its allowance of steps.
-/

namespace Intcode

/-- How a run ended. -/
inductive RunEnd
  | halted
  | failed (fault : Fault)
  /-- The machine waits for a value. -/
  | blocked (steps : Nat)
  /-- The allowance is used up. -/
  | exhausted (steps : Nat)
deriving DecidableEq, Repr

/-- A step with the registers and memory size that it leaves. -/
structure TraceEntry where
  outcome : Outcome
  pc : Nat
  base : Int
  size : Nat
deriving DecidableEq, Repr

namespace Network

variable {n k : Nat}

/-- Run the `i`-th machine for at most `fuel` steps, of which `made` count as made before. -/
def runFrom (i : Fin n) (made : Nat) : Nat → Network n k → RunEnd × Network n k
  | 0, net =>
    if (net.machines.get i).state.halted then (.halted, net)
    else if net.waits i then (.blocked made, net)
    else (.exhausted made, net)
  | fuel + 1, net =>
    if (net.machines.get i).state.halted then (.halted, net)
    else if net.waits i then (.blocked made, net)
    else
      match net.step i with
      | (.failed fault, net) => (.failed fault, net)
      | (_, net) => runFrom i (made + 1) fuel net

/-- Run the `i`-th machine for at most `limit` steps. -/
def run (net : Network n k) (i : Fin n) (limit : Nat) : RunEnd × Network n k :=
  runFrom i 0 limit net

/-- What the end of a run means to a caller who wants the last output of the `i`-th machine. -/
def verdict (net : Network n k) (i : Fin n) : RunEnd → Except Failure (String × Int) ⊕ RunEnd
  | .halted => .inl (net.machines.get i).result
  | .failed fault => .inl (.error ⟨(net.machines.get i).name, fault⟩)
  | stopped => .inr stopped

/-- Run the `i`-th machine and answer with its name and last output, or with why it stopped. -/
def call (net : Network n k) (i : Fin n) (limit : Nat) :
    (Except Failure (String × Int) ⊕ RunEnd) × Network n k :=
  let (stop, net) := net.run i limit
  (net.verdict i stop, net)

/-- Whether the `i`-th machine makes no further step after an outcome. -/
def comesToRest (net : Network n k) (i : Fin n) : Outcome → Bool
  | .failed _ | .waiting => true
  | .executed .. | .idle => (net.machines.get i).state.halted

/-- Record up to `limit` steps of the `i`-th machine, to the first one that brings it to rest. -/
def trace (i : Fin n) : Nat → Network n k → List TraceEntry × Network n k
  | 0, net => ([], net)
  | limit + 1, net =>
    let (outcome, net) := net.step i
    let s := (net.machines.get i).state
    let entry : TraceEntry := ⟨outcome, s.pc, s.base, s.memory.size⟩
    if net.comesToRest i outcome then ([entry], net)
    else
      let (rest, net) := trace i limit net
      (entry :: rest, net)

end Network

end Intcode
