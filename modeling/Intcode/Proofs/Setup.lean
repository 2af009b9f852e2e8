import Intcode.Proofs.Network.Reset
import Mathlib.Data.List.DropRight

/-!
# Setups from drafts

A draft can be used again and again. Each setup that it yields holds what was settled since the
setup before and nothing from earlier: the name and the channels that were given last, and all
inputs in the order in which they were given. The machines that are made from setups find their
inputs behind whatever their channels held, just as if the inputs had been written to them later.
-/

namespace Intcode

namespace Draft

variable {κ : Type}

namespace Edit

/-- The name that an edit gives. -/
def name? : Edit κ → Option String
  | name s => some s
  | inputs _ | input _ | output _ => none

/-- The inputs that an edit gives. -/
def values : Edit κ → List Int
  | inputs vs => vs
  | name _ | input _ | output _ => []

/-- The input channel that an edit gives. -/
def input? : Edit κ → Option κ
  | input c => some c
  | name _ | inputs _ | output _ => none

/-- The output channel that an edit gives. -/
def output? : Edit κ → Option κ
  | output c => some c
  | name _ | inputs _ | input _ => none

end Edit

/-- What can be done with a draft. -/
inductive Op (κ : Type)
  | edit (e : Edit κ)
  | build

/-- The edit that an operation makes. -/
def Op.edit? : Op κ → Option (Edit κ)
  | edit e => some e
  | build => none

/-- Perform an operation, and answer with the setup that it yields. -/
def perform (d : Draft κ) : Op κ → Option (Setup κ) × Draft κ
  | .edit e => (none, d.edit e)
  | .build =>
    let (setup, d) := d.build
    (some setup, d)

/-- Perform one operation after the other. -/
def performAll (d : Draft κ) : List (Op κ) → List (Option (Setup κ)) × Draft κ
  | [] => ([], d)
  | op :: rest =>
    let (answer, d) := d.perform op
    let (answers, d) := d.performAll rest
    (answer :: answers, d)

/-- The edits of a history since its last build, or since its start if there is none. -/
def sinceBuild (history : List (Op κ)) : List (Edit κ) :=
  (history.rtakeWhile (·.edit?.isSome)).filterMap Op.edit?

theorem sinceBuild_edit (history : List (Op κ)) (e : Edit κ) :
    sinceBuild (history ++ [.edit e]) = sinceBuild history ++ [e] := by
  simp [sinceBuild, Op.edit?]

theorem sinceBuild_build (history : List (Op κ)) : sinceBuild (history ++ [.build]) = [] := by
  simp [sinceBuild, Op.edit?]

end Draft

/-- The setup that some edits come to: the name and the channels that are given last, or else the
default name and no channels, and all inputs in order. -/
def Setup.ofEdits {κ : Type} (edits : List (Draft.Edit κ)) : Setup κ where
  name := (edits.filterMap Draft.Edit.name?).getLast?.getD defaultName
  inputs := edits.flatMap Draft.Edit.values
  input := (edits.filterMap Draft.Edit.input?).getLast?
  output := (edits.filterMap Draft.Edit.output?).getLast?

namespace Draft

variable {κ : Type}

/-- The draft that some edits come to. -/
def ofEdits (edits : List (Edit κ)) : Draft κ where
  name := (edits.filterMap Edit.name?).getLast?
  inputs := edits.flatMap Edit.values
  input := (edits.filterMap Edit.input?).getLast?
  output := (edits.filterMap Edit.output?).getLast?

/-- One more edit replaces what it gives, or adds to the inputs. -/
theorem ofEdits_append (edits : List (Edit κ)) (e : Edit κ) :
    ofEdits (edits ++ [e]) = (ofEdits edits).edit e := by
  cases e <;> simp [ofEdits, edit, Edit.name?, Edit.values, Edit.input?, Edit.output?]

/-- How an operation is answered after some edits. -/
def Op.answer (edits : List (Edit κ)) : Op κ → Option (Setup κ)
  | edit _ => none
  | build => some (.ofEdits edits)

/-- The draft after a history is the one that the edits since the last build come to. -/
theorem perform_ofEdits (history : List (Op κ)) (op : Op κ) :
    (ofEdits (sinceBuild history)).perform op =
      (op.answer (sinceBuild history), ofEdits (sinceBuild (history ++ [op]))) := by
  cases op with
  | edit e =>
      rw [sinceBuild_edit, ofEdits_append]
      rfl
  | build =>
      rw [sinceBuild_build]
      rfl

/-- Each operation is answered by the edits since the last build before it. -/
theorem performAll_ofEdits (history ops : List (Op κ)) :
    ((ofEdits (sinceBuild history)).performAll ops).1 =
      ops.mapIdx fun i op => op.answer (sinceBuild (history ++ ops.take i)) := by
  induction ops generalizing history with
  | nil => rfl
  | cons op rest ih =>
      -- The invariant: the draft is that of the history so far, which grows by this operation.
      have hrest := ih (history ++ [op])
      simp only [List.append_assoc, List.singleton_append] at hrest
      simp only [performAll, perform_ofEdits, hrest, List.mapIdx_cons, List.take_zero,
        List.append_nil, List.take_succ_cons]

-- Inputs accumulate, the name is given twice, and the second setup has nothing of the first.
example : (performAll {} [.edit (.inputs [1, 2]), .edit (.name "a"), .edit (.input 7),
      .edit (.inputs [3]), .edit (.name "b"), .build, .edit (.output 8), .build]).1 =
    [none, none, none, none, none, some ⟨"b", [1, 2, 3], some 7, none⟩, none,
      some ⟨defaultName, [], none, some 8⟩] := rfl

end Draft

/-- The same part with nothing to be queued. -/
def Part.silent {s : Nat} (p : Part s) : Part s := { p with setup := { p.setup with inputs := [] } }

namespace Network

variable {n k s : Nat}

/-- Inputs that are written to several machines change the channels alone. -/
theorem foldl_writeInputs (values : Fin n → List Int) (places : List (Fin n))
    (net : Network n k) :
    places.foldl (fun net i => net.writeInputs i (values i)) net =
      ⟨net.machines, net.wires,
        places.foldl (fun cs i => sendAll cs (net.wires.get i).input (values i)) net.channels⟩ := by
  induction places generalizing net with
  | nil => rfl
  | cons i rest ih => rw [List.foldl_cons, ih, writeInputs_eq, List.foldl_cons]

/-- Inputs may be queued when the machines are made or be written to them afterwards. -/
theorem assemble_eq_writeInputs (shared : Vector Channel s) (parts : Vector (Part s) n) :
    assemble shared parts =
      (List.finRange n).foldl (fun net i => net.writeInputs i (parts.get i).setup.inputs)
        (assemble shared (parts.map Part.silent)) := by
  have hpart (i : Fin n) : (parts.map Part.silent).get i = (parts.get i).silent :=
    Vector.getElem_map _ i.isLt
  have hmachines : (assemble shared (parts.map Part.silent)).machines =
      (assemble shared parts).machines := by
    apply get_ext
    intro i
    rw [assemble_machine, assemble_machine, hpart]
    rfl
  have hwires : (assemble shared (parts.map Part.silent)).wires =
      (assemble shared parts).wires := by
    apply get_ext
    intro i
    rw [assemble_wire, assemble_wire, hpart]
    rfl
  have hchannels : (assemble shared (parts.map Part.silent)).channels =
      shared ++ Vector.replicate (2 * n) Channel.empty := by
    simp only [assemble_channels, hpart, Part.silent, sendAll_nil, List.foldl_fixed]
  rw [foldl_writeInputs, hmachines, hwires, hchannels]
  simp only [assemble_wire, ← assemble_channels]

/-- Whatever is done with a draft, each build is answered with the setup of the edits since the
build before, and nothing else is answered with a setup. Machines that are made one after the other
from any setups are at the start of their programs, on the channels that their setups name or else
on channels of their own. A channel of its own holds the inputs of its machine; a shared channel
holds what it held before, and then the inputs of the machines that take their values from it, in
the order in which they are made, so that a single machine finds its inputs behind what was there.
The network is the one of the same machines made without inputs, after their inputs are written to
them. -/
theorem setups_never_leak (ops : List (Draft.Op (Fin s))) (shared : Vector Channel s)
    (parts : Vector (Part s) n) :
    (Draft.performAll {} ops).1 =
      ops.mapIdx (fun i op => op.answer (Draft.sinceBuild (ops.take i))) ∧
    let net := assemble shared parts
    (∀ i : Fin n,
      let setup := (parts.get i).setup
      let program := (parts.get i).program
      let wire := net.wires.get i
      net.machines.get i =
        { name := setup.name
          program
          state := ⟨0, 0, ⟨program.image⟩, false, false⟩
          diagnostics := #[]
          report := .empty } ∧
      (∀ c, (wire.input = c.castAdd (2 * n) ↔ setup.input = some c) ∧
        (wire.output = c.castAdd (2 * n) ↔ setup.output = some c)) ∧
      (setup.input = none → (net.channels.get wire.input).toList = setup.inputs) ∧
      (setup.output = none → (net.channels.get wire.output).toList = [])) ∧
    (∀ c : Fin s, (net.channels.get (c.castAdd (2 * n))).toList =
      (shared.get c).toList ++ (List.finRange n).flatMap fun i =>
        if (parts.get i).setup.input = some c then (parts.get i).setup.inputs else []) ∧
    net = (List.finRange n).foldl (fun net i => net.writeInputs i (parts.get i).setup.inputs)
      (assemble shared (parts.map Part.silent)) := by
  refine ⟨Draft.performAll_ofEdits [] ops, ?_, toList_shared shared parts,
    assemble_eq_writeInputs shared parts⟩
  intro i setup program wire
  have hwire : wire = wireOf setup i := assemble_wire shared parts i
  rw [hwire]
  refine ⟨assemble_machine shared parts i, ?_, ?_, ?_⟩
  · intro c
    exact ⟨wireOf_input_eq setup i c, wireOf_output_eq setup i c⟩
  · exact toList_input_of_none shared
  · exact toList_output_of_none shared

end Network

end Intcode
