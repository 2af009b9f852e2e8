/-!
# Setups

A setup says how a machine is to be made: its name, the values queued for it, and the channels
it is connected to. A draft collects these settings and starts afresh with every setup it yields.
-/

namespace Intcode

/-- The name of a machine that was given none. -/
def defaultName : String := "default-name"

/-- How to make a machine. The type `κ` identifies channels. -/
structure Setup (κ : Type) where
  name : String := defaultName
  /-- The values queued on the input channel when the machine is made. -/
  inputs : List Int := []
  /-- The input channel, or none for a channel of its own. -/
  input : Option κ := none
  /-- The output channel, or none for a channel of its own. -/
  output : Option κ := none

/-- A setup in the making. -/
structure Draft (κ : Type) where
  name : Option String := none
  inputs : List Int := []
  input : Option κ := none
  output : Option κ := none

namespace Draft

variable {κ : Type}

/-- Settings that can be added to a draft. -/
inductive Edit (κ : Type)
  | name (s : String)
  | inputs (vs : List Int)
  | input (c : κ)
  | output (c : κ)

/-- Add a setting. Inputs accumulate, and everything else is replaced. -/
def edit (d : Draft κ) : Edit κ → Draft κ
  | .name s => { d with name := some s }
  | .inputs vs => { d with inputs := d.inputs ++ vs }
  | .input c => { d with input := some c }
  | .output c => { d with output := some c }

/-- Yield the setup and an empty draft. -/
def build (d : Draft κ) : Setup κ × Draft κ :=
  (⟨d.name.getD defaultName, d.inputs, d.input, d.output⟩, {})

end Draft

end Intcode
