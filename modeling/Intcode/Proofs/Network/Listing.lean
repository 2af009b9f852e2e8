import Intcode.Network.Run
import Intcode.Proofs.Network.Locality

/-!
# Listings

A listing shows what a machine does, instruction by instruction: the effect of each instruction and
the memory that it leaves. Each line of a listing is checked against one step of the machine, with
nothing queued but the value that the line takes. A run of a machine that is alone with its channels
then follows the whole listing, whatever else is queued behind.
-/

namespace Intcode

/-- The outcome of a step with an effect. -/
def Effect.outcome (e : Effect) : Outcome := .executed e.opcode e.transfer

/-- What some instructions do one after the other, and the memory after each of them. -/
abbrev Listing := List (Effect × Memory)

namespace Listing

/-- The values that are taken, in order. -/
def taken (lines : Listing) : List Int := lines.flatMap (·.1.outcome.taken)

/-- The values that are sent, in order. -/
def sent (lines : Listing) : List Int := lines.flatMap (·.1.outcome.sent)

/-- The machine after all lines. -/
def finish (lines : Listing) (m : Machine) : Machine :=
  lines.foldl (fun m line => m.complete line.1 line.2) m

end Listing

namespace Machine

/-- A machine does what is listed, provided that it finds the values that are taken. -/
def Executes (m : Machine) : Listing → Prop
  | [] => True
  | (e, memory) :: rest => m.step e.outcome.taken.head? = (e.outcome, m.complete e memory) ∧
    (m.complete e memory).Executes rest

/-- A listing can be carried on where it ends. -/
theorem Executes.append {m : Machine} {first rest : Listing} (hfirst : m.Executes first)
    (hrest : (first.finish m).Executes rest) : m.Executes (first ++ rest) := by
  induction first generalizing m with
  | nil => exact hrest
  | cons line first ih => exact ⟨hfirst.1, ih hfirst.2 hrest⟩

/-- The values that are sent are put on record. -/
theorem Executes.diagnostics_finish {m : Machine} {lines : Listing} (h : m.Executes lines) :
    (lines.finish m).diagnostics.toList = m.diagnostics.toList ++ lines.sent := by
  induction lines generalizing m with
  | nil => exact (List.append_nil _).symm
  | cons line rest ih =>
      have hline := diagnostics_step line.1.outcome.taken.head? m
      rw [h.1] at hline
      calc (Listing.finish (line :: rest) m).diagnostics.toList
          = (m.complete line.1 line.2).diagnostics.toList ++ Listing.sent rest := ih h.2
        _ = m.diagnostics.toList ++ line.1.outcome.sent ++ Listing.sent rest := by rw [hline]
        _ = m.diagnostics.toList ++ Listing.sent (line :: rest) := List.append_assoc ..

end Machine

namespace Network

/-- A single machine is alone with its inputs. -/
theorem single_eq_solo (program : Program) (name : String) (inputs : List Int) :
    single program name inputs = solo (.boot name program) inputs [] := by
  have hqueue : Channel.empty.sendAll inputs = .ofList inputs := Channel.ext_toList (by simp)
  unfold single assemble
  simp only [Fin.foldl_succ, Fin.foldl_zero, Vector.map_mk, List.map_toArray, sendAll, modifyAt_eq]
  rw [solo, ← hqueue]
  rfl

/-- One line of a listing is one step of a run. -/
theorem runFrom_line {m : Machine} {e : Effect} {memory : Memory} (hfit : m.Fits)
    (h : m.step e.outcome.taken.head? = (e.outcome, m.complete e memory)) (rest outputs : List Int)
    (made fuel : Nat) :
    runFrom 0 made (fuel + 1) (solo m (e.outcome.taken ++ rest) outputs) =
      runFrom 0 (made + 1) fuel
        (solo (m.complete e memory) rest (outputs ++ e.outcome.sent)) := by
  have hqueued : m.step (e.outcome.taken ++ rest).head? = (e.outcome, m.complete e memory) := by
    have htaken := @Machine.step_of_taken m e.outcome.taken.head? hfit
    rw [h] at htaken
    exact htaken Outcome.noConfusion rest
  have hready : m.Ready (e.outcome.taken ++ rest).head? := by
    rw [← Machine.isInstruction_step, hqueued]
    rfl
  rw [runFrom, solo_machine, solo_waits, if_neg (Bool.eq_false_iff.mp hready.2.1),
    if_neg (Bool.eq_false_iff.mp hready.2.2), solo_step, hqueued, List.drop_left]
  rfl

/-- A machine alone with the values that are taken runs through a listing. -/
theorem runFrom_listing {m : Machine} {lines : Listing} (hfit : m.Fits) (h : m.Executes lines)
    (rest outputs : List Int) (made fuel : Nat) :
    runFrom 0 made (fuel + lines.length) (solo m (lines.taken ++ rest) outputs) =
      runFrom 0 (made + lines.length) fuel
        (solo (lines.finish m) rest (outputs ++ lines.sent)) := by
  induction lines generalizing m outputs made with
  | nil =>
      change runFrom 0 made fuel (solo m rest outputs) =
        runFrom 0 made fuel (solo m rest (outputs ++ []))
      rw [List.append_nil]
  | cons line lines ih =>
      obtain ⟨e, memory⟩ := line
      have hfits : (m.complete e memory).Fits := by
        have hstep := m.fits_step e.outcome.taken.head? hfit
        rwa [h.1] at hstep
      calc runFrom 0 made (fuel + (lines.length + 1))
            (solo m (e.outcome.taken ++ Listing.taken lines ++ rest) outputs)
          = runFrom 0 made (fuel + lines.length + 1)
              (solo m (e.outcome.taken ++ (Listing.taken lines ++ rest)) outputs) := by
            rw [List.append_assoc, Nat.add_assoc]
        _ = runFrom 0 (made + 1 + lines.length) fuel
              (solo (Listing.finish lines (m.complete e memory)) rest
                (outputs ++ e.outcome.sent ++ Listing.sent lines)) := by
            rw [runFrom_line hfit h.1, ih hfits h.2]
        _ = runFrom 0 (made + (lines.length + 1)) fuel
              (solo (Listing.finish lines (m.complete e memory)) rest
                (outputs ++ (e.outcome.sent ++ Listing.sent lines))) := by
            rw [List.append_assoc, Nat.add_assoc, Nat.add_comm 1]

/-- A machine made with the values that a listing takes runs to its end, if it halts there. -/
theorem run_listing {program : Program} {name : String} {lines : Listing}
    (hfit : program.image.size < addressSpace) (h : (Machine.boot name program).Executes lines)
    (hhalted : (lines.finish (.boot name program)).state.halted = true) {limit : Nat}
    (hlimit : lines.length ≤ limit) :
    (single program name lines.taken).run 0 limit =
      (.halted, solo (lines.finish (.boot name program)) [] lines.sent) := by
  obtain ⟨spare, rfl⟩ := Nat.exists_eq_add_of_le' hlimit
  have hfits : (Machine.boot name program).Fits := hfit
  have hrun := runFrom_listing hfits h [] [] 0 spare
  rw [List.append_nil, List.nil_append] at hrun
  rw [single_eq_solo, run, hrun, runFrom_of_halted]
  rwa [solo_machine]

end Network

end Intcode
