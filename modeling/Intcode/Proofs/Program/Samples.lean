import Intcode.Proofs.Network.Listing

/-!
# What the sample programs do

Each sample is followed instruction by instruction with its input left open. All that changes in its
memory is the cell of the input and the cell of the last result. Where the way on depends on the
input, the listing ends and there is another one for each case. Pieced together, the listings show
what is sent for every input.
-/

namespace Intcode

open Network

/-- A machine has halted without a fault. It has taken all that was queued for it, and it has sent
just the given outputs. -/
structure Network.Finished {n k : Nat} (net : Network n k) (i : Fin n) (outputs : List Int) :
    Prop where
  halted : (net.machines.get i).state.halted = true
  not_faulted : (net.machines.get i).state.faulted = false
  taken : (net.channels.get (net.wires.get i).input).toList = []
  sent : (net.machines.get i).diagnostics.toList = outputs

/-- A machine made for a program with some inputs runs to a halt within some steps, and has then
finished with the given outputs. -/
def Program.Answers (program : Program) (steps : Nat) (inputs outputs : List Int) : Prop :=
  ∀ limit, steps ≤ limit → ∃ final,
    (single program defaultName inputs).run ⟨0, Nat.one_pos⟩ limit = (.halted, final) ∧
      final.Finished ⟨0, Nat.one_pos⟩ outputs

/-- An instruction of a program that never moves its relative base. -/
def Listing.line (opcode : Opcode) (pc : Nat) (memory : Memory) (transfer : Transfer := .none) :
    Effect × Memory :=
  (⟨opcode, pc, 0, opcode = .halt, transfer⟩, memory)

namespace Samples

open Listing (line)

variable {name : String} {sent : Array Int} {report : Report} {x flag : Int}

/-- The memory of the echo, of which the input overwrites the first cell. -/
def echoMemory (x : Int) : Memory := ⟨#[x, 0, 4, 0, 99]⟩

theorem executes_echo (name : String) (x : Int) : (Machine.boot name .echo).Executes
    [line .input 2 (echoMemory x) (.took x), line .output 4 (echoMemory x) (.sent x),
      line .halt 5 (echoMemory x)] :=
  ⟨rfl, rfl, rfl, trivial⟩

/-- The memory of the test for zero, with the input and the answer. -/
def testMemory (x answer : Int) : Memory :=
  ⟨#[3, 12, 6, 12, 15, 1, 13, 14, 13, 4, 13, 99, x, answer, 1, 9]⟩

theorem executes_zero (name : String) : (Machine.boot name .isNonzero).Executes
    [line .input 2 (testMemory 0 0) (.took 0), line .jumpIfFalse 9 (testMemory 0 0),
      line .output 11 (testMemory 0 0) (.sent 0), line .halt 12 (testMemory 0 0)] :=
  ⟨rfl, rfl, rfl, rfl, trivial⟩

theorem executes_nonzero (name : String) (h : x ≠ 0) : (Machine.boot name .isNonzero).Executes
    [line .input 2 (testMemory x 0) (.took x), line .jumpIfFalse 5 (testMemory x 0),
      line .add 9 (testMemory x 1), line .output 11 (testMemory x 1) (.sent 1),
      line .halt 12 (testMemory x 1)] :=
  -- That the jump is not made shows on the constructor of the input, not on its size.
  match x, h with
  | .ofNat (_ + 1), _ => ⟨rfl, rfl, rfl, rfl, rfl, trivial⟩
  | .negSucc _, _ => ⟨rfl, rfl, rfl, rfl, rfl, trivial⟩

/-- The memory of the comparison, with the last result and the input. -/
def comparisonMemory (flag x : Int) : Memory where
  cells := #[3, 21, 1008, 21, 8, 20, 1005, 20, 22, 107, 8, 21, 20, 1006, 20, 31, 1106, 0, 36, 98,
    flag, x, 1002, 21, 125, 20, 4, 20, 1105, 1, 46, 104, 999, 1105, 1, 46, 1101, 1000, 1, 20, 4,
    20, 1105, 1, 46, 98, 99]

/-- A comparison that has come to the instruction at `pc`. -/
def comparing (name : String) (sent : Array Int) (report : Report) (pc : Nat) (flag x : Int) :
    Machine :=
  ⟨name, .compareToEight, ⟨pc, 0, comparisonMemory flag x, false, false⟩, sent, report⟩

/-- The input is tested for being 8. The flag is given apart, so that what follows can begin with
the flag of its own case. -/
theorem executes_test (name : String) (h : (if x = 8 then 1 else 0) = flag) :
    (Machine.boot name .compareToEight).Executes
      [line .input 2 (comparisonMemory 0 x) (.took x),
        line .equals 6 (comparisonMemory flag x)] := by
  subst h
  exact ⟨rfl, rfl, trivial⟩

/-- The input is not 8, and it is tested for being larger. -/
theorem executes_further (h : (if 8 < x then 1 else 0) = flag) :
    (comparing name sent report 6 0 x).Executes
      [line .jumpIfTrue 9 (comparisonMemory 0 x), line .lessThan 13 (comparisonMemory flag x)] := by
  subst h
  exact ⟨rfl, rfl, trivial⟩

/-- The input is 8, and 125 times as much is sent. -/
theorem executes_equal : (comparing name sent report 6 1 8).Executes
    [line .jumpIfTrue 22 (comparisonMemory 1 8), line .mul 26 (comparisonMemory 1000 8),
      line .output 28 (comparisonMemory 1000 8) (.sent 1000),
      line .jumpIfTrue 46 (comparisonMemory 1000 8), line .halt 47 (comparisonMemory 1000 8)] :=
  ⟨rfl, rfl, rfl, rfl, rfl, trivial⟩

theorem executes_above : (comparing name sent report 13 1 x).Executes
    [line .jumpIfFalse 16 (comparisonMemory 1 x), line .jumpIfFalse 36 (comparisonMemory 1 x),
      line .add 40 (comparisonMemory 1001 x),
      line .output 42 (comparisonMemory 1001 x) (.sent 1001),
      line .jumpIfTrue 46 (comparisonMemory 1001 x), line .halt 47 (comparisonMemory 1001 x)] :=
  ⟨rfl, rfl, rfl, rfl, rfl, rfl, trivial⟩

theorem executes_below : (comparing name sent report 13 0 x).Executes
    [line .jumpIfFalse 31 (comparisonMemory 0 x),
      line .output 33 (comparisonMemory 0 x) (.sent 999),
      line .jumpIfTrue 46 (comparisonMemory 0 x), line .halt 47 (comparisonMemory 0 x)] :=
  ⟨rfl, rfl, rfl, rfl, trivial⟩

/-- The memory of the amplifier, of which only the last two cells ever change. -/
def amplifierMemory (a b : Int) : Memory :=
  ⟨#[3, 15, 3, 16, 1002, 16, 10, 16, 1, 16, 15, 15, 4, 15, 99, a, b]⟩

theorem executes_amplifier (name : String) (phase signal : Int) :
    (Machine.boot name .amplifier).Executes
      [line .input 2 (amplifierMemory phase 0) (.took phase),
        line .input 4 (amplifierMemory phase signal) (.took signal),
        line .mul 8 (amplifierMemory phase (signal * 10)),
        line .add 12 (amplifierMemory (signal * 10 + phase) (signal * 10)),
        line .output 14 (amplifierMemory (signal * 10 + phase) (signal * 10))
          (.sent (signal * 10 + phase)),
        line .halt 15 (amplifierMemory (signal * 10 + phase) (signal * 10))] :=
  ⟨rfl, rfl, rfl, rfl, rfl, rfl, trivial⟩

/-- A program that halts at the end of a listing answers what the listing takes with what it
sends. -/
theorem answers_of_executes {program : Program} {lines : Listing} {steps : Nat}
    {inputs outputs : List Int} (hfit : program.image.size < addressSpace)
    (h : (Machine.boot defaultName program).Executes lines)
    (hend : (lines.finish (.boot defaultName program)).state.halted = true ∧
      (lines.finish (.boot defaultName program)).state.faulted = false)
    (htaken : lines.taken = inputs) (hsent : lines.sent = outputs) (hsteps : lines.length ≤ steps) :
    program.Answers steps inputs outputs := by
  subst htaken hsent
  intro limit hlimit
  exact ⟨_, run_listing hfit h hend.1 (Nat.le_trans hsteps hlimit), hend.1, hend.2, rfl,
    h.diagnostics_finish⟩

theorem answers_echo (x : Int) : Program.echo.Answers 3 [x] [x] :=
  answers_of_executes (by decide) (executes_echo defaultName x) ⟨rfl, rfl⟩ rfl rfl (Nat.le_refl 3)

theorem answers_isNonzero (x : Int) :
    Program.isNonzero.Answers 5 [x] [if x = 0 then 0 else 1] := by
  by_cases h : x = 0
  · subst h
    exact answers_of_executes (by decide) (executes_zero defaultName) ⟨rfl, rfl⟩ rfl rfl
      (Nat.le_add_right 4 1)
  · rw [if_neg h]
    exact answers_of_executes (by decide) (executes_nonzero defaultName h) ⟨rfl, rfl⟩ rfl rfl
      (Nat.le_refl 5)

theorem answers_compareToEight (x : Int) : Program.compareToEight.Answers 10 [x]
    [if x < 8 then 999 else if x = 8 then 1000 else 1001] := by
  have hfit : Program.compareToEight.image.size < addressSpace := by decide
  rcases Int.lt_trichotomy x 8 with h | rfl | h
  · have hbelow := (executes_test defaultName (if_neg (Int.ne_of_lt h))).append
      ((executes_further (if_neg (Int.lt_asymm h))).append executes_below)
    rw [if_pos h]
    exact answers_of_executes hfit hbelow ⟨rfl, rfl⟩ rfl rfl (Nat.le_add_right 8 2)
  · have hequal := (executes_test defaultName (if_pos rfl)).append executes_equal
    exact answers_of_executes hfit hequal ⟨rfl, rfl⟩ rfl rfl (Nat.le_add_right 7 3)
  · have habove := (executes_test defaultName (if_neg (Int.ne_of_gt h))).append
      ((executes_further (if_pos h)).append executes_above)
    rw [if_neg (Int.lt_asymm h), if_neg (Int.ne_of_gt h)]
    exact answers_of_executes hfit habove ⟨rfl, rfl⟩ rfl rfl (Nat.le_refl 10)

theorem answers_amplifier (phase signal : Int) :
    Program.amplifier.Answers 6 [phase, signal] [10 * signal + phase] := by
  rw [Int.mul_comm]
  exact answers_of_executes (by decide) (executes_amplifier defaultName phase signal) ⟨rfl, rfl⟩
    rfl rfl (Nat.le_refl 6)

/-- What an amplifier that was made for it answers to a phase and a signal, if the call comes to an
end with an output. -/
def relay (limit : Nat) (signal phase : Int) : Option Int :=
  match ((single .amplifier defaultName [phase, signal]).call ⟨0, Nat.one_pos⟩ limit).1 with
  | .inl (.ok (_, v)) => some v
  | _ => none

theorem relay_eq {limit : Nat} (hlimit : 6 ≤ limit) (signal phase : Int) :
    relay limit signal phase = some (10 * signal + phase) := by
  obtain ⟨final, hrun, hfinal⟩ := answers_amplifier phase signal limit hlimit
  have hlast : (final.machines.get ⟨0, Nat.one_pos⟩).diagnostics.back? =
      some (10 * signal + phase) := by
    rw [← Array.getLast?_toList, hfinal.sent]
    rfl
  simp only [relay, call, hrun, verdict, Machine.result, hlast]

/-- A signal is passed on from one amplifier to the next. -/
theorem foldlM_relay {limit : Nat} (hlimit : 6 ≤ limit) (phases : List Int) (signal : Int) :
    phases.foldlM (relay limit) signal =
      some (phases.foldl (fun signal phase => 10 * signal + phase) signal) := by
  induction phases generalizing signal with
  | nil => rfl
  | cons phase phases ih =>
      rw [List.foldlM_cons, relay_eq hlimit]
      exact ih (10 * signal + phase)

/-- The samples do what they are for, whatever integers they are given. The echo sends its input.
The test sends 0 for zero and 1 for all else. The comparison sends 999, 1000 or 1001 for an input
below, equal to or above 8. All three halt without a fault and with their input taken. Amplifiers
that are called one after the other, each with its phase and what the one before answered, all
succeed, and ten times the signal plus the phase is what each makes of it. -/
theorem samples_answer :
    (∀ x : Int, Program.echo.Answers 3 [x] [x] ∧
      Program.isNonzero.Answers 5 [x] [if x = 0 then 0 else 1] ∧
      Program.compareToEight.Answers 10 [x]
        [if x < 8 then 999 else if x = 8 then 1000 else 1001]) ∧
    ∀ (spare : Nat) (phases : List Int), phases.foldlM (relay (6 + spare)) 0 =
      some (phases.foldl (fun signal phase => 10 * signal + phase) 0) := by
  constructor
  · intro x
    exact ⟨answers_echo x, answers_isNonzero x, answers_compareToEight x⟩
  · intro spare phases
    exact foldlM_relay (Nat.le_add_right 6 spare) phases 0

end Samples

end Intcode
