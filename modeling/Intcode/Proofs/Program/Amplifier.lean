import Intcode.Proofs.Machine.Step

/-!
# The feedback amplifier

What the feedback amplifier does between two signals, worked out for every phase, every signal and
every number of laps to go. It works on the last three cells of its memory and on nothing else: they
hold the phase less 4, the signal and the laps to go. Memory never grows.
-/

namespace Intcode

/-- A machine makes steps with the listed transfers one after the other. Where it takes no value, it
makes the same step whatever is waiting. -/
inductive Machine.Passes : Machine → List Transfer → Machine → Prop
  | done (m : Machine) : Passes m [] m
  | step {m next final : Machine} {opcode : Opcode} {t : Transfer} {ts : List Transfer}
      (made : ∀ front, (∀ v, t = .took v → front = some v) →
        m.step front = (.executed opcode t, next))
      (rest : Passes next ts final) : Passes m (t :: ts) final

namespace Machine.Passes

variable {m next final : Machine} {opcode : Opcode} {ts ts' : List Transfer}

theorem trans (first : m.Passes ts next) (rest : next.Passes ts' final) :
    m.Passes (ts ++ ts') final := by
  induction first with
  | done m => exact rest
  | step made _ ih => exact .step made (ih rest)

theorem take {v : Int} (h : m.step (some v) = (.executed opcode (.took v), next))
    (rest : next.Passes ts final) : m.Passes (.took v :: ts) final := by
  refine @step m next final opcode _ ts ?_ rest
  intro front hfront
  rw [hfront v rfl, h]

theorem go {t : Transfer} (h : ∀ front, m.step front = (.executed opcode t, next))
    (rest : next.Passes ts final) : m.Passes (t :: ts) final :=
  .step (fun front _ => h front) rest

end Machine.Passes

namespace Amplifier

/-- The memory of a feedback amplifier, of which only the last three cells ever change. -/
def memory (offset signal laps : Int) : Memory where
  cells := #[3, 26, 1001, 26, -4, 26, 3, 27, 1002, 27, 2, 27, 1, 27, 26, 27, 4, 27, 1001, 28, -1,
    28, 1005, 28, 6, 99, offset, signal, laps]

/-- A feedback amplifier that has come to the instruction at `pc`. -/
def running (name : String) (sent : Array Int) (report : Report) (pc : Nat)
    (offset signal laps : Int) : Machine :=
  ⟨name, .feedbackAmplifier, ⟨pc, 0, memory offset signal laps, false, false⟩, sent, report⟩

/-- A feedback amplifier that has halted. -/
def finished (name : String) (sent : Array Int) (report : Report) (offset signal : Int) : Machine :=
  ⟨name, .feedbackAmplifier, ⟨26, 0, memory offset signal 0, true, false⟩, sent, report⟩

section
variable {name : String} {sent : Array Int} {report : Report} {offset signal laps : Int}

theorem step_phase {phase : Int} :
    (running name sent report 0 offset signal laps).step (some phase) =
      (.executed .input (.took phase),
        running name sent (report.record .input 29) 2 phase signal laps) := rfl

theorem step_offset (front : Option Int) :
    (running name sent report 2 offset signal laps).step front =
      (.executed .add .none,
        running name sent (report.record .add 29) 6 (offset + -4) signal laps) := by
  cases front <;> rfl

theorem step_signal {x : Int} :
    (running name sent report 6 offset signal laps).step (some x) =
      (.executed .input (.took x),
        running name sent (report.record .input 29) 8 offset x laps) := rfl

theorem step_double (front : Option Int) :
    (running name sent report 8 offset signal laps).step front =
      (.executed .mul .none,
        running name sent (report.record .mul 29) 12 offset (signal * 2) laps) := by
  cases front <;> rfl

theorem step_shift (front : Option Int) :
    (running name sent report 12 offset signal laps).step front =
      (.executed .add .none,
        running name sent (report.record .add 29) 16 offset (signal + offset) laps) := by
  cases front <;> rfl

theorem step_send (front : Option Int) :
    (running name sent report 16 offset signal laps).step front =
      (.executed .output (.sent signal),
        running name (sent.push signal) (report.record .output 29) 18 offset signal laps) := by
  cases front <;> rfl

theorem step_count (front : Option Int) :
    (running name sent report 18 offset signal laps).step front =
      (.executed .add .none,
        running name sent (report.record .add 29) 22 offset signal (laps + -1)) := by
  cases front <;> rfl

theorem step_back {left : Nat} (front : Option Int) :
    (running name sent report 22 offset signal (left + 1 : Nat)).step front =
      (.executed .jumpIfTrue .none,
        running name sent (report.record .jumpIfTrue 29) 6 offset signal (left + 1 : Nat)) := by
  cases front <;> rfl

theorem step_leave (front : Option Int) :
    (running name sent report 22 offset signal 0).step front =
      (.executed .jumpIfTrue .none,
        running name sent (report.record .jumpIfTrue 29) 25 offset signal 0) := by
  cases front <;> rfl

theorem step_halt (front : Option Int) :
    (running name sent report 25 offset signal 0).step front =
      (.executed .halt .none, finished name sent (report.record .halt 29) offset signal) := by
  cases front <;> rfl

end

/-- What an amplifier makes of a signal. -/
def amplify (phase x : Int) : Int := 2 * x + phase - 4

/-- An amplifier between two signals, with some laps to go and some values sent so far. Without laps
to go it has halted. -/
def Between (name : String) (phase : Int) (sent : Array Int) : Nat → Machine → Prop
  | 0, m => ∃ report signal, m = finished name sent report (phase - 4) signal
  | laps + 1, m => ∃ report signal,
    m = running name sent report 6 (phase - 4) signal (laps + 1 : Nat)

theorem Between.diagnostics_eq {name : String} {phase : Int} {sent : Array Int} {laps : Nat}
    {m : Machine} (h : Between name phase sent laps m) : m.diagnostics = sent := by
  cases laps with
  | zero =>
      obtain ⟨report, signal, rfl⟩ := h
      rfl
  | succ laps =>
      obtain ⟨report, signal, rfl⟩ := h
      rfl

/-- The transfers of a lap in which signal `x` arrives, with some laps to go after it. -/
def lap (phase x : Int) (laps : Nat) : List Transfer :=
  [.took x, .none, .none, .sent (amplify phase x), .none] ++
    if laps = 0 then [.none, .none] else [.none]

/-- The number of steps of a lap. After the last one there is also the halt. -/
def lapLength (laps : Nat) : Nat := if laps = 0 then 7 else 6

theorem length_lap (phase x : Int) (laps : Nat) : (lap phase x laps).length = lapLength laps := by
  unfold lap lapLength
  split <;> rfl

/-- A new amplifier takes its phase and then has five laps to go. -/
theorem passes_phase (name : String) (phase : Int) :
    ∃ m, (Machine.boot name .feedbackAmplifier).Passes [.took phase, .none] m ∧
      Between name phase #[] 5 m :=
  ⟨_, .take step_phase (.go step_offset (.done _)), _, 0, rfl⟩

/-- A signal is taken, doubled, shifted and sent, and one lap less is to go. -/
theorem passes_signal (name : String) (sent : Array Int) (report : Report)
    (phase signal x laps : Int) :
    ∃ report', (running name sent report 6 (phase - 4) signal laps).Passes
      [.took x, .none, .none, .sent (amplify phase x), .none]
      (running name (sent.push (amplify phase x)) report' 22 (phase - 4) (amplify phase x)
        (laps + -1)) := by
  have hsignal : amplify phase x = x * 2 + (phase - 4) := by
    unfold amplify
    omega
  rw [hsignal]
  exact ⟨_, .take step_signal <| .go step_double <| .go step_shift <| .go step_send <|
    .go step_count (.done _)⟩

/-- In each lap an amplifier takes a signal and sends what it makes of it. After the last lap it
halts. -/
theorem passes_lap {name : String} {phase : Int} {sent : Array Int} {laps : Nat} {m : Machine}
    (h : Between name phase sent (laps + 1) m) (x : Int) :
    ∃ m', m.Passes (lap phase x laps) m' ∧
      Between name phase (sent.push (amplify phase x)) laps m' := by
  obtain ⟨report, signal, rfl⟩ := h
  obtain ⟨report', hsignal⟩ := passes_signal name sent report phase signal x (laps + 1 : Nat)
  have hlaps : ((laps + 1 : Nat) : Int) + -1 = (laps : Nat) := by
    omega
  rw [hlaps] at hsignal
  cases laps with
  | zero => exact ⟨_, hsignal.trans (.go step_leave (.go step_halt (.done _))), _, _, rfl⟩
  | succ laps => exact ⟨_, hsignal.trans (.go step_back (.done _)), _, _, rfl⟩

end Amplifier

end Intcode
