import Intcode.CommandLine.Run
import Intcode.Proofs.Network.Accounting
import Intcode.Proofs.Report.Json
import Intcode.Proofs.Text.Lines

/-!
# What the run command prints

Everything that can go wrong in a run comes before the first output is printed. So the command
prints all of the outputs and the report that was asked for, or it prints nothing and gives the
reason. What it prints can be read back: the lines of the first text give the outputs, whatever
their size, and a report in JSON form gives the report.
-/

namespace Intcode

namespace Network

theorem machine_single (program : Program) (name : String) (inputs : List Int) :
    (single program name inputs).machines.get 0 = .boot name program :=
  assemble_machine _ _ 0

/-- The reported size of a machine that was started on an image that fits the address space is a
machine number. -/
theorem peak_run_lt {n k : Nat} {net : Network n k} {i : Fin n} {name : String} {program : Program}
    (hboot : net.machines.get i = .boot name program) (hfit : program.image.size < addressSpace)
    (limit : Nat) : ((net.run i limit).2.machines.get i).report.peak < addressSpace := by
  have hrun : ((net.run i limit).2.machines.get i).Fits ∧
      ∃ steps, ((net.run i limit).2.machines.get i).Accounts steps := by
    apply runFrom_preserves (P := fun net => (net.machines.get i).Fits ∧
      ∃ steps, (net.machines.get i).Accounts steps)
    · rintro net' ⟨hfits, steps, haccounts⟩
      refine ⟨fits_step_self hfits, ?_⟩
      rw [step_machine_self]
      exact ⟨_, haccounts.step (net'.front? i)⟩
    · rw [hboot]
      exact ⟨hfit, [], Machine.accounts_boot name program⟩
  obtain ⟨hfits, steps, haccounts⟩ := hrun
  exact Nat.lt_of_le_of_lt haccounts.peak_le hfits

end Network

namespace CommandLine

namespace Printing

theorem exec_bind {x y : Printing Unit} {p q : Printed} (h : x.exec p = (.ok (), q)) :
    (x >>= fun _ => y).exec p = y.exec q := by
  change StateT.run ((x >>= fun _ => y).run) p = _
  change StateT.run x.run p = _ at h
  rw [ExceptT.run_bind, StateT.run_bind, h]
  rfl

theorem exec_out (s : String) (p : Printed) :
    (out s).exec p = (.ok (), { p with out := p.out ++ s }) := rfl

theorem exec_diag (s : String) (p : Printed) :
    (diag s).exec p = (.ok (), { p with diag := p.diag ++ s }) := rfl

/-- Texts that are printed one by one follow each other. -/
theorem exec_forM_out {α : Type} (f : α → String) (vs : List α) (p : Printed) :
    (vs.forM fun v => out (f v)).exec p =
      (.ok (), { p with out := p.out ++ String.join (vs.map f) }) := by
  induction vs generalizing p with
  | nil =>
      rw [List.map_nil, String.join_nil, String.append_empty]
      rfl
  | cons v vs ih =>
      change (out (f v) >>= fun _ => vs.forM fun v => out (f v)).exec p = _
      rw [exec_bind (exec_out (f v) p), ih, List.map_cons, String.join_cons, String.append_assoc]

end Printing

namespace RunOptions

variable {o : RunOptions} {source : Except ReadError String} {text : String} {program : Program}

/-- A machine that has halted is printed in full. -/
theorem exec_print (o : RunOptions) (m : Machine) :
    (o.print m).exec {} =
      (.ok (), ⟨String.join (m.diagnostics.toList.map fun v => toString v ++ "\n"),
        o.reportText m.report⟩) := by
  rw [print, Printing.exec_bind (Printing.exec_forM_out _ _ _), Printing.exec_diag]
  simp only [String.empty_append]

theorem perform_of_load_error {e : RunError} (h : o.load source = .error e) (fuel : Nat) :
    o.perform source fuel = throw (.failed e) := by
  rw [perform, h]

theorem perform_of_load (h : o.load source = .ok program) (fuel : Nat) :
    o.perform source fuel =
      o.conclude ((o.start program).run 0 fuel).2 ((o.start program).run 0 fuel).1 := by
  rw [perform, h]

theorem load_of_malformed {e : Program.TextError} (h : Program.parse text = .error e) :
    o.load (.ok text) = .error (.malformed o.program e) := by
  rw [load, h]
  rfl

theorem load_of_parsed (h : Program.parse text = .ok program) :
    o.load (.ok text) = .ok program := by
  rw [load, h]
  rfl

/-- Whatever the file holds, a command that fails has printed nothing by then. -/
theorem printed_of_execute_error {e : RunError} {printed : Printed} {fuel : Nat}
    (h : o.execute source fuel = some (.error e, printed)) : printed = {} := by
  rw [execute] at h
  cases hload : o.load source with
  | error cause =>
      rw [perform_of_load_error hload] at h
      cases h
      rfl
  | ok program =>
      rw [perform_of_load hload] at h
      cases hend : ((o.start program).run 0 fuel).1 with
      | halted =>
          -- Once the outputs are being printed there is nothing left that could fail.
          rw [hend, conclude, Printing.answer, exec_print] at h
          cases h
      | failed fault =>
          rw [hend] at h
          cases h
          rfl
      | blocked steps | exhausted steps =>
          rw [hend] at h
          cases h

/-- A command that finishes within its allowance does the same within a larger one. -/
theorem perform_of_le {fuel more : Nat} (hle : fuel ≤ more)
    (h : ((o.perform source fuel).exec {}).1 ≠ .error .unfinished) :
    o.perform source more = o.perform source fuel := by
  cases hload : o.load source with
  | error e => rw [perform_of_load_error hload, perform_of_load_error hload]
  | ok program =>
      rw [perform_of_load hload] at h ⊢
      have hended (steps : Nat) : ((o.start program).run 0 fuel).1 ≠ .exhausted steps := by
        intro hexhausted
        rw [hexhausted] at h
        exact h rfl
      have hrun : (o.start program).run 0 more = (o.start program).run 0 fuel :=
        Network.runFrom_of_le hle hended
      rw [hrun, perform_of_load hload]

/-- A report that is printed in JSON form is read back. -/
theorem ofJsonText?_report (hfit : program.image.size < addressSpace) (fuel : Nat) :
    let m := ((o.start program).run 0 fuel).2.machines.get 0
    (∀ op, m.report.count op < Report.countBound) →
      Report.ofJsonText? (m.report.prettyText ++ "\n") = some m.report := by
  intro m hcounts
  have hpeak : m.report.peak < addressSpace :=
    Network.peak_run_lt (Network.machine_single program o.name o.inputs) hfit fuel
  exact Report.ofJsonText?_prettyText hcounts hpeak (List.all_eq_true.mp rfl)

/-- The run command prints all or nothing. A text that is no program and a machine that fails end it
with the error, and nothing is printed even if there were outputs before. If the machine halts, its
outputs are printed on lines from which they can be read back, and the report is printed in the form
that was asked for: none, the table, or a JSON text that is read back as the report if its numbers
are machine numbers. Once the command finishes, a larger allowance of steps makes no difference. -/
theorem prints_all_or_nothing (o : RunOptions) (text : String) (fuel : Nat) :
    (∀ e, Program.parse text = .error e →
      (o.perform (.ok text) fuel).exec {} =
        (.error (.failed (.malformed o.program e)), ⟨"", ""⟩)) ∧
    (∀ program, Program.parse text = .ok program →
      let run := (Network.single program o.name o.inputs).run 0 fuel
      let m := run.2.machines.get 0
      (∀ fault, run.1 = .failed fault →
        (o.perform (.ok text) fuel).exec {} =
          (.error (.failed (.failed ⟨o.name, fault⟩)), ⟨"", ""⟩)) ∧
      (run.1 = .halted → ∃ printed, (o.perform (.ok text) fuel).exec {} = (.ok (), printed) ∧
        printed.out = String.join (m.diagnostics.toList.map fun v => toString v ++ "\n") ∧
        (Text.lines printed.out.toList).map Decimal.read? = m.diagnostics.toList.map some ∧
        (o.json = false → o.report = false → printed.diag = "") ∧
        (o.json = false → o.report = true → printed.diag = m.report.table ++ "\n") ∧
        (o.json = true → printed.diag = m.report.prettyText ++ "\n" ∧
          (program.image.size < addressSpace → (∀ op, m.report.count op < Report.countBound) →
            Report.ofJsonText? printed.diag = some m.report)))) ∧
    (((o.perform (.ok text) fuel).exec {}).1 ≠ .error .unfinished →
      ∀ more, fuel ≤ more → o.perform (.ok text) more = o.perform (.ok text) fuel) := by
  refine ⟨?_, ?_, fun h more hle => perform_of_le hle h⟩
  · intro e hparse
    rw [perform_of_load_error (load_of_malformed hparse)]
    rfl
  · intro program hparse run m
    have hperform : o.perform (.ok text) fuel = o.conclude run.2 run.1 :=
      perform_of_load (load_of_parsed hparse) fuel
    rw [hperform]
    refine ⟨?_, ?_⟩
    · intro fault hfailed
      rw [hfailed]
      rfl
    · intro hhalted
      rw [hhalted]
      refine ⟨_, o.exec_print m, rfl, Text.read?_lines_join _, ?_, ?_, ?_⟩
      · intro hjson hreport
        simp [reportText, hjson, hreport]
      · intro hjson hreport
        simp [reportText, hjson, hreport]
      · intro hjson
        have hdiag : o.reportText m.report = m.report.prettyText ++ "\n" := if_pos hjson
        exact ⟨hdiag, fun hfit hcounts => by
          rw [hdiag]
          exact ofJsonText?_report hfit fuel hcounts⟩

/-- A machine that repeats its input and then sends -2, and one that sends 7 and fails after that.
The second prints nothing. -/
theorem prints_all_or_nothing_runs :
    (let o : RunOptions := ⟨"repeat.txt", [42], "repeat", true, true⟩
      ∃ printed report, (o.perform (.ok "3,0,4,0,104,-2,99\n") 10).exec {} = (.ok (), printed) ∧
        printed.out = "42\n-2\n" ∧ report.count .output = 2 ∧
        Report.ofJsonText? printed.diag = some report) ∧
    (let o : RunOptions := ⟨"broken.txt", [], "broken", true, false⟩
      let m := ((o.start (.ofList [104, 7, 4, -1, 99])).run 0 10).2.machines.get 0
      m.diagnostics = #[7] ∧ (o.perform (.ok "104,7,4,-1,99") 10).exec {} =
        (.error (.failed (.failed ⟨"broken", .negativeAddress (-1)⟩)), ⟨"", ""⟩)) := by
  refine ⟨?_, ?_⟩
  · intro o
    have hparse : Program.parse "3,0,4,0,104,-2,99\n" =
        .ok (.ofList [3, 0, 4, 0, 104, -2, 99]) := by
      rfl
    obtain ⟨printed, hexec, hout, -, -, -, hdiag⟩ :=
      ((prints_all_or_nothing o _ 10).2.1 _ hparse).2 (by decide +kernel)
    refine ⟨printed, _, hexec, hout.trans (by decide +kernel), ?_, (hdiag rfl).2 ?_ ?_⟩
    · decide +kernel
    · decide +kernel
    · intro op
      cases op <;> decide +kernel
  · intro o m
    have hparse : Program.parse "104,7,4,-1,99" = .ok (.ofList [104, 7, 4, -1, 99]) := by
      rfl
    refine ⟨by decide +kernel, ?_⟩
    exact ((prints_all_or_nothing o _ 10).2.1 _ hparse).1 _ (by decide +kernel)

end RunOptions

end CommandLine

end Intcode
