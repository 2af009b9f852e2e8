import Intcode.CommandLine
import Intcode.Directory
import Intcode.Network.Run
import Intcode.Program
import Intcode.Report.Json

/-!
# The run command

The command loads a program, runs it on the given inputs, and then prints its outputs one by one
and, if asked for, the report of the run. What was printed is kept when a command stops early.
-/

namespace Intcode.CommandLine

/-- Why a run comes to nothing. -/
inductive RunError
  | unreadable (path : String) (cause : ReadError)
  | malformed (path : String) (cause : Program.TextError)
  | failed (e : Failure)
deriving DecidableEq, Repr

namespace RunError

/-- Put an error into words. -/
def message : RunError → String
  | unreadable path _ => "failed to read program " ++ path
  | malformed path _ => "failed to parse program " ++ path
  | failed e => e.message

/-- The causes of an error, each the cause of the one before. -/
def causes : RunError → List String
  | unreadable _ cause => [cause.message]
  | malformed _ cause => [cause.message]
  | failed ⟨_, .unknownCode e⟩ => [Fault.message (.unknownCode e), e.message]
  | failed e => [e.fault.message]

/-- The text of an error with its causes, which are numbered if there are several. -/
def display (e : RunError) : String :=
  let lines := match e.causes with
    | [cause] => ["    " ++ cause ++ "\n"]
    | causes => causes.zipIdx.map fun (cause, i) => "    " ++ toString i ++ ": " ++ cause ++ "\n"
  "Error: " ++ e.message ++ "\n\nCaused by:\n" ++ String.join lines

end RunError

/-- Why a command stops early. -/
inductive Stop
  | failed (e : RunError)
  /-- The machine waits for a value or has used up its allowance of steps. -/
  | unfinished
deriving DecidableEq, Repr

/-- What a command prints. -/
structure Printed where
  out : String := ""
  diag : String := ""
deriving DecidableEq, Repr

/-- A command that prints as it goes and may stop early, keeping what it printed so far. -/
abbrev Printing (α : Type) := ExceptT Stop (StateM Printed) α

namespace Printing

/-- Carry out a command, with some text printed before. -/
def exec {α : Type} (x : Printing α) (p : Printed) : Except Stop α × Printed := (x.run).run p

/-- Print a text on the stream for outputs. -/
def out (s : String) : Printing Unit := modify fun p => { p with out := p.out ++ s }

/-- Print a text on the stream for reports. -/
def diag (s : String) : Printing Unit := modify fun p => { p with diag := p.diag ++ s }

/-- How a command ends, and all that it printed until then. There is no answer of one that does not
finish. -/
def answer (x : Printing Unit) : Option (Except RunError Unit × Printed) :=
  match x.exec {} with
  | (.ok (), printed) => some (.ok (), printed)
  | (.error (.failed e), printed) => some (.error e, printed)
  | (.error .unfinished, _) => none

end Printing

namespace RunOptions

/-- Read the program from what its file holds. -/
def load (o : RunOptions) (source : Except ReadError String) : Except RunError Program :=
  match source with
  | .error cause => .error (.unreadable o.program cause)
  | .ok text => (Program.parse text).mapError (.malformed o.program)

/-- The machine at the start of the run. -/
def start (o : RunOptions) (program : Program) : Network 1 2 :=
  .single program o.name o.inputs

/-- The report in the form that was asked for. -/
def reportText (o : RunOptions) (r : Report) : String :=
  if o.json then r.prettyText ++ "\n"
  else if o.report then r.table ++ "\n"
  else ""

/-- Print the outputs of a machine, one to a line, and the report. -/
def print (o : RunOptions) (m : Machine) : Printing Unit := do
  m.diagnostics.toList.forM fun v => Printing.out (toString v ++ "\n")
  Printing.diag (o.reportText m.report)

/-- Go on after a run. -/
def conclude (o : RunOptions) (net : Network 1 2) : RunEnd → Printing Unit
  | .halted => o.print (net.machines.get 0)
  | .failed fault => throw (.failed (.failed ⟨o.name, fault⟩))
  | .blocked _ | .exhausted _ => throw .unfinished

/-- Carry out the command in at most `fuel` steps. -/
def perform (o : RunOptions) (source : Except ReadError String) (fuel : Nat) : Printing Unit :=
  match o.load source with
  | .error e => throw (.failed e)
  | .ok program =>
    let (stop, net) := (o.start program).run 0 fuel
    o.conclude net stop

/-- The answer of the command within `fuel` steps. -/
def execute (o : RunOptions) (source : Except ReadError String) (fuel : Nat) :
    Option (Except RunError Unit × Printed) :=
  (o.perform source fuel).answer

end RunOptions

end Intcode.CommandLine
