import Intcode.CommandLine.Run

/-!
# Invocations

The command line as a whole: a request for the version, for help, or to run a program, and the
texts and exit code that answer it.
-/

namespace Intcode.CommandLine

/-- What the command line asks for. -/
inductive Invocation
  | version
  | help
  | runHelp
  | run (o : RunOptions)
deriving DecidableEq, Repr

/-- The line that names the version. -/
def versionText : String := "intcode intcode (0.3.0)\n"

/-- The summary of the commands. -/
def helpText : String :=
  "Usage: intcode <COMMAND>\n\n" ++
  "Commands:\n" ++
  "  run   Run an Intcode program to completion and print its outputs\n" ++
  "  help  Print this message or the help of the given subcommand(s)\n\n" ++
  "Options:\n" ++
  "  -h, --help     Print help\n" ++
  "  -V, --version  Print version\n"

/-- The summary of the run command. -/
def runHelpText : String :=
  "Run an Intcode program to completion and print its outputs\n\n" ++
  "Usage: intcode run [OPTIONS] <PROGRAM>\n\n" ++
  "Arguments:\n" ++
  "  <PROGRAM>  Path to the program: comma separated integers\n\n" ++
  "Options:\n" ++
  "  -i, --input <INPUTS>  A value queued on the input channel before the machine starts. May " ++
  "be repeated; values are consumed in the order given\n" ++
  "  -n, --name <NAME>     The name of the machine, shown in logs and errors " ++
  "[default: default-name]\n" ++
  "      --report          Print the opcode counts of the run to stderr once the machine halts\n" ++
  "      --json            Print the report as JSON instead of a table. Implies --report\n" ++
  "  -h, --help            Print help\n"

/-- Read the command line. -/
def Invocation.parse : List String → Except UsageError Invocation
  | [] => .error .missingArgument
  | "run" :: args =>
    match RunOptions.parse args with
    | .ok o => .ok (.run o)
    | .error .displayHelp => .ok .runHelp
    | .error e => .error e
  | ["help"] | "--help" :: _ => .ok .help
  | ["help", "run"] => .ok .runHelp
  | "--version" :: _ => .ok .version
  | arg :: _ =>
    match arg.toList with
    | '-' :: 'V' :: _ => .ok .version
    | '-' :: 'h' :: _ => .ok .help
    | _ => .error .unknownArgument

/-- How a process ends. -/
structure Exit where
  code : Nat
  printed : Printed
deriving DecidableEq, Repr

namespace Exit

/-- The end of a process that was called wrongly. -/
def usage (e : UsageError) : Exit := ⟨2, "", "error: " ++ e.message ++ "\n"⟩

/-- The end of a process that only prints a text. -/
def text (s : String) : Exit := ⟨0, s, ""⟩

/-- Whether a name is that of a log format. The flat one is used if none is named. -/
def isLogFormat (name : Option String) : Bool :=
  match name with
  | none => true
  | some s => s == "flat" || s == "forest"

/-- The end of a process that was asked for an unknown log format. -/
def badLogFormat : Exit := ⟨101, "", "unknown log format\n"⟩

/-- The end of a process that ran a program. An error is shown after what was printed before it. -/
def ofRun : Except RunError Unit × Printed → Exit
  | (.ok (), printed) => ⟨0, printed⟩
  | (.error e, printed) => ⟨1, { printed with diag := printed.diag ++ e.display }⟩

end Exit

/-- Answer an invocation, with a machine making at most `fuel` steps. -/
def Invocation.answer (logFormat : Option String) (source : String → Except ReadError String)
    (fuel : Nat) : Invocation → Option Exit
  | .version => some (.text versionText)
  | .help => some (.text helpText)
  | .runHelp => some (.text runHelpText)
  | .run o =>
    if Exit.isLogFormat logFormat then (o.execute (source o.program) fuel).map Exit.ofRun
    else some .badLogFormat

end Intcode.CommandLine
