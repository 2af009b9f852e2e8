import Intcode.CommandLine.Invocation

/-!
# The command

The process around the pure parts: it reads the named file and prints what the run yields. A
machine that waits for a value that nobody will send waits forever.
-/

namespace Intcode

/-- The number and the wording of a system error. -/
def ReadError.ofSystem : IO.Error → ReadError
  | .noFileOrDirectory .. => .notFound
  | .inappropriateType _ code _ => if code = 21 then .isDirectory else .notDirectory
  | .permissionDenied .. => .system "Permission denied" 13
  | other => .system (toString other) 0

/-- Read a file as text. -/
def readSource (path : String) : IO (Except ReadError String) := do
  try
    return decodeText (← IO.FS.readBinFile path)
  catch e =>
    return .error (.ofSystem e)

/-- Let a machine run until it comes to an end. -/
partial def runToEnd (o : CommandLine.RunOptions) (net : Network 1 2) : IO CommandLine.Exit := do
  let (stop, net) := net.run 0 1000000
  match (o.conclude net stop).answer with
  | some answer => return .ofRun answer
  | none =>
    if stop matches .blocked _ then IO.sleep 1000
    runToEnd o net

/-- Carry out a run. -/
def perform (o : CommandLine.RunOptions) : IO CommandLine.Exit := do
  if CommandLine.Exit.isLogFormat (← IO.getEnv "RUST_LOGGER") then
    match o.load (← readSource o.program) with
    | .error e => return .ofRun (.error e, {})
    | .ok program => runToEnd o (o.start program)
  else
    return .badLogFormat

end Intcode

/-- Run the command line. -/
def main (args : List String) : IO UInt32 := do
  let exit ← match Intcode.CommandLine.Invocation.parse args with
    | .error e => pure (Intcode.CommandLine.Exit.usage e)
    | .ok (.run o) => Intcode.perform o
    | .ok .version => pure (.text Intcode.CommandLine.versionText)
    | .ok .help => pure (.text Intcode.CommandLine.helpText)
    | .ok .runHelp => pure (.text Intcode.CommandLine.runHelpText)
  IO.print exit.printed.out
  IO.eprint exit.printed.diag
  return exit.code.toUInt32
