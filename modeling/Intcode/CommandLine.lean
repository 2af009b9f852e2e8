import Intcode.Setup
import Intcode.Text

/-!
# Arguments of the run command

The arguments are taken one by one. An option or a path that has been seen is kept back until
the next one, or the end, settles it; only then is its value looked at. An argument that is
unknown is reported before the value that is kept back.
-/

namespace Intcode.CommandLine

/-- Why arguments are refused. A call for help counts as a refusal, too. -/
inductive UsageError
  | unknownArgument
  /-- An input is no integer. -/
  | valueValidation
  /-- An option has no value, or the path is empty. -/
  | invalidValue
  | missingArgument
  /-- A flag or a single option is given twice. -/
  | argumentConflict
  /-- A flag is given a value. -/
  | tooManyValues
  | displayHelp
deriving DecidableEq, Repr

/-- Put a refusal into words. -/
def UsageError.message : UsageError → String
  | unknownArgument => "unexpected argument"
  | valueValidation => "an input is not an integer"
  | invalidValue => "a value is required"
  | missingArgument => "the path of a program is required"
  | argumentConflict => "an argument cannot be used more than once"
  | tooManyValues => "a flag takes no value"
  | displayHelp => "help was asked for"

/-- What the run command is asked to do. -/
structure RunOptions where
  program : String
  inputs : List Int
  name : String
  report : Bool
  json : Bool
deriving DecidableEq, Repr

/-- The options that take a value. -/
inductive Setting
  | input
  | name
deriving DecidableEq, Repr

/-- The options that take no value. -/
inductive Flag
  | report
  | json
  | help
deriving DecidableEq, Repr

/-- What has been seen and is not settled yet. -/
inductive Pending
  | nothing
  /-- An option, and its value once that has been seen. -/
  | setting (x : Setting) (value : Option String)
  | program (path : String)
deriving DecidableEq, Repr

/-- The arguments seen so far. -/
structure Scan where
  program : Option String := none
  inputs : List Int := []
  name : Option String := none
  report : Bool := false
  json : Bool := false
  pending : Pending := .nothing
  /-- Whether everything from here on is a path. -/
  trailing : Bool := false

namespace Scan

/-- Give an option its value. -/
def assign (s : Scan) (value : String) : Setting → Except UsageError Scan
  | .input =>
    match Decimal.read? value.toList with
    | some n => .ok { s with inputs := s.inputs ++ [n] }
    | none => .error .valueValidation
  | .name => if s.name.isSome then .error .argumentConflict else .ok { s with name := some value }

/-- Settle what was kept back. -/
def settle (s : Scan) : Except UsageError Scan :=
  match s.pending with
  | .nothing => .ok s
  | .setting _ none => .error .invalidValue
  | .setting x (some value) => assign { s with pending := .nothing } value x
  | .program path =>
    if path.isEmpty then .error .invalidValue
    else .ok { s with program := some path, pending := .nothing }

/-- Set a flag. -/
def raise (s : Scan) (flag : Flag) : Except UsageError Scan := do
  let s ← s.settle
  match flag with
  | .help => .error .displayHelp
  | .report => if s.report then .error .argumentConflict else .ok { s with report := true }
  | .json => if s.json then .error .argumentConflict else .ok { s with json := true }

/-- Begin an option whose value may be attached. -/
def begin (s : Scan) (x : Setting) (attached : Option String) : Except UsageError Scan := do
  let s ← s.settle
  match attached with
  | some value => s.assign value x
  | none => .ok { s with pending := .setting x none }

/-- Take the path of the program, which can be given once. -/
def path (s : Scan) (arg : String) : Except UsageError Scan :=
  match s.program, s.pending with
  | some _, _ | _, .program _ => .error .unknownArgument
  | none, _ => do
    let s ← s.settle
    return { s with pending := .program arg }

/-- Take an argument that begins with one dash, without the dash. -/
def short (s : Scan) : List Char → Except UsageError Scan
  | 'h' :: _ => s.raise .help
  | c :: rest => do
    let x ← match c with
      | 'i' => .ok .input
      | 'n' => .ok .name
      | _ => .error .unknownArgument
    s.begin x <| match rest with
      | [] => none
      | '=' :: value => some (String.ofList value)
      | value => some (String.ofList value)
  | [] => .error .unknownArgument

/-- Take an argument that begins with two dashes, without the dashes. -/
def long (s : Scan) (arg : List Char) : Except UsageError Scan :=
  let attached := match arg.dropWhile (· != '=') with
    | [] => none
    | _ :: value => some (String.ofList value)
  let flag (x : Flag) : Except UsageError Scan :=
    if attached.isSome then .error .tooManyValues else s.raise x
  match String.ofList (arg.takeWhile (· != '=')) with
  | "input" => s.begin .input attached
  | "name" => s.begin .name attached
  | "report" => flag .report
  | "json" => flag .json
  | "help" => flag .help
  | _ => .error .unknownArgument

/-- Whether a text is empty or an exponent without a sign. -/
def isPlainExponent : List Char → Bool
  | [] => true
  | e :: digits => (e == 'e' || e == 'E') && !digits.isEmpty && digits.all Char.isDigit

/-- Whether a text looks like an unsigned number, possibly with a point and an exponent. -/
def looksNumeric (cs : List Char) : Bool :=
  let rest := match cs.dropWhile Char.isDigit with
    | '.' :: fraction => fraction.dropWhile Char.isDigit
    | rest => rest
  !(cs.takeWhile Char.isDigit).isEmpty && isPlainExponent rest

/-- Take one argument. A negative number may be the value of an input, and no other argument
that begins with a dash may be the value of an option. -/
def take (s : Scan) (arg : String) : Except UsageError Scan :=
  if s.trailing then s.path arg
  else
    match arg.toList with
    | ['-', '-'] => .ok { s with trailing := true }
    | '-' :: '-' :: rest => s.long rest
    | '-' :: c :: rest =>
      if s.pending = .setting .input none ∧ looksNumeric (c :: rest) then
        .ok { s with pending := .setting .input (some arg) }
      else s.short (c :: rest)
    | _ =>
      match s.pending with
      | .setting x none => .ok { s with pending := .setting x (some arg) }
      | _ => s.path arg

/-- Settle what is left and ask for what is missing. -/
def finish (s : Scan) : Except UsageError RunOptions := do
  let s ← s.settle
  match s.program with
  | some program => return ⟨program, s.inputs, s.name.getD defaultName, s.report, s.json⟩
  | none => throw .missingArgument

end Scan

/-- Read the arguments of the run command. -/
def RunOptions.parse (args : List String) : Except UsageError RunOptions := do
  (← args.foldlM Scan.take {}).finish

end Intcode.CommandLine
