import ApiScript.Machine.Assembling
import ApiScript.Machine.Execution
import ApiScript.SourceTree

/-!
# The command line

The arguments name script files, which are read and assembled in order and run as one program. Other
files are passed over. Requests find no network here and are never answered.
-/
namespace ApiScript.CommandLine

def versionText : String := "nebula 0.1.0"

/-- What is left when the command ends. -/
structure Report where
  exit : Nat
  stdout : String := ""
  stderr : String := ""

inductive Invocation where
  | version
  | files (paths : List String)
  | refused (argument : String)

/-- Options end at `--`. The only one is the version. -/
def invocation : List String → Invocation
  | [] => .files []
  | argument :: rest =>
    if argument = "--" then .files rest
    else if argument = "--version" ∨ ['-', 'V'].isPrefixOf argument.toList then .version
    else if argument ≠ "-" ∧ ['-'].isPrefixOf argument.toList then .refused argument
    else
      match invocation rest with
      | .files paths => .files (argument :: paths)
      | other => other

/-- Reads and assembles files in order, up to the first one that cannot be used. -/
def assembleFiles (readFile : String → Except ReadFailure String) (builtin : String → Bool)
    (a : Assembly) : List String → Except String Assembly
  | [] => .ok a
  | path :: rest =>
    match readFile path with
    | .error failure => .error s!"could not read source file {path}: {failure.message}\n"
    | .ok source =>
      match a.appendSource builtin source path with
      | (a, none) => assembleFiles readFile builtin a rest
      | (_, some fault) => .error (fault.message ++ "\n")

def noNetwork : Fetcher := fun _ _ => {}

def terminalText (m : Machine) : String := String.join (m.journal.toList.map Event.display)

def runProgram (fuel : Nat) (program : Program) (m : Machine) : Report :=
  match program.run noNetwork fuel m with
  | .done _ m => { exit := 0, stdout := terminalText m }
  | .failed fault m => { exit := 1, stdout := terminalText m, stderr := m.trace fault }
  | .unfinished m => { exit := 1, stdout := terminalText m }

def runFiles (fuel : Nat) (readFile : String → Except ReadFailure String) (paths : List String)
    (input : List InputLine) : Report :=
  match paths.filter SourcePath.isSource with
  | [] => { exit := 1, stderr := (Fault.mk .noSourceFiles none).message ++ "\n" }
  | sources =>
    let m : Machine := { input }
    match assembleFiles readFile m.isBuiltin m.startAssembly sources with
    | .error message => { exit := 1, stderr := message }
    | .ok a =>
      match a.finish with
      | .error fault => { exit := 1, stderr := fault.message ++ "\n" }
      | .ok program => runProgram fuel program (m.adoptSignatures a)

def run (fuel : Nat) (readFile : String → Except ReadFailure String) (arguments : List String)
    (input : List InputLine) : Report :=
  match invocation arguments with
  | .version => { exit := 0, stdout := versionText ++ "\n" }
  | .refused argument => { exit := 2, stderr := s!"error: unexpected argument '{argument}' found\n" }
  | .files paths => runFiles fuel readFile paths input

end ApiScript.CommandLine
