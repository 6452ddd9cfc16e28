import ApiScript.CommandLine

/-!
# The executable

The files and the whole input are read first, then the script runs and what it shows is printed.
-/
namespace ApiScript

/-- Enough for every script that ends in reasonable time. -/
def commandFuel : Nat := Nat.pow 10 18

/-- The number of a system error, which is also met with its sign turned. -/
def systemNumber (code : UInt32) : UInt32 := if code < 0x80000000 then code else 0 - code

def readSource (path : String) : IO (Except ReadFailure String) := do
  try
    return decodeSource (← IO.FS.readBinFile path)
  catch e =>
    match e with
    | .noFileOrDirectory .. => return .error .missing
    | .inappropriateType _ code _ =>
      return .error (if systemNumber code = 20 then .notDirectory else .directory)
    | .invalidArgument _ code reason =>
      return .error (if systemNumber code = 36 then .nameTooLong else .other reason)
    | .permissionDenied .. => return .error .denied
    | other => return .error (.other other.toString)

end ApiScript

open ApiScript in
def main (arguments : List String) : IO UInt32 := do
  let mut sources : List (String × Except ReadFailure String) := []
  for argument in arguments do
    if SourcePath.isSource argument then
      sources := (argument, ← readSource argument) :: sources
  let input ← if sources.isEmpty then pure ByteArray.empty else (← IO.getStdin).readBinToEnd
  let readFile := fun path => (sources.lookup path).getD (.error .missing)
  let report := CommandLine.run commandFuel readFile arguments (InputLine.split input)
  IO.print report.stdout
  IO.eprint report.stderr
  return report.exit.toUInt32
