import ApiScript.Fault

/-!
# Warnings and traces

A warning does not stop a script and is printed with the place it is about. A trace tells which
functions were active when a fault stopped a run.
-/
namespace ApiScript

inductive Warning where
  | insecureEndpoint
  | constantCondition
  | failedStatus (endpoint : String)
  | neverFetched (request : String)
  | unreachableCode (function : String)
  deriving DecidableEq, Repr

namespace Warning

def message : Warning → String
  | .insecureEndpoint => "api may not be accessed over HTTPS"
  | .constantCondition => "condition depends on values that do not change at runtime"
  | .failedStatus endpoint => s!"error code for {endpoint} is not 200"
  | .neverFetched request => s!"missing res call to api endpoint - {request}"
  | .unreachableCode function => s!"unreachable code in function - {function}"

def toLine (w : Warning) (location : Location) : String :=
  s!"Warn L{location.line} in {location.file}: {w.message}."

end Warning

/-- The active function and its callers, who are given with the innermost first. -/
def traceText (message file scope : String) (callers : List String) : String :=
  s!"Stack trace -\nIn source file - {file}\n{scope}() - {message}\n" ++
    String.join (callers.map fun caller => s!"{caller}()\n")

end ApiScript
