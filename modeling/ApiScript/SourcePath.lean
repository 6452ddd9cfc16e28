/-!
# Paths of script files

A path is cut at its slashes. A part that is empty or a single point stays where it is, and two points
step up.
-/
namespace ApiScript.SourcePath

/-- The parts of a path between slashes. -/
def components (path : String) : List String := (path.toList.splitOn '/').map String.ofList

def isIdle (part : String) : Bool := part = "" || part = "."

def isUp (part : String) : Bool := part = ".."

def isAbsolute (path : String) : Bool := ['/'].isPrefixOf path.toList

/-- The last part of a path that names something, unless it steps up. -/
def fileName? (path : String) : Option String :=
  match ((components path).filter fun part => !isIdle part).getLast? with
  | some name => if isUp name then none else some name
  | none => none

/-- What follows the last point of a file name, if something stands before it. -/
def extension? (path : String) : Option String := do
  let name ← fileName? path
  let reversed := name.toList.reverse
  match reversed.dropWhile (fun c => c != '.') with
  | [] => none
  | [_] => none
  | _ => some (String.ofList (reversed.takeWhile fun c => c != '.').reverse)

def sourceExtension : String := "neb"

def isSource (path : String) : Bool := extension? path == some sourceExtension

end ApiScript.SourcePath
