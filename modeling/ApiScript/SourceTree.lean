import ApiScript.SourcePath

/-!
# Source trees

A working directory with script files in it. A path is followed part by part, and each part is looked
up in the place reached so far. So whatever a path passes through has to be a folder, also where a
later part steps up again. Nothing is known of what lies outside the working directory.
-/
namespace ApiScript

/-- Why a script file cannot be read. -/
inductive ReadFailure where
  | missing
  | directory
  | notDirectory
  | nameTooLong
  | denied
  | undecodable
  | other (reason : String)

def ReadFailure.message : ReadFailure → String
  | .missing => "No such file or directory (os error 2)"
  | .directory => "Is a directory (os error 21)"
  | .notDirectory => "Not a directory (os error 20)"
  | .nameTooLong => "File name too long (os error 36)"
  | .denied => "Permission denied (os error 13)"
  | .undecodable => "stream did not contain valid UTF-8"
  | .other reason => reason

/-- The text of a file, which has to be valid UTF-8. -/
def decodeSource (bytes : ByteArray) : Except ReadFailure String :=
  match String.fromUTF8? bytes with
  | some text => .ok text
  | none => .error .undecodable

inductive TreeEntry where
  | file (bytes : ByteArray)
  | folder

/-- Entries under the names that lead to them, the last name first. The latest entry comes first and
hides an earlier one of the same names. Folders on the way to an entry need no entry of their own. -/
structure SourceTree where
  entries : List (List String × TreeEntry) := []

/-- What a path has led to. -/
inductive Position where
  | inside (names : List String) (entry : TreeEntry)
  | outside

namespace SourceTree

/-- The most bytes that the name of a file has. -/
def nameLimit : Nat := 255

/-- The most bytes that a path has. -/
def pathLimit : Nat := 4095

/-- Names of an entry to be made, the last one first. -/
def namesOf (path : String) : List String :=
  (SourcePath.components path).foldl
    (fun names part =>
      if SourcePath.isIdle part then names
      else if SourcePath.isUp part then names.tail
      else part :: names) []

def insert (t : SourceTree) (path : String) (entry : TreeEntry) : SourceTree :=
  ⟨(namesOf path, entry) :: t.entries⟩

def ofList (entries : List (String × TreeEntry)) : SourceTree :=
  entries.foldl (fun t (path, entry) => t.insert path entry) {}

/-- The entry under some names, or the folder that an entry below them implies. -/
def entry? (t : SourceTree) (names : List String) : Option TreeEntry :=
  match t.entries.lookup names with
  | some entry => some entry
  | none => if t.entries.any (fun e => names.isSuffixOf e.1) then some .folder else none

/-- The folder around the folder of some names. -/
def parent : List String → Position
  | [] => .outside
  | _ :: names => .inside names .folder

/-- Looks a name up in a folder. -/
def enter (t : SourceTree) (names : List String) (name : String) : Except ReadFailure Position :=
  if nameLimit < name.utf8ByteSize then .error .nameTooLong
  else
    match t.entry? (name :: names) with
    | some entry => .ok (.inside (name :: names) entry)
    | none => .error .missing

/-- One part of a path, taken at the place reached so far. -/
def step (t : SourceTree) (position : Position) (part : String) : Except ReadFailure Position :=
  match position with
  | .inside _ (.file _) => .error .notDirectory
  | .inside names .folder =>
    if SourcePath.isIdle part then .ok position
    else if SourcePath.isUp part then .ok (parent names)
    else t.enter names part
  | .outside =>
    if SourcePath.isIdle part || SourcePath.isUp part then .ok .outside
    else if nameLimit < part.utf8ByteSize then .error .nameTooLong
    else .error .missing

def walk (t : SourceTree) (position : Position) (parts : List String) : Except ReadFailure Position :=
  parts.foldlM t.step position

/-- The working directory, or the root above it for a path that begins with a slash. -/
def start (path : String) : Position :=
  if SourcePath.isAbsolute path then .outside else .inside [] .folder

def locate (t : SourceTree) (path : String) : Except ReadFailure Position :=
  if path = "" then .error .missing
  else if pathLimit < path.utf8ByteSize then .error .nameTooLong
  else t.walk (start path) (SourcePath.components path)

def read (t : SourceTree) (path : String) : Except ReadFailure String :=
  match t.locate path with
  | .error failure => .error failure
  | .ok (.inside _ (.file bytes)) => decodeSource bytes
  | .ok (.inside _ .folder) => .error .directory
  | .ok .outside => .error .directory

/-- Parts are followed in order: a longer path goes on from where its beginning leads. -/
theorem walk_append (t : SourceTree) (position : Position) (first rest : List String) :
    t.walk position (first ++ rest) = t.walk position first >>= fun next => t.walk next rest :=
  List.foldlM_append

/-- Nothing lies below a file, not even the file itself. -/
theorem walk_file (t : SourceTree) (names : List String) (bytes : ByteArray) (part : String)
    (rest : List String) :
    t.walk (.inside names (.file bytes)) (part :: rest) = .error .notDirectory := rfl

end SourceTree

end ApiScript
