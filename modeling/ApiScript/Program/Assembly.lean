import ApiScript.Instruction.Reading
import ApiScript.Program
import ApiScript.Table
import ApiScript.Text.Lines
import ApiScript.Token.Scan

/-!
# Assembling a program

Lines are added one at a time. A block stays open until its `end` moves it into the block around it
or, for a function, to the finished statements. A block opened by `else if` closes together with
the branch around it. A line that is refused leaves what was assembled before it.
-/
namespace ApiScript

/-- The list of an open block that the next statement goes to. -/
inductive Side where
  | body
  | alt
  deriving DecidableEq, Repr

structure OpenBlock where
  statement : Statement
  side : Side
  /-- Opened by `else if`, so its end is the end of the branch around it too. -/
  closesParent : Bool
  deriving Repr

namespace OpenBlock

def isFunction (b : OpenBlock) : Bool :=
  match b.statement.instruction with
  | .define _ => true
  | _ => false

def isBranch (b : OpenBlock) : Bool :=
  match b.statement.instruction with
  | .branch _ => true
  | _ => false

def attach (b : OpenBlock) (s : Statement) : OpenBlock :=
  match b.side with
  | .body => { b with statement := { b.statement with body := b.statement.body ++ [s] } }
  | .alt => { b with statement := { b.statement with alt := b.statement.alt ++ [s] } }

end OpenBlock

structure Assembly where
  finished : List Statement := []
  /-- The innermost block first. -/
  openBlocks : List OpenBlock := []
  insideFunction : Bool := false
  /-- The number of lines added so far, over all files. -/
  line : Nat := 0
  signatures : Table (List String) := ∅

namespace Assembly

/-- What a line leaves, and why it was refused if it was. -/
abbrev Step := Assembly × Option Cause

def push (a : Assembly) (instruction : Instruction) (location : Location) (closesParent : Bool) :
    Assembly :=
  { a with openBlocks := ⟨.leaf instruction location, .body, closesParent⟩ :: a.openBlocks }

def attach (a : Assembly) (s : Statement) : Assembly :=
  match a.openBlocks with
  | [] => { a with finished := a.finished ++ [s] }
  | top :: outer => { a with openBlocks := top.attach s :: outer }

def openFunction (builtin : String → Bool) (a : Assembly) (signature : Signature)
    (location : Location) : Step :=
  if a.insideFunction then (a, some (.nestedFunction signature.name))
  else if builtin signature.name || a.signatures.contains signature.name then
    (a, some (.functionRedeclared signature.name))
  else
    ({ a.push (.define signature) location false with
        signatures := a.signatures.insert signature.name signature.params
        insideFunction := true }, none)

/-- Turns the innermost branch to its other side, and opens there the branch that follows. -/
def switch (a : Assembly) (chained : List String) (location : Location) : Step :=
  match a.openBlocks with
  | [] => (a, some (.unexpectedKeyword "else"))
  | top :: outer =>
    if top.isBranch && top.side == .body then
      let a := { a with openBlocks := { top with side := .alt } :: outer }
      match chained with
      | [] => (a, none)
      | first :: _ =>
        if TokenKind.classify first = .keyword .branch then
          match Instruction.read? chained with
          | .error cause => (a, some cause)
          | .ok none => (a, some (.unexpectedKeyword first))
          | .ok (some instruction) => (a.push instruction location true, none)
        else (a, some (.malformed (.afterElse first)))
    else (a, some (.unexpectedKeyword "else"))

/-- Moves a closed block into the first of the blocks around it, and goes on with that one if both
end here. -/
def settle (a : Assembly) (block : OpenBlock) : List OpenBlock → Step
  | [] =>
    ({ a with
        finished := a.finished ++ [block.statement]
        openBlocks := []
        insideFunction := a.insideFunction && !block.isFunction },
      if block.closesParent then some .brokenChain else none)
  | parent :: outer =>
    let a := { a with insideFunction := a.insideFunction && !block.isFunction }
    let parent := parent.attach block.statement
    if block.closesParent then settle a parent outer
    else ({ a with openBlocks := parent :: outer }, none)

def close (a : Assembly) : Step :=
  match a.openBlocks with
  | [] => (a, some (.unexpectedKeyword "end"))
  | block :: outer => a.settle block outer

def place (builtin : String → Bool) (a : Assembly) (keyword : String) (instruction : Instruction)
    (location : Location) : Step :=
  match instruction with
  | .define signature => a.openFunction builtin signature location
  | instruction =>
    if a.insideFunction then
      match instruction with
      | .otherwise chained => a.switch chained location
      | .close => a.close
      | instruction =>
        if instruction.opensBlock then (a.push instruction location false, none)
        else (a.attach (.leaf instruction location), none)
    else (a, some (.danglingStatement keyword))

def accept (builtin : String → Bool) (a : Assembly) (tokens : List String) (location : Location) :
    Step :=
  match tokens with
  | [] => (a, none)
  | keyword :: _ =>
    if TokenKind.classify keyword = .mark .hash then (a, none)
    else
      match Instruction.read? tokens with
      | .error cause => (a, some cause)
      | .ok none => (a, some (.unexpectedKeyword keyword))
      | .ok (some instruction) => a.place builtin keyword instruction location

/-- Adds the tokens of the next line. -/
def append (builtin : String → Bool) (a : Assembly) (tokens : List String) (file : String) :
    Assembly × Option Fault :=
  let location : Location := ⟨a.line + 1, file⟩
  let (next, cause) := accept builtin { a with line := a.line + 1 } tokens location
  (next, cause.map fun cause => ⟨cause, some location⟩)

/-- Adds the next line as it is written. -/
def appendLine (builtin : String → Bool) (a : Assembly) (line file : String) :
    Assembly × Option Fault :=
  match Token.tokenize line with
  | .ok tokens => a.append builtin tokens file
  | .error cause => ({ a with line := a.line + 1 }, some ⟨cause, some ⟨a.line + 1, file⟩⟩)

/-- Adds lines up to the first that is refused. -/
def appendLines (builtin : String → Bool) (file : String) (a : Assembly) :
    List String → Assembly × Option Fault
  | [] => (a, none)
  | line :: rest =>
    match a.appendLine builtin line file with
    | (a, none) => appendLines builtin file a rest
    | (a, some fault) => (a, some fault)

def appendSource (builtin : String → Bool) (a : Assembly) (source file : String) :
    Assembly × Option Fault :=
  a.appendLines builtin file (Text.lines source)

/-- Adds files, each with its name, up to the first refused line. -/
def appendSources (builtin : String → Bool) (a : Assembly) :
    List (String × String) → Assembly × Option Fault
  | [] => (a, none)
  | (file, source) :: rest =>
    match a.appendSource builtin source file with
    | (a, none) => appendSources builtin a rest
    | (a, some fault) => (a, some fault)

/-- The program, if no block is open. -/
def finish (a : Assembly) : Except Fault Program :=
  match a.openBlocks with
  | [] => .ok ⟨a.finished⟩
  | block :: _ => .error ⟨.openBlock, some block.statement.location⟩

end Assembly

end ApiScript
