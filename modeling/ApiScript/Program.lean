import ApiScript.Instruction

/-!
# Programs

A program is the list of its functions. Each statement holds the block that it opens, and a branch
also the block of its `else`.
-/
namespace ApiScript

structure Statement where
  instruction : Instruction
  location : Location
  body : List Statement
  alt : List Statement
  deriving Repr

/-- A statement without blocks. -/
def Statement.leaf (instruction : Instruction) (location : Location) : Statement :=
  ⟨instruction, location, [], []⟩

/-- The list of statements that a statement stands in. -/
inductive Place where
  | top
  | body
  | alt
  deriving DecidableEq, Repr

/-- A statement in the listing of a program, with the number of blocks around it. -/
structure Listed where
  depth : Nat
  place : Place
  statement : Statement

mutual

/-- A statement, then its body, then its other branch. -/
def Statement.listing (depth : Nat) (place : Place) : Statement → List Listed
  | ⟨instruction, location, body, alt⟩ =>
    ⟨depth, place, ⟨instruction, location, body, alt⟩⟩ ::
      (Statement.listingAll (depth + 1) .body body ++ Statement.listingAll (depth + 1) .alt alt)

def Statement.listingAll (depth : Nat) (place : Place) : List Statement → List Listed
  | [] => []
  | s :: rest => s.listing depth place ++ Statement.listingAll depth place rest

end

structure Program where
  statements : List Statement
  deriving Repr

namespace Program

def defines (name : String) (s : Statement) : Bool :=
  match s.instruction with
  | .define signature => signature.name == name
  | _ => false

def function? (p : Program) (name : String) : Option Statement := p.statements.find? (defines name)

def listing (p : Program) : List Listed := Statement.listingAll 0 .top p.statements

end Program

end ApiScript
