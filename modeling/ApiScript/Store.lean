import ApiScript.Instruction
import ApiScript.Table

/-!
# The store

The store holds the frames of the active calls, the pending requests and the signatures of the
known functions. Names are looked up in the innermost frame only. A scope record is kept for each
symbol, so that leaving a block can drop what was declared inside it. An operation that fails
leaves the store as it was.
-/
namespace ApiScript

structure Symbol where
  value : Value
  /-- The number of blocks around the first declaration. -/
  depth : Nat
  constant : Bool
  /-- The status of the response that the symbol was bound from. -/
  status : Option Nat
  deriving DecidableEq, Repr

abbrev Frame := Table Symbol

/-- A symbol declared at a depth in a frame, frames counted from the outermost. -/
structure ScopeRecord where
  name : String
  depth : Nat
  frame : Nat
  deriving DecidableEq, Repr

/-- Whether the record is about a frame and lies deeper than a depth. -/
def ScopeRecord.isDeeper (r : ScopeRecord) (frame depth : Nat) : Bool :=
  r.frame == frame && decide (depth < r.depth)

structure Store where
  /-- The innermost frame first. -/
  frames : List Frame := []
  requests : Table Request := ∅
  signatures : Table (List String) := ∅
  records : List ScopeRecord := []

namespace Store

def pushFrame (s : Store) : Store := { s with frames := ∅ :: s.frames }

def popFrame (s : Store) : Except Cause Store :=
  match s.frames with
  | [] => .error .noFrameToPop
  | _ :: outer =>
    .ok { s with
      frames := outer
      records := s.records.filter fun r => decide (r.frame < outer.length) }

/-- A new symbol is recorded. A symbol that is written again keeps its depth and its record. -/
def declare (s : Store) (name : String) (value : Value) (depth : Nat) (constant : Bool)
    (status : Option Nat) : Except Cause Store :=
  match s.frames with
  | [] => .error .noFrame
  | frame :: outer =>
    match frame.get? name with
    | none =>
      .ok { s with
        frames := frame.insert name ⟨value, depth, constant, status⟩ :: outer
        records := ⟨name, depth, outer.length⟩ :: s.records }
    | some old =>
      if old.constant then .error (.constantModified name)
      else
        .ok { s with frames := frame.insert name ⟨value, old.depth, constant, status⟩ :: outer }

def lookup (s : Store) (name : String) : Except Cause Symbol :=
  if s.requests.contains name then .error (.notPlainValue name)
  else
    match s.frames with
    | [] => .error .noFrame
    | frame :: _ =>
      match frame.get? name with
      | some symbol => .ok symbol
      | none => .error (.undeclaredSymbol name)

/-- Whether the name is declared in the innermost frame. -/
def declares (s : Store) (name : String) : Bool :=
  match s.frames with
  | [] => false
  | frame :: _ => frame.contains name

/-- Removes a symbol of the innermost frame and its record. -/
def eraseSymbol (s : Store) (name : String) : Store :=
  match s.frames with
  | [] => s
  | frame :: outer =>
    if frame.contains name then
      { s with
        frames := frame.erase name :: outer
        records := s.records.filter fun r => r.frame != outer.length || r.name != name }
    else s

/-- Removes the symbol that a record names if it lies deeper than a depth. -/
def dropDeeper (depth : Nat) (frame : Frame) (r : ScopeRecord) : Frame :=
  match frame.get? r.name with
  | some symbol => if depth < symbol.depth then frame.erase r.name else frame
  | none => frame

/-- Drops the recorded symbols of the innermost frame that lie deeper than a depth. -/
def cleanup (s : Store) (depth : Nat) : Store :=
  match s.frames with
  | [] => s
  | frame :: outer =>
    let dropped := s.records.filter fun r => r.isDeeper outer.length depth
    { s with
      frames := dropped.foldl (dropDeeper depth) frame :: outer
      records := s.records.filter fun r => !r.isDeeper outer.length depth }

def registerRequest (s : Store) (id : String) (request : Request) : Except Cause Store :=
  if s.requests.contains id then .error (.requestRedeclared id)
  else .ok { s with requests := s.requests.insert id request }

def request (s : Store) (id : String) : Except Cause Request :=
  match s.requests.get? id with
  | some request => .ok request
  | none => .error (.unregisteredRequest id)

def isRequest (s : Store) (id : String) : Bool := s.requests.contains id

def eraseRequest (s : Store) (id : String) : Store := { s with requests := s.requests.erase id }

def registerSignature (s : Store) (name : String) (params : List String) : Except Cause Store :=
  if s.signatures.contains name then .error (.functionRedeclared name)
  else .ok { s with signatures := s.signatures.insert name params }

def signature (s : Store) (name : String) : Except Cause (List String) :=
  match s.signatures.get? name with
  | some params => .ok params
  | none => .error (.undeclaredFunction name)

def requestEntry (id : String) : String := s!"entry: {id}"

def symbolEntry (name : String) (symbol : Symbol) : String :=
  s!"entry: {name}, {symbol.value.text} ({symbol.value.kind.toText})" ++
    (if symbol.constant then " const" else "")

/-- The lines of some pending requests and symbols, which may come in any order. -/
def listing (ids : List String) (symbols : List (String × Symbol)) : List String :=
  (ids.mergeSort fun a b => decide (a ≤ b)).map requestEntry ++
    (symbols.mergeSort fun a b => decide (a.1 ≤ b.1)).map fun entry => symbolEntry entry.1 entry.2

/-- The pending requests, then the symbols of the innermost frame, each by name. -/
def dump (s : Store) : List String :=
  listing s.requests.names
    (match s.frames with
    | [] => []
    | frame :: _ => frame.entries)

end Store

end ApiScript
