import ApiScript.Console
import ApiScript.Store
import ApiScript.Warning

/-!
# The machine

The state of a script that runs, and computations on it. A computation ends with a value, with a
fault, or unfinished when its fuel is used up; each end keeps the state that it was reached in. The
journal lists what the script did to the world outside, oldest first.
-/
namespace ApiScript

/-- What a fetch asks for. -/
structure FetchCall where
  method : String
  endpoint : String
  timeout : Nat
  deriving DecidableEq, Repr

/-- What came back: no status without an answer, and no body if none could be read. -/
structure Response where
  body : Option String := none
  status : Option Nat := none
  deriving DecidableEq, Repr

/-- The answer to a call that follows some earlier calls, the oldest first. -/
abbrev Fetcher := List FetchCall → FetchCall → Response

inductive Event where
  | printed (line : String)
  | warned (warning : Warning) (location : Location)
  | prompted (text : String)
  | registered (id : String)
  | fetched (id : String) (call : FetchCall) (response : Response)
  deriving DecidableEq, Repr

namespace Event

/-- The output line of an event that prints one. -/
def line? : Event → Option String
  | .printed line => some line
  | .warned warning location => some (warning.toLine location)
  | _ => none

def call? : Event → Option FetchCall
  | .fetched _ call _ => some call
  | _ => none

/-- What an event shows on a terminal: a prompt does not end its line. -/
def display : Event → String
  | .printed line => line ++ "\n"
  | .warned warning location => warning.toLine location ++ "\n"
  | .prompted text => text
  | _ => ""

end Event

/-- Run modes, all off at first. -/
structure Modes where
  /-- Print the store when the script ends. -/
  debug : Bool := false
  /-- Drop the symbols declared in a block when it ends. -/
  purge : Bool := false
  /-- Print warnings, and take a response without a body for a fault. -/
  warns : Bool := false
  deriving DecidableEq, Repr

inductive Builtin where
  | input
  | strcmp
  | atoi
  | itoa
  | strlen
  | strrev
  /-- Gives the same result for all arguments. -/
  | fixed (result : Option Value)
  deriving DecidableEq, Repr

namespace Builtin

def standard : Table Builtin :=
  .ofList [("input", .input), ("strcmp", .strcmp), ("atoi", .atoi), ("itoa", .itoa),
    ("strlen", .strlen), ("strrev", .strrev)]

end Builtin

def entryFunction : String := "Main"

def maxCallDepth : Nat := 255

structure Machine where
  store : Store := {}
  builtins : Table Builtin := Builtin.standard
  modes : Modes := {}
  /-- The number of blocks around the statement at hand. -/
  depth : Nat := 0
  /-- The function at hand. -/
  scope : String := entryFunction
  /-- The callers of the function at hand, the innermost first. -/
  callers : List String := []
  /-- The kind of value that the function at hand has to return. -/
  returns : Option Kind := none
  /-- Returned values, the latest first. -/
  returned : List Value := []
  lastStatus : Option Nat := none
  /-- The status of the latest fetch of each request. -/
  requestStatus : Table (Option Nat) := ∅
  /-- Requests that were registered and not fetched since, the oldest first. -/
  unfetched : List String := []
  /-- The number of statements executed. -/
  executed : Nat := 0
  location : Location := ⟨0, ""⟩
  input : List InputLine := []
  journal : Array Event := #[]

namespace Machine

def output (m : Machine) : List String := m.journal.toList.filterMap Event.line?

def calls (m : Machine) : List FetchCall := m.journal.toList.filterMap Event.call?

def isBuiltin (m : Machine) (name : String) : Bool := m.builtins.contains name

def record (m : Machine) (e : Event) : Machine := { m with journal := m.journal.push e }

/-- The trace of a fault that stopped the machine. -/
def trace (m : Machine) (fault : Fault) : String :=
  traceText fault.message (fault.location.getD m.location).file m.scope m.callers

end Machine

inductive Outcome (α : Type) where
  | done (value : α) (machine : Machine)
  | failed (fault : Fault) (machine : Machine)
  | unfinished (machine : Machine)

def Outcome.machine {α : Type} : Outcome α → Machine
  | .done _ m => m
  | .failed _ m => m
  | .unfinished m => m

/-- A computation on the machine. -/
def Run (α : Type) : Type := Machine → Outcome α

namespace Run

variable {α β : Type}

instance : Monad Run where
  pure a := fun m => .done a m
  bind x f := fun m =>
    match x m with
    | .done a m => f a m
    | .failed fault m => .failed fault m
    | .unfinished m => .unfinished m

@[simp]
theorem pure_apply (a : α) (m : Machine) : (pure a : Run α) m = .done a m := rfl

@[simp]
theorem bind_apply (x : Run α) (f : α → Run β) (m : Machine) :
    (x >>= f) m =
      match x m with
      | .done a m => f a m
      | .failed fault m => .failed fault m
      | .unfinished m => .unfinished m := rfl

theorem bind_pure_self (x : Run α) : (x >>= pure) = x := by
  funext m
  rw [bind_apply]
  cases x m <;> rfl

theorem bind_bind {γ : Type} (x : Run α) (f : α → Run β) (g : β → Run γ) :
    (x >>= f >>= g) = x >>= fun a => f a >>= g := by
  funext m
  simp only [bind_apply]
  cases x m <;> rfl

instance : LawfulMonad Run :=
  LawfulMonad.mk' Run (fun x => bind_pure_self x) (fun _ _ => rfl) (fun x f g => bind_bind x f g)

def machine : Run Machine := fun m => .done m m

def modify (f : Machine → Machine) : Run Unit := fun m => .done () (f m)

def unfinished : Run α := fun m => .unfinished m

def raise (cause : Cause) : Run α := fun m => .failed ⟨cause, none⟩ m

def lift (x : Except Cause α) : Run α :=
  match x with
  | .ok a => pure a
  | .error cause => raise cause

/-- A step of the store, which a failing step leaves as it was. -/
def onStore (f : Store → Except Cause Store) : Run Unit := fun m =>
  match f m.store with
  | .ok store => .done () { m with store }
  | .error cause => .failed ⟨cause, none⟩ m

/-- Gives a location to the faults that have none. -/
def locating (location : Location) (x : Run α) : Run α := fun m =>
  match x m with
  | .failed fault m => .failed (fault.locate location) m
  | outcome => outcome

def emit (line : String) : Run Unit := modify fun m => m.record (.printed line)

/-- Warnings are dropped unless the script asks for them. -/
def warn (w : Warning) : Run Unit := modify fun m =>
  if m.modes.warns then m.record (.warned w m.location) else m

def readLine : Run String := fun m =>
  match InputLine.read m.input with
  | (.ok line, rest) => .done line { m with input := rest }
  | (.error cause, rest) => .failed ⟨cause, none⟩ { m with input := rest }

end Run

end ApiScript
