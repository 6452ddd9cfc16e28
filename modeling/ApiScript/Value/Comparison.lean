import ApiScript.Fault
import ApiScript.Number.Numeral
import ApiScript.Text.Blank

/-!
# Comparison of values

Only values of one kind compare. Equality is that of the texts; the order is that of the code
points for strings and that of the numbers written otherwise.
-/
namespace ApiScript

inductive Comparison where
  | equal
  | notEqual
  | less
  | lessEqual
  | greater
  | greaterEqual
  deriving DecidableEq, Repr

/-- Whether an order relation between two values makes the comparison true. -/
def Comparison.admits : Comparison → Ordering → Bool
  | .equal, o => o == .eq
  | .notEqual, o => o != .eq
  | .less, o => o == .lt
  | .lessEqual, o => o != .gt
  | .greater, o => o == .gt
  | .greaterEqual, o => o != .lt

namespace Value

/-- The number that a text writes, blanks around it aside. -/
def numberOf (text : String) : Except Cause Number :=
  match Number.ofText? (Text.trim text) with
  | some n => .ok n
  | none => .error (.invalidNumber text)

def orderNumbers (lhs rhs : String) : Except Cause Ordering := do
  let l ← numberOf lhs
  let r ← numberOf rhs
  match l.compare? r with
  | some o => .ok o
  | none => .error (.unordered lhs rhs)

def orderTexts (lhs rhs : String) : Ordering := compareOfLessAndEq lhs rhs

/-- The order of two values of one kind. -/
def order (kind : Kind) (lhs rhs : String) : Except Cause Ordering :=
  match kind with
  | .str => .ok (orderTexts lhs rhs)
  | .num => orderNumbers lhs rhs

def compare (lhs : Value) (op : Comparison) (rhs : Value) : Except Cause Bool :=
  if lhs.kind ≠ rhs.kind then .error .kindMismatch
  else
    match op with
    | .equal => .ok (lhs.text == rhs.text)
    | .notEqual => .ok (lhs.text != rhs.text)
    | op => (order lhs.kind lhs.text rhs.text).map op.admits

end Value

end ApiScript
