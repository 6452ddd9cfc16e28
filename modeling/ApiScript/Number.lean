/-!
# Numbers of the script language

A number is a binary64 floating-point number. A finite one is a whole count of `2 ^ -1074`, the
spacing of the smallest binary64 numbers, so sums and comparisons are those of the integers and
only the rounding to 53 significant bits is special. Zero has no sign: no operation of the language
can tell the two zeros apart.
-/
namespace ApiScript

inductive Number where
  | nan
  | infinite (negative : Bool)
  | finite (units : Int)
  deriving DecidableEq, Repr

namespace Number

/-- The number one, counted in units. -/
def unitsOfOne : Nat := Nat.pow 2 1074

/-- Counts from here on are infinite. -/
def unitsLimit : Nat := Nat.pow 2 2098

/-- The quotient rounded to the nearest whole number, a tie going to the even one. -/
def roundQuotient (num den : Nat) : Nat :=
  let quotient := num / den
  let twice := 2 * (num % den)
  if twice < den ∨ (twice = den ∧ quotient % 2 = 0) then quotient else quotient + 1

/-- The spacing of the representable counts from `count` up to the next power of two. -/
def spacing (count : Nat) : Nat := Nat.pow 2 (count.log2 - 52)

/-- The representable count nearest to a quotient, a tie going to the even last bit. -/
def nearestUnits (num den : Nat) : Nat :=
  let step := spacing (num / den)
  roundQuotient num (den * step) * step

/-- The number nearest to a signed quotient of units. -/
def ofUnits (negative : Bool) (num den : Nat) : Number :=
  let units := nearestUnits num den
  if units < unitsLimit then .finite (if negative then -(units : Int) else units)
  else .infinite negative

/-- The sum with a whole number. -/
def offset (x : Number) (n : Int) : Number :=
  match x with
  | .nan => .nan
  | .infinite negative => .infinite negative
  | .finite units =>
    let sum := units + n * unitsOfOne
    ofUnits (decide (sum < 0)) sum.natAbs 1

/-- Undefined exactly when one side is not a number. -/
def compare? : Number → Number → Option Ordering
  | .nan, _ => none
  | _, .nan => none
  | .infinite a, .infinite b => some (compare b a)
  | .infinite negative, .finite _ => some (if negative then .lt else .gt)
  | .finite _, .infinite negative => some (if negative then .gt else .lt)
  | .finite a, .finite b => some (compare a b)

end Number

end ApiScript
