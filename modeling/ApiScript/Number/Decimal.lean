import ApiScript.Number

/-!
# Decimals

A decimal is a whole multiple of a power of ten. It is read as the nearest number and written
positionally, never with an exponent.
-/
namespace ApiScript

/-- The value `digits * 10 ^ exponent`. -/
structure Decimal where
  digits : Nat
  exponent : Int
  deriving DecidableEq, Repr

namespace Decimal

def toNumber (negative : Bool) (d : Decimal) : Number :=
  Number.ofUnits negative (d.digits * Nat.pow 10 d.exponent.toNat * Number.unitsOfOne)
    (Nat.pow 10 (-d.exponent).toNat)

def padLeft (width : Nat) (s : String) : String :=
  String.ofList (List.replicate (width - s.length) '0') ++ s

def toText (d : Decimal) : String :=
  match d.exponent with
  | .ofNat zeros => toString (d.digits * Nat.pow 10 zeros)
  | .negSucc n =>
    let places := n + 1
    let unit := Nat.pow 10 places
    toString (d.digits / unit) ++ "." ++ padLeft places (toString (d.digits % unit))

end Decimal

end ApiScript
