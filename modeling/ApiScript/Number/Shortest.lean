import ApiScript.Number.Decimal

/-!
# Shortest decimals

A number is written with the fewest digits that read back as it: the multiples of a power of ten
are tried from the coarsest grid on, and on each grid only the two neighbours of the number can
read back. Of two that do the nearer is taken, and the upper one where they are equally near.
-/
namespace ApiScript.Number

def readsBack (units : Nat) (d : Decimal) : Bool := d.toNumber false == .finite units

/-- The neighbours of a count among the multiples of `10 ^ exponent`, the nearer one first. -/
def neighbours (units : Nat) (exponent : Int) : List Decimal :=
  let num := units * Nat.pow 10 (-exponent).toNat
  let den := unitsOfOne * Nat.pow 10 exponent.toNat
  let lower : Decimal := ⟨num / den, exponent⟩
  let upper : Decimal := ⟨num / den + 1, exponent⟩
  if 2 * (num % den) < den then [lower, upper] else [upper, lower]

/-- An exponent whose power of ten is above the count: 30103 / 100000 is just over the decimal
logarithm of two. -/
def coarsest (units : Nat) : Int := ((units.log2 : Int) - 1073) * 30103 / 100000 + 1

/-- Seventeen digits always read back, so the exact decimal at the end is never reached. -/
def shortest (units : Nat) : Decimal :=
  if units = 0 then ⟨0, 0⟩
  else
    ((List.range 20).findSome? fun (n : Nat) =>
      (neighbours units (coarsest units - n)).find? (readsBack units)).getD
      ⟨units * Nat.pow 5 1074, -1074⟩

def toText : Number → String
  | .nan => "NaN"
  | .infinite negative => if negative then "-inf" else "inf"
  | .finite units =>
    let text := (shortest units.natAbs).toText
    if units < 0 then "-" ++ text else text

end ApiScript.Number
