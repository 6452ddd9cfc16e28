import ApiScript.Number.Numeral

/-!
# Whole numbers

Timeouts and positions are whole numbers of 64 bits, written in digits with an optional plus sign.
-/
namespace ApiScript

def wholeDigits? : List Char → Option (List Char)
  | '+' :: cs => Numeral.digitsOnly? cs
  | cs => Numeral.digitsOnly? cs

def whole? (s : String) : Option Nat := do
  let n := Numeral.digitsValue (← wholeDigits? s.toList)
  if n < Nat.pow 2 64 then some n else none

end ApiScript
