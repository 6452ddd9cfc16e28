import ApiScript.Number.Decimal

/-!
# Numerals

The written forms of numbers: an optional sign, then `inf`, `infinity` or `nan` in any case, or
digits with an optional point among or around them and an optional exponent.
-/
namespace ApiScript

inductive Numeral where
  | nan
  | infinity (negative : Bool)
  | decimal (negative : Bool) (value : Decimal)
  deriving DecidableEq, Repr

namespace Numeral

def digitsValue (cs : List Char) : Nat :=
  cs.foldl (fun n c => 10 * n + (c.toNat - '0'.toNat)) 0

/-- Digits of an exponent stop counting once it is past every number. -/
def exponentValue (cs : List Char) : Nat :=
  cs.foldl (fun n c => if n < 65536 then 10 * n + (c.toNat - '0'.toNat) else n) 0

def digitsOnly? (cs : List Char) : Option (List Char) :=
  if cs ≠ [] ∧ cs.all Char.isDigit then some cs else none

def exponent? : List Char → Option Int
  | '-' :: cs => (digitsOnly? cs).map fun ds => -(exponentValue ds : Int)
  | '+' :: cs => (digitsOnly? cs).map fun ds => (exponentValue ds : Int)
  | cs => (digitsOnly? cs).map fun ds => (exponentValue ds : Int)

/-- The exponent written after the digits, zero where none is. -/
def suffix? : List Char → Option Int
  | [] => some 0
  | 'e' :: cs => exponent? cs
  | 'E' :: cs => exponent? cs
  | _ => none

def decimal? (cs : List Char) : Option Decimal :=
  let whole := cs.takeWhile Char.isDigit
  let rest := cs.dropWhile Char.isDigit
  let (fraction, rest) :=
    match rest with
    | '.' :: after => (after.takeWhile Char.isDigit, after.dropWhile Char.isDigit)
    | rest => ([], rest)
  if whole ++ fraction = [] then none
  else (suffix? rest).map fun e => ⟨digitsValue (whole ++ fraction), e - fraction.length⟩

def unsigned? (negative : Bool) (cs : List Char) : Option Numeral :=
  let word := cs.map Char.toLower
  if word = ['n', 'a', 'n'] then some .nan
  else if word = ['i', 'n', 'f'] ∨ word = ['i', 'n', 'f', 'i', 'n', 'i', 't', 'y'] then
    some (.infinity negative)
  else (decimal? cs).map (.decimal negative)

def ofChars? : List Char → Option Numeral
  | '-' :: cs => unsigned? true cs
  | '+' :: cs => unsigned? false cs
  | cs => unsigned? false cs

def toNumber : Numeral → Number
  | .nan => .nan
  | .infinity negative => .infinite negative
  | .decimal negative value => value.toNumber negative

end Numeral

/-- The number that the whole text writes. -/
def Number.ofText? (s : String) : Option Number := (Numeral.ofChars? s.toList).map Numeral.toNumber

/-- Whether a text reads as a number in a script, where `inf` and `nan` are names. -/
def isNumeric (s : String) : Bool :=
  s.toList.any Char.isDigit && (Numeral.ofChars? s.toList).isSome

end ApiScript
