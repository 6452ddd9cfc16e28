/-!
# Tables of code points

A character class is an increasing list of inclusive code point ranges. Membership stops at the
first range that begins after the character.
-/
namespace ApiScript.Text

def covers : List (Nat × Nat) → Nat → Bool
  | [], _ => false
  | (first, last) :: rest, code =>
    if code < first then false else if code ≤ last then true else covers rest code

end ApiScript.Text
