import ApiScript.Text.Ranges

/-!
# Blank characters

The characters with the Unicode property `White_Space`, and the trimming of text by them.
-/
namespace ApiScript.Text

def blankRanges : List (Nat × Nat) :=
  [(0x9, 0xd), (0x20, 0x20), (0x85, 0x85), (0xa0, 0xa0), (0x1680, 0x1680), (0x2000, 0x200a),
   (0x2028, 0x2029), (0x202f, 0x202f), (0x205f, 0x205f), (0x3000, 0x3000)]

def isBlank (c : Char) : Bool := covers blankRanges c.toNat

def trimChars (cs : List Char) : List Char :=
  ((cs.dropWhile isBlank).reverse.dropWhile isBlank).reverse

/-- The text without the blanks at its two ends. -/
def trim (s : String) : String := String.ofList (trimChars s.toList)

/-- The text without any blank. -/
def squeeze (s : String) : String := String.ofList (s.toList.filter (fun c => !isBlank c))

end ApiScript.Text
