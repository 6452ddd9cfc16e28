import ApiScript.Fault

/-!
# Console input

The input of a script is a list of lines, each decoded or known to be no valid UTF-8. Reading past
the last line gives the empty line.
-/
namespace ApiScript

/-- A line of input without its end, absent if its bytes are no valid UTF-8. -/
abbrev InputLine := Option String

namespace InputLine

def isLineEnd (c : Char) : Bool := c == '\n' || c == '\r'

/-- The text without the line ends at its end. -/
def dropLineEnd (s : String) : String :=
  String.ofList (s.toList.reverse.dropWhile isLineEnd).reverse

def decode (bytes : List UInt8) : InputLine :=
  (String.fromUTF8? ⟨bytes.toArray⟩).map dropLineEnd

/-- The lines of some bytes of which the beginning of a line is already read, last byte first. -/
def splitFrom (read : List UInt8) : List UInt8 → List InputLine
  | [] => if read = [] then [] else [decode read.reverse]
  | b :: bytes =>
    if b = 10 then decode (b :: read).reverse :: splitFrom [] bytes else splitFrom (b :: read) bytes

def split (bytes : ByteArray) : List InputLine := splitFrom [] bytes.toList

/-- The next line and the lines after it. -/
def read : List InputLine → Except Cause String × List InputLine
  | [] => (.ok "", [])
  | some text :: rest => (.ok text, rest)
  | none :: rest => (.error .undecodableInput, rest)

end InputLine

end ApiScript
