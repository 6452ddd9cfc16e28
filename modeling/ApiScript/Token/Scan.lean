import ApiScript.Fault
import ApiScript.Text.Blank

/-!
# Scanning a line

A line is cut into quoted literals, delimiters and words. Blanks part words and vanish, and a `#`
outside a literal ends the line.
-/
namespace ApiScript.Token

def delimiters : List Char :=
  ['[', ']', '<', '>', '{', '}', '*', '!', ',', ';', '(', ')', ':', '=']

/-- What has been read of the token at hand, its last character first. -/
inductive Pending where
  | word (read : List Char)
  | literal (read : List Char)

/-- Puts a finished word before the tokens that follow it. -/
def flush (read : List Char) (rest : List (List Char)) : List (List Char) :=
  match read with
  | [] => rest
  | c :: cs => (c :: cs).reverse :: rest

def scan : Pending → List Char → Except Cause (List (List Char))
  | .word read, [] => .ok (flush read [])
  | .literal _, [] => .error .unterminatedLiteral
  | .literal read, c :: cs =>
    if c = '\'' then (scan (.word []) cs).map (('\'' :: read.reverse ++ ['\'']) :: ·)
    else scan (.literal (c :: read)) cs
  | .word read, c :: cs =>
    if c = '#' then .ok (flush read [])
    else if c = '\'' then (scan (.literal []) cs).map (flush read)
    else if Text.isBlank c then (scan (.word []) cs).map (flush read)
    else if c ∈ delimiters then (scan (.word []) cs).map fun rest => flush read ([c] :: rest)
    else scan (.word (c :: read)) cs

/-- The tokens of one line as they are written, quotes included. -/
def tokenize (line : String) : Except Cause (List String) :=
  (scan (.word []) line.toList).map fun tokens => tokens.map String.ofList

end ApiScript.Token
