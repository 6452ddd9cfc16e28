/-!
# Values

A value is a text with a kind. The text of a value of numeric kind is kept as it was written.
-/
namespace ApiScript

inductive Kind where
  | num
  | str
  deriving DecidableEq, Repr

def Kind.toText : Kind → String
  | .num => "num"
  | .str => "str"

structure Value where
  text : String
  kind : Kind
  deriving DecidableEq, Repr

namespace Value

def number (text : String) : Value := ⟨text, .num⟩

def string (text : String) : Value := ⟨text, .str⟩

end Value

end ApiScript
