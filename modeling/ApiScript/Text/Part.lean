/-!
# Parts of a text
-/
namespace ApiScript.Text

def hasPartFrom (part : List Char) : List Char → Bool
  | [] => part.isEmpty
  | c :: cs => part.isPrefixOf (c :: cs) || hasPartFrom part cs

/-- Whether a text holds another one somewhere. -/
def hasPart (part s : String) : Bool := hasPartFrom part.toList s.toList

end ApiScript.Text
