import ApiScript.Number.Numeral
import ApiScript.Text.Figure

/-!
# Tokens

A token is a piece of a script line with its kind. Quoted text, then numbers, then the reserved
spellings are recognised before names, so no name can hide one of them.
-/
namespace ApiScript

/-- The words that begin a statement. -/
inductive Keyword where
  | define
  | assign
  | branch
  | loop
  | otherwise
  | close
  | delete
  | status
  | fetch
  | request
  | use
  | print
  | read
  | leave
  deriving DecidableEq, Repr

/-- The words that stand inside a statement. -/
inductive Word where
  | const
  | debug
  | endpoint
  | halt
  | method
  | scope
  | success
  | timeout
  | warns
  deriving DecidableEq, Repr

inductive Mark where
  | bang
  | hash
  | comma
  | colon
  | assign
  | equal
  | notEqual
  | less
  | lessEqual
  | greater
  | greaterEqual
  | openBrace
  | closeBrace
  | openParen
  | closeParen
  | openBracket
  | closeBracket
  deriving DecidableEq, Repr

inductive TokenKind where
  | keyword (word : Keyword)
  | word (word : Word)
  | mark (mark : Mark)
  | literal
  | number
  | name
  | increment
  | decrement
  | unknown
  deriving DecidableEq, Repr

namespace TokenKind

def reserved : List (String × TokenKind) :=
  [("def", .keyword .define), ("var", .keyword .assign), ("if", .keyword .branch),
   ("for", .keyword .loop), ("else", .keyword .otherwise), ("end", .keyword .close),
   ("del", .keyword .delete), ("err", .keyword .status), ("res", .keyword .fetch),
   ("url", .keyword .request), ("api", .keyword .request), ("use", .keyword .use),
   ("print", .keyword .print), ("read", .keyword .read), ("return", .keyword .leave),
   ("const", .word .const), ("debug", .word .debug), ("endpoint", .word .endpoint),
   ("halt", .word .halt), ("method", .word .method), ("scope", .word .scope),
   ("success", .word .success), ("timeout", .word .timeout), ("warns", .word .warns),
   ("!", .mark .bang), ("#", .mark .hash), (",", .mark .comma), (":", .mark .colon),
   ("=", .mark .assign), ("==", .mark .equal), ("!=", .mark .notEqual),
   ("<", .mark .less), ("<=", .mark .lessEqual), (">", .mark .greater), (">=", .mark .greaterEqual),
   ("\x7b", .mark .openBrace), ("\x7d", .mark .closeBrace), ("(", .mark .openParen),
   (")", .mark .closeParen), ("[", .mark .openBracket), ("]", .mark .closeBracket)]

def isLiteral (cs : List Char) : Bool :=
  decide (2 ≤ cs.length) && cs.head? == some '\'' && cs.getLast? == some '\''

/-- Letters, figures and underscores; a name of one character is a letter. -/
def isName : List Char → Bool
  | [] => false
  | [c] => Text.isLetter c
  | cs => cs.all fun c => Text.isLetterOrFigure c || c == '_'

/-- The kind of a text that is neither quoted, nor a number, nor reserved. -/
def ofName (cs : List Char) : TokenKind :=
  match cs.reverse with
  | '+' :: '+' :: base => if isName base.reverse then .increment else .unknown
  | '-' :: '-' :: base => if isName base.reverse then .decrement else .unknown
  | _ => if isName cs then .name else .unknown

def classify (raw : String) : TokenKind :=
  if isLiteral raw.toList then .literal
  else if isNumeric raw then .number
  else (reserved.lookup raw).getD (ofName raw.toList)

end TokenKind

/-- The text is that of the source, the quotes of a literal removed. -/
structure Token where
  text : String
  kind : TokenKind
  deriving DecidableEq, Repr

namespace Token

def unquote (raw : String) : String := String.ofList raw.toList.tail.dropLast

def ofRaw (raw : String) : Token :=
  let kind := TokenKind.classify raw
  ⟨if kind = .literal then unquote raw else raw, kind⟩

end Token

end ApiScript
