import ApiScript.Value

/-!
# Faults

Everything that stops a script: the cause and, once known, the statement it was raised for. Each
cause has one message.
-/
namespace ApiScript

/-- A line of the script, counted over all its files, and the file it stands in. -/
structure Location where
  line : Nat
  file : String
  deriving DecidableEq, Repr

/-- What a statement needed at the place where it had something else. -/
inductive Expectation where
  | mark (text : String)
  | functionName
  | target
  | variableAfter (word : String)
  | reference
  | index
  | keyword (text : String)
  deriving DecidableEq, Repr

namespace Expectation

def message : Expectation → String
  | .mark text => s!"'{text}'"
  | .functionName => "function name"
  | .target => "a variable as lhs"
  | .variableAfter word => s!"a variable after {word}"
  | .reference => "a reference"
  | .index => "an index"
  | .keyword text => text

end Expectation

/-- How the tokens of a line miss the form that its first token asks for. -/
inductive Malformation where
  | endOfLine
  | missing (expected : Expectation)
  | instead (expected : Expectation) (found : String)
  | trailing (token : String)
  | notAValue (text : String)
  | afterComma
  | afterArgument (text : String)
  | parameter (text function : String)
  | returnKind (text : String)
  | constantResult (target : String)
  | index (text : String)
  | notAVariable (text : String)
  | operator (text : String)
  | timeout (text : String)
  | haltFlag (text : String)
  | requestField (text : String)
  | noRequestFields (target : String)
  | noEndpoint (target : String)
  | method (text : String)
  | afterElse (text : String)
  deriving DecidableEq, Repr

namespace Malformation

def message : Malformation → String
  | .endOfLine => "expecting more tokens"
  | .missing expected => s!"expecting {expected.message}"
  | .instead expected found => s!"expecting {expected.message} instead of '{found}'"
  | .trailing token => s!"unexpected trailing token '{token}'"
  | .notAValue text => s!"'{text}' is not a valid value"
  | .afterComma => "invalid token after comma"
  | .afterArgument text => s!"invalid token after arg {text}"
  | .parameter text function => s!"invalid parameter {text} for function {function}"
  | .returnKind text => s!"unknown return kind {text}"
  | .constantResult target => s!"{target} cannot be constant"
  | .index text => s!"invalid index value {text} for indexer"
  | .notAVariable text => s!"{text} is not a variable"
  | .operator text => s!"invalid comparison operator {text}"
  | .timeout text => s!"invalid timeout {text}"
  | .haltFlag text => s!"invalid halt flag {text}"
  | .requestField text => s!"expecting parameter instead of {text}"
  | .noRequestFields target => s!"could not parse parameters for api {target}"
  | .noEndpoint target => s!"missing endpoint for api {target}"
  | .method text => s!"invalid method specified: {text}"
  | .afterElse text => s!"expecting if after else instead of '{text}'"

end Malformation

inductive Cause where
  | unterminatedLiteral
  | unexpectedKeyword (keyword : String)
  | malformed (how : Malformation)
  | unknownMode
  | danglingStatement (keyword : String)
  | nestedFunction (name : String)
  | openBlock
  | brokenChain
  | functionRedeclared (name : String)
  | requestRedeclared (name : String)
  | undeclaredFunction (name : String)
  | undeclaredSymbol (name : String)
  | unregisteredRequest (name : String)
  | notPlainValue (name : String)
  | constantModified (name : String)
  | noFrame
  | noFrameToPop
  | argumentCount (function : String)
  | kindMismatch
  | notNumeric (name : String)
  | invalidNumber (text : String)
  | unordered (lhs rhs : String)
  | voidResult (function : String)
  | returnKind (function : String) (kind : Kind)
  | unreadableResponse (endpoint : String)
  | noStatus (name : String)
  | indexOfNumber (name : String)
  | indexOutOfRange (name : String) (index : Nat)
  | lateUse
  | notInvocable (keyword : String)
  | arity (builtin : String) (count : Nat)
  | promptArity
  | stringsOnly (builtin : String)
  | callDepth (limit : Nat)
  | noSourceFiles
  | undecodableInput
  deriving DecidableEq, Repr

namespace Cause

def message : Cause → String
  | .unterminatedLiteral => "did you forget to close a string literal"
  | .unexpectedKeyword keyword => s!"unexpected keyword - {keyword}"
  | .malformed how => s!"syntax error - {how.message}"
  | .unknownMode => "invalid argument for keyword - use"
  | .danglingStatement keyword => s!"dangling statement - {keyword}"
  | .nestedFunction name => s!"nested function - function {name} lies inside another function"
  | .openBlock => "missing closure for code block"
  | .brokenChain => "internal error - else-if chain without an enclosing if"
  | .functionRedeclared name => s!"function redeclaration - {name}"
  | .requestRedeclared name => s!"existing reference to an endpoint through {name}"
  | .undeclaredFunction name => s!"undeclared function - {name}"
  | .undeclaredSymbol name => s!"undeclared symbol - {name}"
  | .unregisteredRequest name => s!"no registered endpoint with reference to {name}"
  | .notPlainValue name => s!"{name} is an api object; unsupported action"
  | .constantModified name => s!"symbol {name} exists and marked constant"
  | .noFrame => "internal error - no frames available; push a frame first"
  | .noFrameToPop => "internal error - pop_frame with no active frame"
  | .argumentCount function => s!"argument count mismatch for - {function}"
  | .kindMismatch => "cannot compare between 2 different types"
  | .notNumeric name => s!"numeric type is required for {name}"
  | .invalidNumber text => s!"invalid number - {text}"
  | .unordered lhs rhs => s!"invalid number - {lhs} or {rhs}"
  | .voidResult function => s!"trying to access return value of void function - {function}"
  | .returnKind function kind => s!"function {function} must return a value of kind {kind.toText}"
  | .unreadableResponse endpoint => s!"could not read api response for {endpoint}"
  | .noStatus name => s!"symbol {name} carries no status code"
  | .indexOfNumber name => s!"invalid argument for keyword - indexer on numeric {name}"
  | .indexOutOfRange name index => s!"index {index} is out of range for {name}"
  | .lateUse => "move use keyword to the top"
  | .notInvocable keyword => s!"could not invoke - {keyword}"
  | .arity builtin count =>
    s!"{builtin}() takes {count} " ++ (if count = 1 then "argument" else "arguments")
  | .promptArity => "input() takes 0 or 1 arguments"
  | .stringsOnly builtin => s!"{builtin}() takes string arguments"
  | .callDepth limit => s!"maximum call depth of {limit} exceeded"
  | .noSourceFiles => "required source file as arg"
  | .undecodableInput => "io error - stream did not contain valid UTF-8"

end Cause

structure Fault where
  cause : Cause
  location : Option Location
  deriving DecidableEq, Repr

namespace Fault

/-- A location attached earlier is nearer to the cause and stays. -/
def locate (f : Fault) (location : Location) : Fault := ⟨f.cause, some (f.location.getD location)⟩

def message (f : Fault) : String :=
  match f.location with
  | some ⟨line, file⟩ => s!"Error L{line} in {file}: {f.cause.message}."
  | none => s!"Error: {f.cause.message}."

end Fault

end ApiScript
