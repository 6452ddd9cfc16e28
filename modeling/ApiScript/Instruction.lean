import ApiScript.Value.Comparison

/-!
# Instructions

What one line of a script says, without its place in the program.
-/
namespace ApiScript

/-- A value as written: a number, a quoted text, or the name of a symbol. -/
inductive Operand where
  | number (text : String)
  | literal (text : String)
  | name (text : String)
  deriving DecidableEq, Repr

namespace Operand

def text : Operand → String
  | .number text => text
  | .literal text => text
  | .name text => text

def isName : Operand → Bool
  | .name _ => true
  | _ => false

end Operand

inductive Test where
  /-- The latest fetch was answered with status 200. -/
  | succeeded
  /-- The name is declared in the current frame. -/
  | declared (name : String)
  | compares (lhs : Operand) (op : Comparison) (rhs : Operand)
  deriving DecidableEq, Repr

structure Condition where
  negated : Bool
  test : Test
  deriving DecidableEq, Repr

structure Signature where
  name : String
  params : List String
  returns : Option Kind
  deriving DecidableEq, Repr

structure Call where
  name : String
  args : List Operand
  deriving DecidableEq, Repr

structure Request where
  target : String
  /-- An endpoint without a point is the name of a symbol that holds one. -/
  endpoint : String
  method : String
  timeout : Nat
  halt : Bool
  deriving DecidableEq, Repr

inductive Mode where
  | debug
  | scope
  | warns
  deriving DecidableEq, Repr

inductive Instruction where
  | define (signature : Signature)
  | assign (target : String) (value : Operand) (constant : Bool)
  | branch (condition : Condition)
  | loop (condition : Condition)
  /-- The tokens after the keyword stay as they are written. -/
  | otherwise (chained : List String)
  | close
  | delete (target : String)
  | status (target reference : String)
  | fetch (target reference : String)
  | request (request : Request)
  | use (mode : Mode)
  | print (value : Operand)
  | read (target : String)
  | leave (value : Option Operand)
  | call (call : Call)
  | callInto (target : String) (call : Call)
  | index (target source : String) (position : Nat)
  | increment (target : String)
  | decrement (target : String)
  deriving DecidableEq, Repr

namespace Instruction

def keyword : Instruction → String
  | .define _ => "def"
  | .assign .. => "var"
  | .branch _ => "if"
  | .loop _ => "for"
  | .otherwise _ => "else"
  | .close => "end"
  | .delete _ => "del"
  | .status .. => "err"
  | .fetch .. => "res"
  | .request _ => "url"
  | .use _ => "use"
  | .print _ => "print"
  | .read _ => "read"
  | .leave _ => "return"
  | .call _ => "function call"
  | .callInto .. => "function call"
  | .index .. => "indexer"
  | .increment _ => "++"
  | .decrement _ => "--"

/-- The instructions that begin a block. -/
def opensBlock : Instruction → Bool
  | .define _ => true
  | .branch _ => true
  | .loop _ => true
  | _ => false

end Instruction

end ApiScript
