import ApiScript.Machine
import ApiScript.Value.Comparison

/-!
# Builtin functions

What each builtin does with its arguments. A builtin without a result gives none.
-/
namespace ApiScript.Builtin

def stringOf (name : String) (v : Value) : Run String :=
  match v.kind with
  | .str => pure v.text
  | .num => Run.raise (.stringsOnly name)

def orderText : Ordering → String
  | .gt => "1"
  | .lt => "-1"
  | .eq => "0"

def promptAndRead (args : List Value) : Run (Option Value) :=
  match args with
  | [] => do
    let line ← Run.readLine
    pure (some (.string line))
  | [prompt] => do
    Run.modify fun m => m.record (.prompted prompt.text)
    let line ← Run.readLine
    pure (some (.string line))
  | _ => Run.raise .promptArity

def compareStrings (args : List Value) : Run (Option Value) :=
  match args with
  | [lhs, rhs] => do
    let l ← stringOf "strcmp" lhs
    let r ← stringOf "strcmp" rhs
    pure (some (.number (orderText (Value.orderTexts l r))))
  | _ => Run.raise (.arity "strcmp" 2)

def asNumber (args : List Value) : Run (Option Value) :=
  match args with
  | [v] =>
    let text := Text.trim v.text
    if isNumeric text then pure (some (.number text)) else Run.raise (.invalidNumber text)
  | _ => Run.raise (.arity "atoi" 1)

def asString (args : List Value) : Run (Option Value) :=
  match args with
  | [v] => pure (some (.string v.text))
  | _ => Run.raise (.arity "itoa" 1)

def countChars (args : List Value) : Run (Option Value) :=
  match args with
  | [v] => do
    let text ← stringOf "strlen" v
    pure (some (.number (Nat.repr text.length)))
  | _ => Run.raise (.arity "strlen" 1)

def reverseChars (args : List Value) : Run (Option Value) :=
  match args with
  | [v] => do
    let text ← stringOf "strrev" v
    pure (some (.string (String.ofList text.toList.reverse)))
  | _ => Run.raise (.arity "strrev" 1)

def call : Builtin → List Value → Run (Option Value)
  | .input => promptAndRead
  | .strcmp => compareStrings
  | .atoi => asNumber
  | .itoa => asString
  | .strlen => countChars
  | .strrev => reverseChars
  | .fixed result => fun _ => pure result

end ApiScript.Builtin
