import ApiScript.Instruction
import ApiScript.Number.Whole
import ApiScript.Token

/-!
# Reading an instruction

The first token of a line chooses the form that the whole line has to match. A line whose first
token chooses no form is no instruction; one that misses its form is malformed.
-/
namespace ApiScript

/-- Reads from the front of a line's tokens. -/
abbrev Reader := StateT (List Token) (Except Cause)

namespace Reader

def refuse {α : Type} (how : Malformation) : Except Cause α := .error (.malformed how)

def kindOf? (tokens : List Token) : Option TokenKind := tokens.head?.map Token.kind

def next : Reader Token
  | [] => refuse .endOfLine
  | token :: rest => .ok (token, rest)

def expect (kind : TokenKind) (what : Expectation) : Reader Token
  | [] => refuse (.missing what)
  | token :: rest =>
    if token.kind = kind then .ok (token, rest) else refuse (.instead what token.text)

/-- Takes the next token if it is of the kind, and tells whether it was. -/
def eat (kind : TokenKind) : Reader Bool
  | [] => .ok (false, [])
  | token :: rest => .ok (if token.kind = kind then (true, rest) else (false, token :: rest))

def finish : Reader Unit
  | [] => .ok ((), [])
  | token :: _ => refuse (.trailing token.text)

def expectMark (mark : Mark) (text : String) : Reader Token := expect (.mark mark) (.mark text)

def operand (token : Token) : Except Cause Operand :=
  match token.kind with
  | .literal => .ok (.literal token.text)
  | .number => .ok (.number token.text)
  | .name => .ok (.name token.text)
  | _ => refuse (.notAValue token.text)

def nextOperand : Reader Operand := do
  let token ← next
  operand token

/-- The arguments after an opening parenthesis that is not closed at once. -/
def arguments : List Token → Except Cause (List Operand × List Token)
  | [] => refuse .endOfLine
  | [token] => do
    let _ ← operand token
    refuse (.afterArgument token.text)
  | token :: separator :: rest => do
    let arg ← operand token
    if separator.kind = .mark .closeParen then .ok ([arg], rest)
    else if separator.kind = .mark .comma then
      if kindOf? rest = some (.mark .closeParen) then refuse .afterComma
      else do
        let (args, rest) ← arguments rest
        .ok (arg :: args, rest)
    else refuse (.afterArgument token.text)

def argumentList : Reader (List Operand) := do
  let _ ← expectMark .openParen "("
  if ← eat (.mark .closeParen) then pure [] else arguments

def call : Reader Call := do
  let name ← expect .name .functionName
  let args ← argumentList
  pure ⟨name.text, args⟩

def parameter (function : String) : Operand → Except Cause String
  | .name text => .ok text
  | other => refuse (.parameter other.text function)

def parameters (function : String) : Reader (List String) := fun tokens =>
  if kindOf? tokens = some (.mark .openParen) then do
    let (args, rest) ← argumentList tokens
    let params ← args.mapM (parameter function)
    .ok (params, rest)
  else .ok ([], tokens)

/-- The kind is read off the token's text, whatever its kind. -/
def returnKind : Reader (Option Kind)
  | [] => .ok (none, [])
  | token :: rest =>
    if token.text = "num" then .ok (some .num, rest)
    else if token.text = "str" then .ok (some .str, rest)
    else refuse (.returnKind token.text)

def definition : Reader Instruction := do
  let name ← expect .name .functionName
  let params ← parameters name.text
  let _ ← expectMark .colon ":"
  let returns ← returnKind
  finish
  pure (.define ⟨name.text, params, returns⟩)

def callInto (target : String) : Reader Instruction := do
  let call ← call
  finish
  pure (.callInto target call)

def position (token : Token) : Except Cause Nat :=
  match whole? token.text with
  | some n => .ok n
  | none => refuse (.index token.text)

def index (target : String) : Reader Instruction := do
  let source ← next
  let _ ← expectMark .openBracket "["
  let token ← expect .number .index
  let position ← position token
  let _ ← expectMark .closeBracket "]"
  finish
  pure (.index target source.text position)

def plainAssignment (target : String) (constant : Bool) : Reader Instruction := do
  let value ← nextOperand
  finish
  pure (.assign target value constant)

/-- The right side of an assignment is a call or an indexed name exactly when a name is followed by
an opening parenthesis or bracket. -/
def assignedValue (target : String) (constant : Bool) : Reader Instruction := fun tokens =>
  match tokens.map Token.kind with
  | .name :: .mark .openParen :: _ =>
    if constant then refuse (.constantResult target) else callInto target tokens
  | .name :: .mark .openBracket :: _ =>
    if constant then refuse (.constantResult target) else index target tokens
  | _ => plainAssignment target constant tokens

def assignment : Reader Instruction := do
  let constant ← eat (.word .const)
  let target ← expect .name .target
  let _ ← expectMark .assign "="
  assignedValue target.text constant

/-- The scanner parts `==`, `!=`, `<=` and `>=` into two tokens, which are joined here. -/
def operatorText : Reader String := do
  let first ← next
  if first.text = "=" ∨ first.text = "!" ∨ first.text = "<" ∨ first.text = ">" then
    if ← eat (.mark .assign) then pure (first.text ++ "=") else pure first.text
  else pure first.text

def comparisonOf (text : String) : Except Cause Comparison :=
  match TokenKind.classify text with
  | .mark .equal => .ok .equal
  | .mark .notEqual => .ok .notEqual
  | .mark .less => .ok .less
  | .mark .lessEqual => .ok .lessEqual
  | .mark .greater => .ok .greater
  | .mark .greaterEqual => .ok .greaterEqual
  | _ => refuse (.operator text)

def comparison (lhs : Token) : Reader Test := do
  let l ← operand lhs
  let text ← operatorText
  let op ← comparisonOf text
  let r ← nextOperand
  finish
  pure (.compares l op r)

def declaredTest (token : Token) : Except Cause Test :=
  if token.kind = .name then .ok (.declared token.text) else refuse (.notAVariable token.text)

/-- A lone token is a name to look for, and anything more a comparison. -/
def nameOrComparison : Reader Test := do
  let first ← next
  let rest ← get
  if rest = [] then declaredTest first else comparison first

def succeeded : Reader Test := do
  finish
  pure .succeeded

def condition : Reader Condition := do
  let negated ← eat (.mark .bang)
  let success ← eat (.word .success)
  let test ← if success then succeeded else nameOrComparison
  pure ⟨negated, test⟩

def variableAfter (keyword : String) : Reader String := do
  let name ← expect .name (.variableAfter keyword)
  finish
  pure name.text

/-- The target and the reference of `TARGET = REFERENCE::property`. -/
def property (keyword : Keyword) (text : String) : Reader (String × String) := do
  let target ← expect .name .target
  let _ ← expectMark .assign "="
  let reference ← expect .name .reference
  let _ ← expectMark .colon ":"
  let _ ← expectMark .colon ":"
  let _ ← expect (.keyword keyword) (.keyword text)
  finish
  pure (target.text, reference.text)

/-- The fields of a request while they are read. -/
structure RequestFields where
  endpoint : Option String := none
  method : String := "GET"
  timeout : Nat := 5000
  halt : Bool := false

def RequestFields.set (fields : RequestFields) (key value : Token) :
    Except Cause RequestFields :=
  match key.kind with
  | .word .endpoint => .ok { fields with endpoint := some value.text }
  | .word .method => .ok { fields with method := value.text }
  | .word .timeout =>
    match whole? value.text with
    | some n => .ok { fields with timeout := n }
    | none => refuse (.timeout value.text)
  | .word .halt =>
    if value.text = "true" then .ok { fields with halt := true }
    else if value.text = "false" then .ok { fields with halt := false }
    else refuse (.haltFlag value.text)
  | _ => refuse (.requestField key.text)

/-- Reads fields up to the closing brace, which it leaves in place. -/
def requestFields (fields : RequestFields) : List Token → Except Cause (RequestFields × List Token)
  | [] => refuse .endOfLine
  | key :: tokens =>
    if key.kind = .mark .closeBrace then .ok (fields, key :: tokens)
    else
      match tokens with
      | [] => refuse (.missing (.mark ":"))
      | [colon] =>
        if colon.kind = .mark .colon then refuse .endOfLine
        else refuse (.instead (.mark ":") colon.text)
      | colon :: value :: rest =>
        if colon.kind = .mark .colon then do
          let fields ← fields.set key value
          match rest with
          | [] => refuse (.missing (.mark ","))
          | separator :: rest =>
            if separator.kind = .mark .closeBrace then .ok (fields, separator :: rest)
            else if separator.kind = .mark .comma then requestFields fields rest
            else refuse (.instead (.mark ",") separator.text)
        else refuse (.instead (.mark ":") colon.text)

/-- The only method is `GET`, in any case. -/
def requestOf (target : String) (fields : RequestFields) : Except Cause Request :=
  match fields.endpoint with
  | none => refuse (.noEndpoint target)
  | some endpoint =>
    if fields.method.toList.map Char.toLower = ['g', 'e', 't'] then
      .ok ⟨target, endpoint, "GET", fields.timeout, fields.halt⟩
    else refuse (.method fields.method)

def request : Reader Instruction := do
  let target ← expect .name .target
  let _ ← expectMark .assign "="
  let _ ← expectMark .openBrace "\x7b"
  let tokens ← get
  let fields ← requestFields {}
  let _ ← expectMark .closeBrace "\x7d"
  finish
  if kindOf? tokens = some (.mark .closeBrace) then refuse (.noRequestFields target.text)
  else do
    let request ← requestOf target.text fields
    pure (.request request)

def mode : Reader Instruction := do
  let token ← next
  match token.kind with
  | .word .debug => do finish; pure (.use .debug)
  | .word .scope => do finish; pure (.use .scope)
  | .word .warns => do finish; pure (.use .warns)
  | _ => throw .unknownMode

def leave : Reader Instruction := do
  let tokens ← get
  if tokens = [] then pure (.leave none)
  else do
    let value ← nextOperand
    finish
    pure (.leave (some value))

/-- The target of `NAME++` and `NAME--`. -/
def stepTarget (text : String) : String := String.ofList text.toList.dropLast.dropLast

def callStatement (name : Token) : Reader Instruction := do
  let args ← argumentList
  finish
  pure (.call ⟨name.text, args⟩)

/-- The form that the first token chooses, to be read from the tokens after it. -/
def form? (first : Token) (rest : List Token) : Option (Reader Instruction) :=
  match first.kind with
  | .keyword .define => some definition
  | .keyword .assign => some assignment
  | .keyword .branch => some (Instruction.branch <$> condition)
  | .keyword .loop => some (Instruction.loop <$> condition)
  | .keyword .close => some (do finish; pure .close)
  | .keyword .delete => some (Instruction.delete <$> variableAfter first.text)
  | .keyword .read => some (Instruction.read <$> variableAfter first.text)
  | .keyword .fetch => some (do
      let (target, reference) ← property .fetch first.text
      pure (.fetch target reference))
  | .keyword .status => some (do
      let (target, reference) ← property .status first.text
      pure (.status target reference))
  | .keyword .request => some request
  | .keyword .use => some mode
  | .keyword .print => some (do
      let value ← nextOperand
      finish
      pure (.print value))
  | .keyword .leave => some leave
  | .increment => some (do finish; pure (.increment (stepTarget first.text)))
  | .decrement => some (do finish; pure (.decrement (stepTarget first.text)))
  | .name =>
    if kindOf? rest = some (.mark .openParen) then some (callStatement first) else none
  | _ => none

end Reader

namespace Instruction

/-- The instruction that the tokens of a line write; none if the first token begins none. -/
def read? (raw : List String) : Except Cause (Option Instruction) :=
  match raw with
  | [] => .ok none
  | head :: tail =>
    let first := Token.ofRaw head
    if first.kind = .keyword .otherwise then .ok (some (.otherwise tail))
    else
      let rest := tail.map Token.ofRaw
      match Reader.form? first rest with
      | none => .ok none
      | some form => (form rest).map fun result => some result.1

end Instruction

end ApiScript
