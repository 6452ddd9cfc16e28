import ApiScript.Machine.Builtin
import ApiScript.Number.Shortest
import ApiScript.Program
import ApiScript.Text.Part

/-!
# Execution

Blocks, loops and calls are told how to execute one statement, and `execute` ties the knot with a
fuel that bounds the nesting of statements and the rounds of each loop. A fault leaves the machine
as it was when the fault arose, so the active calls can still be seen.
-/
namespace ApiScript

/-- Where control goes after a statement: on, or out of the function. -/
inductive Flow where
  | next
  | leave
  deriving DecidableEq, Repr

namespace Run

/-- The symbol with a name in the innermost frame. -/
def lookup (name : String) : Run Symbol := do
  let m ← machine
  lift (m.store.lookup name)

def resolve (operand : Operand) : Run Value :=
  match operand with
  | .name text => do
    let symbol ← lookup text
    pure symbol.value
  | .number text => pure (.number text)
  | .literal text => pure (.string text)

def resolveAll : List Operand → Run (List Value)
  | [] => pure []
  | operand :: rest => do
    let value ← resolve operand
    let values ← resolveAll rest
    pure (value :: values)

/-- Declares a symbol at the depth of the statement at hand. -/
def declare (target : String) (value : Value) (constant : Bool) (status : Option Nat) :
    Run Unit := do
  let m ← machine
  onStore fun store => store.declare target value m.depth constant status

/-- Warns unless all is well. -/
def warnUnless (well : Bool) (w : Warning) : Run Unit := if well then pure () else warn w

def enterBlock : Run Unit := modify fun m => { m with depth := m.depth + 1 }

def purgeScope (m : Machine) : Machine :=
  if m.modes.purge then { m with store := m.store.cleanup m.depth } else m

def leaveBlock : Run Unit := modify fun m => purgeScope { m with depth := m.depth - 1 }

/-- With warnings on, the test is false before the first status arrives, negated or not. -/
def succeeded (negated : Bool) (m : Machine) : Bool :=
  if m.modes.warns && m.lastStatus.isNone then false else (m.lastStatus == some 200) != negated

def test (condition : Condition) : Run Bool := do
  let m ← machine
  match condition.test with
  | .succeeded => pure (succeeded condition.negated m)
  | .declared name => pure (m.store.declares name != condition.negated)
  | .compares lhs op rhs => do
    let l ← resolve lhs
    let r ← resolve rhs
    warnUnless (lhs.isName || rhs.isName) .constantCondition
    let holds ← lift (l.compare op r)
    pure (holds != condition.negated)

def delete (target : String) : Run Unit :=
  onStore fun store =>
    if store.isRequest target then .ok (store.eraseRequest target)
    else if store.declares target then .ok (store.eraseSymbol target)
    else .error (.undeclaredSymbol target)

/-- A pending request has the status of its latest fetch, any other name that of its symbol. -/
def statusOf (reference : String) : Run (Option Nat) := do
  let m ← machine
  if m.store.isRequest reference then pure (m.requestStatus.get? reference).join
  else do
    let symbol ← lookup reference
    pure symbol.status

def bindStatus (target reference : String) : Run Unit := do
  let status ← statusOf reference
  match status with
  | none => raise (.noStatus reference)
  | some code => declare target (.string (Nat.repr code)) false none

/-- The bookkeeping of a fetch: its status counts as the latest, and its request as fetched. -/
def noteFetch (reference : String) (call : FetchCall) (response : Response) : Run Unit :=
  modify fun m =>
    { m.record (.fetched reference call response) with
      lastStatus := response.status
      requestStatus := m.requestStatus.insert reference response.status
      unfetched := m.unfetched.filter fun id => id != reference }

def fetch (fetcher : Fetcher) (target reference : String) : Run Unit := do
  let m ← machine
  let request ← lift (m.store.request reference)
  let call : FetchCall := ⟨request.method, request.endpoint, request.timeout⟩
  let response := fetcher m.calls call
  noteFetch reference call response
  if response.body.isNone && m.modes.warns then raise (.unreadableResponse request.endpoint)
  else do
    warnUnless (response.status == some 200) (.failedStatus request.endpoint)
    declare target (.string (response.body.getD "")) false response.status

/-- An endpoint without a point names a symbol, whose text without blanks is the endpoint. -/
def resolveEndpoint (request : Request) : Run Request :=
  if Text.hasPart "." request.endpoint then pure request
  else do
    let symbol ← lookup request.endpoint
    pure { request with endpoint := Text.squeeze symbol.value.text }

def register (request : Request) : Run Unit := do
  let request ← resolveEndpoint request
  warnUnless (Text.hasPart "https" request.endpoint) .insecureEndpoint
  onStore fun store => store.registerRequest request.target request
  modify fun m =>
    { m.record (.registered request.target) with unfetched := m.unfetched ++ [request.target] }

/-- Warnings are asked for in the first two statements or never. -/
def use (mode : Mode) : Run Unit :=
  match mode with
  | .debug => modify fun m => { m with modes := { m.modes with debug := true } }
  | .scope => modify fun m => { m with modes := { m.modes with purge := true } }
  | .warns => do
    let m ← machine
    if 2 < m.executed then raise .lateUse
    else modify fun m => { m with modes := { m.modes with warns := true } }

def valueOfLine (line : String) : Value :=
  let text := Text.trim line
  if isNumeric text then .number text else .string line

def read (target : String) : Run Unit := do
  let line ← readLine
  declare target (valueOfLine line) false none

/-- A function that declares a kind returns values of that kind only. -/
def pushReturned (value : Value) : Run Unit := do
  let m ← machine
  match m.returns with
  | some kind =>
    if value.kind = kind then modify fun m => { m with returned := value :: m.returned }
    else raise (.returnKind m.scope kind)
  | none => modify fun m => { m with returned := value :: m.returned }

def leave (operand : Option Operand) : Run Unit :=
  match operand with
  | none => pure ()
  | some operand => do
    let value ← resolve operand
    pushReturned value

def charAt (target source : String) (position : Nat) : Run Unit := do
  let symbol ← lookup source
  match symbol.value.kind with
  | .num => raise (.indexOfNumber source)
  | .str =>
    match symbol.value.text.toList[position]? with
    | none => raise (.indexOutOfRange source position)
    | some c => declare target (.string (String.ofList [c])) false none

/-- Adds a whole number to a symbol, which keeps its depth. -/
def step (target : String) (delta : Int) : Run Unit := do
  let symbol ← lookup target
  match symbol.value.kind with
  | .str => raise (.notNumeric target)
  | .num =>
    if symbol.constant then raise (.constantModified target)
    else do
      let n ← lift (Value.numberOf symbol.value.text)
      onStore fun store =>
        store.declare target (.number (n.offset delta).toText) symbol.depth false none

/-- Warns of the statement that a `return` keeps from being reached. -/
def warnUnreachable (rest : List Statement) : Run Unit :=
  match rest with
  | [] => pure ()
  | next :: _ => do
    modify fun m => { m with location := next.location }
    let m ← machine
    warn (.unreachableCode m.scope)

/-- Executes statements in order until one leaves the function. -/
def block (exec : Statement → Run Flow) : List Statement → Run Flow
  | [] => pure .next
  | s :: rest => do
    let flow ← exec s
    match flow with
    | .next => block exec rest
    | .leave => do
      warnUnreachable rest
      pure .leave

/-- Repeats the body while the test holds, for as many rounds as there is fuel. -/
def repeatWhile (holds : Run Bool) (body : Run Flow) : Nat → Run Flow
  | 0 => unfinished
  | fuel + 1 => do
    let again ← holds
    if again then do
      let flow ← body
      match flow with
      | .next => repeatWhile holds body fuel
      | .leave => pure .leave
    else pure .next

/-- Runs one block deeper. -/
def nested (x : Run Flow) : Run Flow := do
  enterBlock
  let flow ← x
  leaveBlock
  pure flow

def branch (exec : Statement → Run Flow) (condition : Condition) (body alt : List Statement) :
    Run Flow :=
  nested do
    let holds ← test condition
    block exec (if holds then body else alt)

def loop (exec : Statement → Run Flow) (fuel : Nat) (condition : Condition)
    (body : List Statement) : Run Flow :=
  nested (repeatWhile (test condition) (block exec body) fuel)

/-- Binds parameters to arguments in the innermost frame, pair by pair. -/
def bindParams (depth : Nat) : List (String × Value) → Run Unit
  | [] => pure ()
  | (param, value) :: rest => do
    onStore fun store => store.declare param value depth false none
    bindParams depth rest

def enterFunction (name : String) (returns : Option Kind) : Run Unit := modify fun m =>
  { m with scope := name, callers := m.scope :: m.callers, returns }

/-- The innermost caller is the function at hand again. -/
def leaveFunction (returns : Option Kind) : Run Unit := modify fun m =>
  match m.callers with
  | [] => { m with returns }
  | caller :: rest => { m with scope := caller, callers := rest, returns }

/-- Enters a function in a frame of its own, which holds the arguments. -/
def openFrame (name : String) (params : List String) (args : List Value) (returns : Option Kind) :
    Run Unit := do
  let caller ← machine
  modify fun m => { m with store := m.store.pushFrame }
  bindParams caller.depth (params.zip args)
  enterFunction name returns

/-- Runs the body of a function in a frame of its own. -/
def activate (exec : Statement → Run Flow) (name : String) (params : List String)
    (args : List Value) (returns : Option Kind) (body : List Statement) : Run Unit := do
  let caller ← machine
  openFrame name params args returns
  let _ ← block exec body
  leaveFunction caller.returns
  onStore Store.popFrame

def returnsOf (s : Statement) : Option Kind :=
  match s.instruction with
  | .define signature => signature.returns
  | _ => none

/-- Calls a function of the program with values for its parameters. -/
def callFunction (program : Program) (exec : Statement → Run Flow) (name : String)
    (args : List Value) : Run Unit := do
  let m ← machine
  let params ← lift (m.store.signature name)
  match program.function? name with
  | none => raise (.undeclaredFunction name)
  | some function =>
    if params.length ≠ args.length then raise (.argumentCount name)
    else if maxCallDepth ≤ m.callers.length then raise (.callDepth maxCallDepth)
    else activate exec name params args (returnsOf function) function.body

/-- A value that the call gives lies on top of the returned values afterwards. -/
def call (program : Program) (exec : Statement → Run Flow) (c : Call) : Run Unit := do
  let args ← resolveAll c.args
  let m ← machine
  match m.builtins.get? c.name with
  | some builtin => do
    let result ← builtin.call args
    match result with
    | none => pure ()
    | some value => modify fun m => { m with returned := value :: m.returned }
  | none => callFunction program exec c.name args

/-- Keeps as many returned values as there were, dropping the later ones. -/
def truncateReturned (count : Nat) : Run Unit := modify fun m =>
  { m with returned := m.returned.drop (m.returned.length - count) }

def callAndDrop (program : Program) (exec : Statement → Run Flow) (c : Call) : Run Unit := do
  let before ← machine
  call program exec c
  truncateReturned before.returned.length

def callInto (program : Program) (exec : Statement → Run Flow) (target : String) (c : Call) :
    Run Unit := do
  let before ← machine
  call program exec c
  let after ← machine
  match after.returned with
  | [] => raise (.voidResult c.name)
  | value :: _ =>
    if after.returned.length ≤ before.returned.length then raise (.voidResult c.name)
    else do
      truncateReturned before.returned.length
      declare target value false none

/-- Goes on with the next statement afterwards. -/
def andNext (x : Run Unit) : Run Flow := do
  x
  pure .next

/-- What a statement does, given how the statements inside it are executed. -/
def perform (fetcher : Fetcher) (program : Program) (exec : Statement → Run Flow) (fuel : Nat)
    (s : Statement) : Run Flow :=
  match s.instruction with
  | .define _ => pure .next
  | .assign target value constant => andNext do
      let v ← resolve value
      declare target v constant none
  | .branch condition => branch exec condition s.body s.alt
  | .loop condition => loop exec fuel condition s.body
  | .otherwise chained => raise (.notInvocable (Instruction.otherwise chained).keyword)
  | .close => raise (.notInvocable Instruction.close.keyword)
  | .delete target => andNext (delete target)
  | .status target reference => andNext (bindStatus target reference)
  | .fetch target reference => andNext (fetch fetcher target reference)
  | .request request => andNext (register request)
  | .use mode => andNext (use mode)
  | .print value => andNext do
      let v ← resolve value
      emit v.text
  | .read target => andNext (read target)
  | .leave value => do
      leave value
      pure .leave
  | .call c => andNext (callAndDrop program exec c)
  | .callInto target c => andNext (callInto program exec target c)
  | .index target source position => andNext (charAt target source position)
  | .increment target => andNext (step target 1)
  | .decrement target => andNext (step target (-1))

def begin (s : Statement) : Run Unit := modify fun m =>
  { m with location := s.location, executed := m.executed + 1 }

def execute (fetcher : Fetcher) (program : Program) : Nat → Statement → Run Flow
  | 0, _ => unfinished
  | fuel + 1, s => do
    begin s
    locating s.location (perform fetcher program (execute fetcher program fuel) fuel s)

/-- The file of the last function, which faults without a location are traced to. -/
def lastFile (program : Program) (file : String) : String :=
  (program.statements.getLast?.map fun s => s.location.file).getD file

def enterMain (program : Program) : Run Unit := modify fun m =>
  { m with
    location := { m.location with file := lastFile program m.location.file }
    scope := entryFunction
    returns := none
    store := m.store.pushFrame }

def warnUnfetched : List String → Run Unit
  | [] => pure ()
  | id :: rest => do
    warn (.neverFetched id)
    warnUnfetched rest

def emitAll : List String → Run Unit
  | [] => pure ()
  | line :: rest => do
    emit line
    emitAll rest

def dumpStore : Run Unit := do
  let m ← machine
  if m.modes.debug then emitAll m.store.dump else pure ()

def leaveMain (location : Location) : Run Unit := do
  modify fun m => purgeScope { m with location }
  let m ← machine
  modify fun m => { m with unfetched := [] }
  warnUnfetched m.unfetched
  dumpStore
  onStore Store.popFrame

end Run

namespace Program

/-- Runs the entry function of a program. -/
def run (fetcher : Fetcher) (fuel : Nat) (program : Program) : Run Unit :=
  match program.function? entryFunction with
  | none => Run.raise (.undeclaredFunction entryFunction)
  | some main => do
    Run.enterMain program
    let _ ← Run.block (Run.execute fetcher program fuel) main.body
    Run.leaveMain main.location

end Program

end ApiScript
