import ApiScript.Proofs.FullerFrames
import ApiScript.Proofs.Histories

/-!
# The ledger of requests and warnings

What a moment of a run does about requests can be told from its first task and its state: it
registers a request, drops or fetches a pending one, passes a statement after a `return`, or
finishes the run. The ledger of the machine holds what is known of requests and fetches, and the
warnings about them. A step enters what its moment does, however the step ends, and nothing else.
-/
namespace ApiScript

open Run

inductive Deed where
  /-- The endpoint is that under which the request is pending from now on. -/
  | registers (request : Request)
  | drops (id : String)
  | fetches (id : String) (call : FetchCall) (response : Response)
  /-- Passes, on the way out of a function, a statement that is not reached. -/
  | passes (function : String) (location : Location)
  /-- Leaves the entry function, with warnings or without. -/
  | finishes (location : Location) (warns : Bool)
  deriving DecidableEq, Repr

/-- The request with its endpoint: one without a point names a symbol, whose text without blanks is
the endpoint. -/
def Store.resolved? (s : Store) (request : Request) : Option Request :=
  if Text.hasPart "." request.endpoint then some request
  else (s.lookup request.endpoint).toOption.map fun symbol =>
    { request with endpoint := Text.squeeze symbol.value.text }

def Request.call (request : Request) : FetchCall :=
  ⟨request.method, request.endpoint, request.timeout⟩

def Machine.deed? (fetcher : Fetcher) (m : Machine) : Instruction → Option Deed
  | .request request =>
    (m.store.resolved? request).bind fun resolved =>
      if m.store.isRequest resolved.target then none else some (.registers resolved)
  | .delete target => if m.store.isRequest target then some (.drops target) else none
  | .fetch _ reference =>
    (m.store.requests.get? reference).map fun request =>
      .fetches reference request.call (fetcher m.calls request.call)
  | _ => none

inductive Machine.Does (fetcher : Fetcher) (m : Machine) : Instruction → Deed → Prop
  | registers {request resolved : Request} (hresolved : m.store.resolved? request = some resolved)
    (hid : m.store.isRequest resolved.target = false) :
    Does fetcher m (.request request) (.registers resolved)
  | drops {target : String} (hid : m.store.isRequest target = true) :
    Does fetcher m (.delete target) (.drops target)
  | fetches {target reference : String} {request : Request}
    (hrequest : m.store.requests.get? reference = some request) :
    Does fetcher m (.fetch target reference)
      (.fetches reference request.call (fetcher m.calls request.call))

theorem Machine.does_of_deed? {fetcher : Fetcher} {m : Machine} {i : Instruction} {deed : Deed}
    (h : m.deed? fetcher i = some deed) : m.Does fetcher i deed := by
  unfold deed? at h
  split at h
  · obtain ⟨resolved, hresolved, hdeed⟩ := Option.bind_eq_some_iff.1 h
    split at hdeed
    · cases hdeed
    · next hid =>
      cases hdeed
      exact .registers hresolved (Bool.eq_false_iff.2 hid)
  · split at h
    · next hid =>
      cases h
      exact .drops hid
    · cases h
  · obtain ⟨request, hrequest, rfl⟩ := Option.map_eq_some_iff.1 h
    exact .fetches hrequest
  · cases h

def Moment.deed? (fetcher : Fetcher) (c : Moment) : Option Deed :=
  match c.flow, c.tasks with
  | .next, .statements (s :: _) :: _ => c.machine.deed? fetcher s.instruction
  | .leave, .statements (next :: _) :: _ =>
    if c.machine.modes.warns then some (.passes c.machine.scope next.location) else none
  | _, .leaveMain location :: _ => some (.finishes location c.machine.modes.warns)
  | _, _ => none

namespace Event

def missing? : Event → Option (String × Location)
  | .warned (.neverFetched id) location => some (id, location)
  | _ => none

def unreachable? : Event → Option (String × Location)
  | .warned (.unreachableCode function) location => some (function, location)
  | _ => none

structure Unlisted (e : Event) : Prop where
  call : e.call? = none := by rfl
  missing : e.missing? = none := by rfl
  unreachable : e.unreachable? = none := by rfl

end Event

def Machine.missing (m : Machine) : List (String × Location) :=
  m.journal.toList.filterMap Event.missing?

def Machine.unreachable (m : Machine) : List (String × Location) :=
  m.journal.toList.filterMap Event.unreachable?

@[ext]
structure Ledger where
  pending : Table Request
  unfetched : List String
  lastStatus : Option Nat
  statuses : Table (Option Nat)
  calls : List FetchCall
  missing : List (String × Location)
  unreachable : List (String × Location)

def Machine.ledger (m : Machine) : Ledger :=
  ⟨m.store.requests, m.unfetched, m.lastStatus, m.requestStatus, m.calls,
    m.missing, m.unreachable⟩

namespace Ledger

def enter (l : Ledger) : Deed → Ledger
  | .registers request =>
    { l with
      pending := l.pending.insert request.target request
      unfetched := l.unfetched ++ [request.target] }
  | .drops id => { l with pending := l.pending.erase id }
  | .fetches id call response =>
    { l with
      unfetched := l.unfetched.filter fun other => other != id
      lastStatus := response.status
      statuses := l.statuses.insert id response.status
      calls := l.calls ++ [call] }
  | .passes function location =>
    { l with unreachable := l.unreachable ++ [(function, location)] }
  | .finishes location warns =>
    { l with
      unfetched := []
      missing := l.missing ++ if warns then l.unfetched.map fun id => (id, location) else [] }

def note (l : Ledger) : Option Deed → Ledger
  | none => l
  | some deed => l.enter deed

@[simp]
theorem note_none (l : Ledger) : l.note none = l := rfl

@[simp]
theorem note_some (l : Ledger) (deed : Deed) : l.note (some deed) = l.enter deed := rfl

end Ledger

theorem Machine.filterMap_record {α : Type} (f : Event → Option α) (m : Machine) (e : Event) :
    (m.record e).journal.toList.filterMap f =
      m.journal.toList.filterMap f ++ (f e).toList := by
  rw [record, Array.toList_push, List.filterMap_append]
  cases hf : f e <;> simp [hf]

/-- A machine with one event more than another, and all else in its own way. -/
theorem Machine.ledger_of_journal {m m' : Machine} {e : Event}
    (h : m'.journal = m.journal.push e) :
    m'.ledger =
      ⟨m'.store.requests, m'.unfetched, m'.lastStatus, m'.requestStatus,
        m.calls ++ e.call?.toList, m.missing ++ e.missing?.toList,
        m.unreachable ++ e.unreachable?.toList⟩ := by
  have hfilter {α : Type} (f : Event → Option α) :
      m'.journal.toList.filterMap f = m.journal.toList.filterMap f ++ (f e).toList := by
    rw [h]
    exact m.filterMap_record f e
  rw [ledger, calls, missing, unreachable, hfilter, hfilter, hfilter]
  rfl

theorem Event.Unlisted.ledger_record {e : Event} (h : e.Unlisted) (m : Machine) :
    (m.record e).ledger = m.ledger := by
  rw [Machine.ledger_of_journal (m := m) rfl, h.call, h.missing, h.unreachable]
  simp only [Option.toList_none, List.append_nil]
  rfl

abbrev SameLedger (m m' : Machine) : Prop := m'.ledger = m.ledger

namespace Run

variable {α : Type}

/-- What no change of a kind touches is the same at the end. -/
theorem Makes.unchanged {β : Type} {f : Machine → β} {x : Run α}
    (hx : Makes (fun m m' => f m' = f m) x) (m : Machine) : f (x m).machine = f m := by
  have hm := hx m
  revert hm
  generalize (x m).machine = m'
  intro hm
  induction hm with
  | refl => rfl
  | tail _ hsame ih => exact hsame.trans ih

theorem Makes.ledger {x : Run α} (hx : Makes SameLedger x) (m : Machine) :
    (x m).machine.ledger = m.ledger := hx.unchanged m

theorem sameLedger_withStore {m : Machine} {store : Store}
    (h : store.requests = m.store.requests) : SameLedger m { m with store } := by
  simp only [SameLedger, Machine.ledger, h]
  rfl

theorem sameLedger_write (target : String) (value : Value) (depth : Nat) (constant : Bool)
    (status : Option Nat) :
    Makes SameLedger (onStore fun store => store.declare target value depth constant status) :=
  .onStore fun _ _ h => sameLedger_withStore (Store.requests_declare h)

theorem sameLedger_declare (target : String) (value : Value) (constant : Bool)
    (status : Option Nat) : Makes SameLedger (declare target value constant status) :=
  Makes.machine.bind fun _ => sameLedger_write _ _ _ _ _

theorem sameLedger_emit (line : String) : Makes SameLedger (emit line) :=
  .modify fun m => Event.Unlisted.ledger_record {} m

theorem sameLedger_warnUnless (well : Bool) {w : Warning}
    (hw : ∀ location, (Event.warned w location).Unlisted) :
    Makes SameLedger (warnUnless well w) := by
  cases well with
  | true => exact .pure _
  | false =>
    refine .modify fun m => ?_
    by_cases hwarns : m.modes.warns = true
    · rw [if_pos hwarns]
      exact (hw _).ledger_record m
    · rw [if_neg hwarns]

theorem sameLedger_test (condition : Condition) : Makes SameLedger (test condition) := by
  refine Makes.machine.bind fun m => ?_
  cases condition.test with
  | succeeded => exact .pure _
  | declared name => exact .pure _
  | compares lhs op rhs =>
    refine (makes_resolve lhs).bind fun l => (makes_resolve rhs).bind fun r => ?_
    exact (sameLedger_warnUnless _ fun _ => {}).bind fun _ => (Makes.lift _).bind fun _ => .pure _

theorem sameLedger_bindStatus (target reference : String) :
    Makes SameLedger (bindStatus target reference) := by
  refine (makes_statusOf reference).bind fun status => ?_
  cases status with
  | none => exact .raise _
  | some code => exact sameLedger_declare _ _ _ _

theorem sameLedger_use (mode : Mode) : Makes SameLedger (use mode) := by
  have hmodes (f : Modes → Modes) :
      Makes SameLedger (modify fun m => { m with modes := f m.modes }) :=
    .modify fun _ => rfl
  cases mode with
  | debug => exact hmodes fun modes => { modes with debug := true }
  | scope => exact hmodes fun modes => { modes with purge := true }
  | warns =>
    refine Makes.machine.bind fun m => ?_
    split
    · exact .raise _
    · exact hmodes fun modes => { modes with warns := true }

theorem sameLedger_readLine : Makes SameLedger readLine := by
  intro m
  have hread (rest : List InputLine) : SameLedger m { m with input := rest } := rfl
  unfold readLine
  split
  · exact .single (hread _)
  · exact .single (hread _)

theorem sameLedger_read (target : String) : Makes SameLedger (read target) :=
  sameLedger_readLine.bind fun _ => sameLedger_declare _ _ _ _

theorem sameLedger_leave (operand : Option Operand) : Makes SameLedger (leave operand) := by
  have hpush (value : Value) :
      Makes SameLedger (modify fun m => { m with returned := value :: m.returned }) :=
    .modify fun _ => rfl
  cases operand with
  | none => exact .pure _
  | some operand =>
    refine (makes_resolve operand).bind fun value => Makes.machine.bind fun m => ?_
    cases m.returns with
    | none => exact hpush value
    | some kind =>
      dsimp only
      split
      · exact hpush value
      · exact .raise _

theorem sameLedger_charAt (target source : String) (position : Nat) :
    Makes SameLedger (charAt target source position) := by
  refine (makes_lookup source).bind fun symbol => ?_
  cases symbol.value.kind with
  | num => exact .raise _
  | str =>
    dsimp only
    split
    · exact .raise _
    · exact sameLedger_declare _ _ _ _

theorem sameLedger_step (target : String) (delta : Int) :
    Makes SameLedger (step target delta) := by
  refine (makes_lookup target).bind fun symbol => ?_
  cases symbol.value.kind with
  | str => exact .raise _
  | num =>
    dsimp only
    split
    · exact .raise _
    · exact (Makes.lift _).bind fun n => sameLedger_write _ _ _ _ _

theorem sameLedger_builtin (builtin : Builtin) (args : List Value) :
    Makes SameLedger (builtin.call args) := by
  by_cases hinput : builtin = .input
  · rw [hinput]
    change Makes SameLedger (Builtin.promptAndRead args)
    unfold Builtin.promptAndRead
    split
    · exact sameLedger_readLine.bind fun _ => .pure _
    · refine Makes.bind (.modify fun m => Event.Unlisted.ledger_record {} m) fun _ => ?_
      exact sameLedger_readLine.bind fun _ => .pure _
    · exact .raise _
  · obtain ⟨result, hresult⟩ := builtin_eq_lift hinput args
    rw [hresult]
    exact .lift result

theorem sameLedger_popFrame : Makes SameLedger (onStore Store.popFrame) := by
  refine .onStore fun m store h => sameLedger_withStore ?_
  unfold Store.popFrame at h
  split at h
  · cases h
  · cases h
    rfl

theorem sameLedger_leaveFunction (returns : Option Kind) :
    Makes SameLedger (leaveFunction returns) := by
  refine .modify fun m => ?_
  split
  · rfl
  · rfl

theorem sameLedger_takeReturned (target name : String) (count : Nat) :
    Makes SameLedger (takeReturned target name count) := by
  refine Makes.machine.bind fun after => ?_
  split
  · exact .raise _
  · split
    · exact .raise _
    · exact Makes.bind (.modify fun _ => rfl) fun _ => sameLedger_declare _ _ _ _

theorem sameLedger_bindParams (depth : Nat) (bindings : List (String × Value)) :
    Makes SameLedger (bindParams depth bindings) := by
  induction bindings with
  | nil => exact .pure _
  | cons binding rest ih => exact (sameLedger_write _ _ _ _ _).bind fun _ => ih

theorem sameLedger_openFrame (name : String) (params : List String) (args : List Value)
    (returns : Option Kind) : Makes SameLedger (openFrame name params args returns) := by
  refine Makes.machine.bind fun _ => Makes.bind (.modify fun _ => rfl) fun _ => ?_
  exact (sameLedger_bindParams _ _).bind fun _ => .modify fun _ => rfl

theorem sameLedger_startCall (program : Program) (c : Call) :
    Makes SameLedger (startCall program c) := by
  refine (makes_resolveAll c.args).bind fun args => Makes.machine.bind fun m => ?_
  cases m.builtins.get? c.name with
  | some builtin =>
    refine (sameLedger_builtin builtin args).bind fun result => ?_
    cases result with
    | none => exact .pure _
    | some value => exact Makes.bind (.modify fun _ => rfl) fun _ => .pure _
  | none =>
    refine Makes.machine.bind fun _ => (Makes.lift _).bind fun params => ?_
    cases program.function? c.name with
    | none => exact .raise _
    | some function =>
      dsimp only
      split
      · exact .raise _
      · split
        · exact .raise _
        · exact (sameLedger_openFrame _ _ _ _).bind fun _ => .pure _

theorem sameLedger_emitAll (lines : List String) : Makes SameLedger (emitAll lines) := by
  induction lines with
  | nil => exact .pure _
  | cons line rest ih => exact (sameLedger_emit line).bind fun _ => ih

theorem sameLedger_dumpStore : Makes SameLedger dumpStore := by
  refine Makes.machine.bind fun m => ?_
  split
  · exact sameLedger_emitAll _
  · exact .pure _

theorem ledger_purgeScope (m : Machine) : (purgeScope m).ledger = m.ledger := by
  unfold purgeScope
  split
  · apply sameLedger_withStore
    unfold Store.cleanup
    split
    · rfl
    · rfl
  · rfl

theorem succeeds_warnUnless (well : Bool) (w : Warning) : Succeeds (warnUnless well w) := by
  cases well with
  | true => exact .pure _
  | false => exact .modify _

section Requests

variable {m : Machine} {request resolved : Request}

theorem lookup_of_ok {name : String} {symbol : Symbol} (h : m.store.lookup name = .ok symbol) :
    lookup name m = .done symbol m := by
  have hlookup : lookup name m = lift (m.store.lookup name) m := rfl
  rw [hlookup, h]
  rfl

theorem lookup_of_error {name : String} {cause : Cause} (h : m.store.lookup name = .error cause) :
    lookup name m = .failed ⟨cause, none⟩ m := by
  have hlookup : lookup name m = lift (m.store.lookup name) m := rfl
  rw [hlookup, h]
  rfl

theorem resolveEndpoint_of_some (h : m.store.resolved? request = some resolved) :
    resolveEndpoint request m = .done resolved m := by
  unfold Store.resolved? at h
  unfold resolveEndpoint
  split at h
  · next hpoint =>
    cases h
    rw [if_pos hpoint]
    rfl
  · next hpoint =>
    rw [if_neg hpoint]
    cases hlookup : m.store.lookup request.endpoint with
    | ok symbol =>
      rw [hlookup] at h
      cases h
      rw [bind_of_done (lookup_of_ok hlookup)]
      rfl
    | error cause =>
      rw [hlookup] at h
      cases h

theorem resolveEndpoint_of_none (h : m.store.resolved? request = none) :
    ∃ fault, resolveEndpoint request m = .failed fault m := by
  unfold Store.resolved? at h
  unfold resolveEndpoint
  split at h
  · cases h
  · next hpoint =>
    rw [if_neg hpoint]
    cases hlookup : m.store.lookup request.endpoint with
    | ok symbol =>
      rw [hlookup] at h
      cases h
    | error cause => exact ⟨⟨cause, none⟩, by rw [bind_apply, lookup_of_error hlookup]⟩

/-- A registration that fails leaves the ledger. -/
theorem ledger_register (fetcher : Fetcher) (request : Request) (m : Machine) :
    (register request m).machine.ledger =
      m.ledger.note (m.deed? fetcher (.request request)) := by
  have hdeed : m.deed? fetcher (.request request) =
      (m.store.resolved? request).bind fun resolved =>
        if m.store.isRequest resolved.target then none else some (.registers resolved) := rfl
  rw [hdeed, register]
  cases hresolved : m.store.resolved? request with
  | none =>
    obtain ⟨fault, hfault⟩ := resolveEndpoint_of_none hresolved
    rw [bind_apply, hfault]
    rfl
  | some resolved =>
    let https := Text.hasPart "https" resolved.endpoint
    obtain ⟨_, m₁, hwarned⟩ := succeeds_warnUnless https .insecureEndpoint m
    have hsame : Makes SameLedger (warnUnless https .insecureEndpoint) :=
      sameLedger_warnUnless https fun _ => {}
    have hledger : m₁.ledger = m.ledger := by
      have hm := hsame.ledger m
      rwa [hwarned] at hm
    have hpending : m₁.store.requests = m.store.requests := congrArg Ledger.pending hledger
    rw [bind_of_done (resolveEndpoint_of_some hresolved), bind_of_done hwarned, Option.bind_some,
      Store.isRequest, ← hpending, ← hledger]
    by_cases hid : m₁.store.requests.contains resolved.target = true
    · have hrefused : m₁.store.registerRequest resolved.target resolved =
          .error (.requestRedeclared resolved.target) := if_pos hid
      rw [if_pos hid, bind_apply, onStore, hrefused]
      rfl
    · have htaken : m₁.store.registerRequest resolved.target resolved =
          .ok { m₁.store with
            requests := m₁.store.requests.insert resolved.target resolved } := if_neg hid
      rw [if_neg hid, bind_apply, onStore, htaken]
      refine (Machine.ledger_of_journal (m := m₁) rfl).trans ?_
      exact Ledger.ext rfl rfl rfl rfl (List.append_nil _) (List.append_nil _) (List.append_nil _)

theorem ledger_delete (fetcher : Fetcher) (target : String) (m : Machine) :
    (delete target m).machine.ledger =
      m.ledger.note (m.deed? fetcher (.delete target)) := by
  have hdeed : m.deed? fetcher (.delete target) =
      if m.store.isRequest target then some (.drops target) else none := rfl
  rw [hdeed, delete, onStore]
  split
  · next store hstore =>
    split at hstore
    · next hpending =>
      cases hstore
      rw [if_pos hpending]
      rfl
    · next hpending =>
      rw [if_neg hpending]
      split at hstore
      · cases hstore
        exact sameLedger_withStore (Store.requests_eraseSymbol _ _)
      · cases hstore
  · next hstore =>
    split at hstore
    · cases hstore
    · next hpending =>
      rw [if_neg hpending]
      rfl

def bindResponse (target : String) (call : FetchCall) (response : Response) : Run Unit := do
  let m ← machine
  if response.body.isNone && m.modes.warns then raise (.unreadableResponse call.endpoint)
  else do
    warnUnless (response.status == some 200) (.failedStatus call.endpoint)
    declare target (.string (response.body.getD "")) false response.status

theorem fetch_of_pending {reference : String}
    (h : m.store.requests.get? reference = some request) (fetcher : Fetcher) (target : String) :
    fetch fetcher target reference m =
      (noteFetch reference request.call (fetcher m.calls request.call) >>= fun _ =>
        bindResponse target request.call (fetcher m.calls request.call)) m := by
  have hrequest : lift (m.store.request reference) m = .done request m := by
    rw [Store.request, h]
    rfl
  have hmachine : machine m = .done m m := rfl
  rw [fetch, bind_of_done hmachine, bind_of_done hrequest]
  rfl

theorem fetch_of_not_pending {reference : String} (h : m.store.requests.get? reference = none)
    (fetcher : Fetcher) (target : String) :
    fetch fetcher target reference m = .failed ⟨.unregisteredRequest reference, none⟩ m := by
  have hrequest : lift (m.store.request reference) m =
      .failed ⟨.unregisteredRequest reference, none⟩ m := by
    rw [Store.request, h]
    rfl
  have hmachine : machine m = .done m m := rfl
  rw [fetch, bind_of_done hmachine, bind_apply, hrequest]

theorem sameLedger_bindResponse (target : String) (call : FetchCall) (response : Response) :
    Makes SameLedger (bindResponse target call response) := by
  refine Makes.machine.bind fun m => ?_
  split
  · exact .raise _
  · exact (sameLedger_warnUnless _ fun _ => {}).bind fun _ => sameLedger_declare _ _ _ _

/-- A fetch is entered before it can fail. -/
theorem ledger_fetch (fetcher : Fetcher) (target reference : String) (m : Machine) :
    (fetch fetcher target reference m).machine.ledger =
      m.ledger.note (m.deed? fetcher (.fetch target reference)) := by
  have hdeed : m.deed? fetcher (.fetch target reference) =
      (m.store.requests.get? reference).map fun request =>
        .fetches reference request.call (fetcher m.calls request.call) := rfl
  rw [hdeed]
  cases hrequest : m.store.requests.get? reference with
  | none =>
    rw [fetch_of_not_pending hrequest]
    rfl
  | some request =>
    rw [fetch_of_pending hrequest]
    refine ((sameLedger_bindResponse target _ _).ledger _).trans ?_
    refine (Machine.ledger_of_journal (m := m) rfl).trans ?_
    exact Ledger.ext rfl rfl rfl rfl rfl (List.append_nil _) (List.append_nil _)

theorem ledger_warnUnfetched (ids : List String) (m : Machine) :
    (warnUnfetched ids m).machine.ledger =
      { m.ledger with
        missing := m.missing ++
          if m.modes.warns then ids.map fun id => (id, m.location) else [] } := by
  induction ids generalizing m with
  | nil =>
    have hsame : (warnUnfetched [] m).machine = m := rfl
    rw [hsame, List.map_nil, ite_self, List.append_nil]
    rfl
  | cons id rest ih =>
    let warned := if m.modes.warns then m.record (.warned (.neverFetched id) m.location) else m
    have hwarn : warnUnfetched (id :: rest) m = warnUnfetched rest warned := rfl
    by_cases hwarns : m.modes.warns = true
    · have hwarned : warned = m.record (.warned (.neverFetched id) m.location) := if_pos hwarns
      have hmodes : warned.modes.warns = true := by rwa [hwarned]
      have hrecorded := Machine.ledger_of_journal (congrArg Machine.journal hwarned)
      have hcalls := (congrArg Ledger.calls hrecorded).trans (List.append_nil _)
      have hmissing : warned.missing = m.missing ++ [(id, m.location)] :=
        congrArg Ledger.missing hrecorded
      have hunreachable := (congrArg Ledger.unreachable hrecorded).trans (List.append_nil _)
      rw [hwarn, ih, if_pos hmodes, if_pos hwarns, hmissing, List.append_assoc, hwarned]
      exact Ledger.ext rfl rfl rfl rfl (hwarned ▸ hcalls) rfl (hwarned ▸ hunreachable)
    · have hwarned : warned = m := if_neg hwarns
      rw [hwarn, hwarned, ih, if_neg hwarns, if_neg hwarns]

theorem ledger_leaveMain (location : Location) (m : Machine) :
    (leaveMain location m).machine.ledger =
      m.ledger.enter (.finishes location m.modes.warns) := by
  let purged := purgeScope { m with location }
  have hpurged : purged.ledger = m.ledger := ledger_purgeScope { m with location }
  have hmodes : purged.modes = m.modes ∧ purged.location = location := by
    unfold purged purgeScope
    split
    · exact ⟨rfl, rfl⟩
    · exact ⟨rfl, rfl⟩
  have hunfetched : purged.unfetched = m.unfetched := congrArg Ledger.unfetched hpurged
  have hforgotten : Machine.ledger { purged with unfetched := [] } =
      { m.ledger with unfetched := [] } := by
    rw [← hpurged]
    rfl
  obtain ⟨_, m₁, hwarn⟩ := succeeds_warnUnfetched purged.unfetched { purged with unfetched := [] }
  have hwarned := ledger_warnUnfetched purged.unfetched { purged with unfetched := [] }
  have hleave : leaveMain location m = (dumpStore >>= fun _ => onStore Store.popFrame) m₁ := by
    have hforget : leaveMain location m = (warnUnfetched purged.unfetched >>= fun _ =>
      dumpStore >>= fun _ => onStore Store.popFrame) { purged with unfetched := [] } := rfl
    rw [hforget, bind_of_done hwarn]
  rw [hleave, (sameLedger_dumpStore.bind fun _ => sameLedger_popFrame).ledger]
  rw [hwarn, hforgotten, hunfetched] at hwarned
  refine hwarned.trans (Ledger.ext rfl rfl rfl rfl rfl ?_ rfl)
  have hmissing : purged.missing = m.missing := congrArg Ledger.missing hpurged
  rw [← hmodes.1, ← hmodes.2]
  exact congrArg (· ++ _) hmissing

end Requests

section Steps

variable {fetcher : Fetcher} {program : Program}

/-- What a statement that executes no other one enters. -/
theorem ledger_perform_of_isAtomic {s : Statement} (h : s.instruction.isAtomic = true)
    (exec : Statement → Run Flow) (fuel : Nat) (m : Machine) :
    (perform fetcher program exec fuel s m).machine.ledger =
      m.ledger.note (m.deed? fetcher s.instruction) := by
  have hidle {x : Run Flow} (hx : Makes SameLedger x) :
      (x m).machine.ledger = m.ledger.note none := hx.ledger m
  have hwriting {x : Run Unit} {deed : Option Deed}
      (hx : (x m).machine.ledger = m.ledger.note deed) :
      (andNext x m).machine.ledger = m.ledger.note deed := by
    rw [andNext, machine_map x fun _ => Flow.next]
    exact hx
  unfold perform
  cases hi : s.instruction with
  | define signature => exact hidle (.pure _)
  | assign target value constant =>
    exact hidle (.andNext ((makes_resolve value).bind fun _ => sameLedger_declare _ _ _ _))
  | branch condition => simp [hi, Instruction.isAtomic] at h
  | loop condition => simp [hi, Instruction.isAtomic] at h
  | otherwise chained => exact hidle (.raise _)
  | close => exact hidle (.raise _)
  | delete target => exact hwriting (ledger_delete fetcher target m)
  | status target reference => exact hidle (.andNext (sameLedger_bindStatus target reference))
  | fetch target reference => exact hwriting (ledger_fetch fetcher target reference m)
  | request request => exact hwriting (ledger_register fetcher request m)
  | use mode => exact hidle (.andNext (sameLedger_use mode))
  | print value =>
    exact hidle (.andNext ((makes_resolve value).bind fun _ => sameLedger_emit _))
  | read target => exact hidle (.andNext (sameLedger_read target))
  | leave value => exact hidle ((sameLedger_leave value).bind fun _ => .pure _)
  | call c => simp [hi, Instruction.isAtomic] at h
  | callInto target c => simp [hi, Instruction.isAtomic] at h
  | index target source position =>
    exact hidle (.andNext (sameLedger_charAt target source position))
  | increment target => exact hidle (.andNext (sameLedger_step target 1))
  | decrement target => exact hidle (.andNext (sameLedger_step target (-1)))

theorem ledger_startStatement (s : Statement) (m : Machine) :
    (startStatement fetcher program s m).machine.ledger =
      m.ledger.note (m.deed? fetcher s.instruction) := by
  by_cases hatomic : s.instruction.isAtomic = true
  · rw [Moment.startStatement_of_isAtomic hatomic (fun _ => unfinished) 0, machine_map]
    exact ledger_perform_of_isAtomic hatomic _ 0 m
  · have hcall {c : Call} (hs : s.Calls c) :
        (startStatement fetcher program s m).machine.ledger = m.ledger := by
      rw [Moment.startStatement_call fetcher program hs m, machine_map]
      exact (sameLedger_startCall program c).ledger m
    cases hi : s.instruction with
    | branch condition =>
      rw [Moment.startStatement_branch fetcher program hi, machine_map]
      have henter : Makes SameLedger enterBlock := .modify fun _ => rfl
      exact (henter.bind fun _ => sameLedger_test condition).ledger m
    | loop condition =>
      rw [Moment.startStatement_loop fetcher program hi, machine_map]
      rfl
    | call c => exact hcall (.inl hi)
    | callInto target c => exact hcall (.inr ⟨target, hi⟩)
    | _ => simp [hi, Instruction.isAtomic] at hatomic

theorem ledger_warnUnreachable (fetcher : Fetcher) (rest : List Statement) (tasks : List Task)
    (m : Machine) :
    (warnUnreachable rest m).machine.ledger =
      m.ledger.note (Moment.deed? fetcher ⟨.leave, .statements rest :: tasks, m⟩) := by
  cases rest with
  | nil => rfl
  | cons next rest =>
    have hwarn : (warnUnreachable (next :: rest) m).machine =
        if m.modes.warns then
          { m with location := next.location }.record
            (.warned (.unreachableCode m.scope) next.location)
        else { m with location := next.location } := rfl
    have hdeed : Moment.deed? fetcher ⟨.leave, .statements (next :: rest) :: tasks, m⟩ =
        if m.modes.warns then some (.passes m.scope next.location) else none := rfl
    rw [hwarn, hdeed]
    by_cases hwarns : m.modes.warns = true
    · rw [if_pos hwarns, if_pos hwarns]
      refine (Machine.ledger_of_journal (m := m) rfl).trans ?_
      exact Ledger.ext rfl rfl rfl rfl (List.append_nil _) (List.append_nil _) rfl
    · rw [if_neg hwarns, if_neg hwarns]
      rfl

/-- A task enters what the moment does, whether the task is done or fails. -/
theorem ledger_doTask {c : Moment} {task : Task} {rest : List Task}
    (htasks : c.tasks = task :: rest) :
    (doTask fetcher program c.flow task c.machine).machine.ledger =
      c.machine.ledger.note (c.deed? fetcher) := by
  obtain ⟨flow, tasks, m⟩ := c
  cases htasks
  have hidle {x : Run (Flow × List Task)} (hx : Makes SameLedger x) :
      (x m).machine.ledger = m.ledger.note none := hx.ledger m
  cases task with
  | run =>
    have henter : Makes SameLedger (enterMain program) := .modify fun _ => rfl
    have hrun : Makes SameLedger (doTask fetcher program flow .run) := by
      rw [doTask]
      cases program.function? entryFunction with
      | none => exact .raise _
      | some main => exact henter.bind fun _ => .pure _
    cases flow <;> exact hidle hrun
  | statements statements =>
    cases flow with
    | leave =>
      rw [doTask, machine_map (warnUnreachable statements) fun _ => (Flow.leave, [])]
      exact ledger_warnUnreachable fetcher statements rest m
    | next =>
      cases statements with
      | nil => rfl
      | cons s after =>
        rw [Moment.doTask_statements, machine_map]
        exact ledger_startStatement s (begun s m)
  | rounds condition body =>
    cases flow with
    | leave => rfl
    | next => exact hidle ((sameLedger_test condition).bind fun _ => .pure _)
  | leaveBlock =>
    have hleave : Makes SameLedger leaveBlock :=
      .modify fun m => ledger_purgeScope { m with depth := m.depth - 1 }
    cases flow <;> exact hidle (hleave.bind fun _ => .pure _)
  | leaveFunction returns =>
    cases flow <;> exact hidle ((sameLedger_leaveFunction returns).bind fun _ =>
      sameLedger_popFrame.bind fun _ => .pure _)
  | dropReturned count => cases flow <;> rfl
  | takeReturned target name count =>
    cases flow <;> exact hidle ((sameLedger_takeReturned target name count).bind fun _ => .pure _)
  | leaveMain location =>
    have hdone : (doTask fetcher program flow (.leaveMain location) m).machine =
        (leaveMain location m).machine := by
      cases flow <;> exact machine_map (leaveMain location) (fun _ => (Flow.next, [])) m
    rw [hdone, ledger_leaveMain]
    cases flow <;> rfl

end Steps

end Run

namespace Moment

variable {fetcher : Fetcher} {program : Program} {c d : Moment}

theorem deed?_of_statement? (fetcher : Fetcher) {s : Statement} (hs : c.statement? = some s) :
    c.deed? fetcher = c.machine.deed? fetcher s.instruction := by
  obtain ⟨hflow, rest, tasks, htasks⟩ := statement?_eq_some hs
  obtain ⟨flow, tasks', m⟩ := c
  cases hflow
  cases htasks
  rfl

/-- A moment without a statement passes one, finishes the run, or does nothing about requests. -/
theorem deed?_cases (fetcher : Fetcher) (hs : c.statement? = none) :
    (∃ next rest tasks, c.flow = .leave ∧ c.tasks = .statements (next :: rest) :: tasks ∧
      c.deed? fetcher =
        if c.machine.modes.warns then some (.passes c.machine.scope next.location) else none) ∨
    (∃ location tasks, c.tasks = .leaveMain location :: tasks ∧
      c.deed? fetcher = some (.finishes location c.machine.modes.warns)) ∨
    c.deed? fetcher = none := by
  unfold deed?
  split
  · next s rest tasks hflow htasks =>
    rw [statement?, hflow, htasks] at hs
    cases hs
  · next next rest tasks hflow htasks => exact .inl ⟨next, rest, tasks, hflow, htasks, rfl⟩
  · next location tasks htasks => exact .inr (.inl ⟨location, tasks, htasks, rfl⟩)
  · exact .inr (.inr rfl)

theorem ledger_of_next (h : c.next fetcher program = some d) :
    d.machine.ledger = c.machine.ledger.note (c.deed? fetcher) := by
  unfold next at h
  split at h
  · cases h
  · next task rest htasks =>
    cases h
    rw [machine_after]
    exact ledger_doTask htasks

end Moment

end ApiScript
