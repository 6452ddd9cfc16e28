import ApiScript.Proofs.ScopeRecords

/-!
# A store without records

A plain store is a stack of frames with the pending requests and the signatures. It keeps no scope
records: leaving a block looks at the depths of the symbols themselves. Whatever operations are
made, a store answers as the plain store does and is dumped as the plain store is.
-/
namespace ApiScript

/-- The operations that a store offers. A test for presence may remove what it finds. -/
inductive Operation where
  | push
  | pop
  | declare (name : String) (value : Value) (depth : Nat) (constant : Bool) (status : Option Nat)
  | lookup (name : String)
  | present (name : String) (remove : Bool)
  | cleanup (depth : Nat)
  | registerRequest (id : String) (request : Request)
  | request (id : String)
  | pending (id : String) (remove : Bool)
  | registerSignature (name : String) (params : List String)
  | signature (name : String)
  deriving DecidableEq, Repr

inductive Reply where
  | done
  | failed (cause : Cause)
  | symbol (symbol : Symbol)
  | found (present : Bool)
  | request (request : Request)
  | params (params : List String)
  deriving DecidableEq, Repr

namespace Reply

def ofResult {α : Type} (reply : α → Reply) : Except Cause α → Reply
  | .ok a => reply a
  | .error cause => .failed cause

end Reply

namespace Store

/-- A failing step leaves the store. -/
def finish (s : Store) : Except Cause Store → Reply × Store
  | .ok t => (.done, t)
  | .error cause => (.failed cause, s)

def perform (s : Store) : Operation → Reply × Store
  | .push => (.done, s.pushFrame)
  | .pop => s.finish s.popFrame
  | .declare name value depth constant status =>
    s.finish (s.declare name value depth constant status)
  | .lookup name => (.ofResult .symbol (s.lookup name), s)
  | .present name remove => (.found (s.declares name), if remove then s.eraseSymbol name else s)
  | .cleanup depth => (.done, s.cleanup depth)
  | .registerRequest id request => s.finish (s.registerRequest id request)
  | .request id => (.ofResult .request (s.request id), s)
  | .pending id remove => (.found (s.isRequest id), if remove then s.eraseRequest id else s)
  | .registerSignature name params => s.finish (s.registerSignature name params)
  | .signature name => (.ofResult .params (s.signature name), s)

def performAll (s : Store) : List Operation → Store
  | [] => s
  | op :: ops => (s.perform op).2.performAll ops

def observe (s : Store) : List Operation → List (Reply × List String)
  | [] => []
  | op :: ops => ((s.perform op).1, (s.perform op).2.dump) :: (s.perform op).2.observe ops

end Store

structure PlainStore where
  /-- The innermost frame first. -/
  frames : List Frame := []
  requests : Table Request := ∅
  signatures : Table (List String) := ∅

namespace PlainStore

/-- Binds a name in the innermost frame. What is bound already keeps its depth. -/
def declare (p : PlainStore) (name : String) (symbol : Symbol) : Reply × PlainStore :=
  match p.frames with
  | [] => (.failed .noFrame, p)
  | frame :: outer =>
    match frame.get? name with
    | none => (.done, { p with frames := frame.insert name symbol :: outer })
    | some old =>
      if old.constant then (.failed (.constantModified name), p)
      else
        (.done,
          { p with frames := frame.insert name { symbol with depth := old.depth } :: outer })

def lookup (p : PlainStore) (name : String) : Reply :=
  if p.requests.contains name then .failed (.notPlainValue name)
  else
    match p.frames with
    | [] => .failed .noFrame
    | frame :: _ => ((frame.get? name).map Reply.symbol).getD (.failed (.undeclaredSymbol name))

def present (p : PlainStore) (name : String) : Bool :=
  p.frames.head?.any fun frame => frame.contains name

def perform (p : PlainStore) : Operation → Reply × PlainStore
  | .push => (.done, { p with frames := ∅ :: p.frames })
  | .pop =>
    if p.frames = [] then (.failed .noFrameToPop, p)
    else (.done, { p with frames := p.frames.tail })
  | .declare name value depth constant status => p.declare name ⟨value, depth, constant, status⟩
  | .lookup name => (p.lookup name, p)
  | .present name remove =>
    (.found (p.present name),
      if remove then { p with frames := p.frames.modifyHead fun frame => frame.erase name } else p)
  | .cleanup depth =>
    (.done,
      { p with frames := p.frames.modifyHead (Table.filter fun symbol => symbol.depth ≤ depth) })
  | .registerRequest id request =>
    if p.requests.contains id then (.failed (.requestRedeclared id), p)
    else (.done, { p with requests := p.requests.insert id request })
  | .request id => (((p.requests.get? id).map .request).getD (.failed (.unregisteredRequest id)), p)
  | .pending id remove =>
    (.found (p.requests.contains id),
      if remove then { p with requests := p.requests.erase id } else p)
  | .registerSignature name params =>
    if p.signatures.contains name then (.failed (.functionRedeclared name), p)
    else (.done, { p with signatures := p.signatures.insert name params })
  | .signature name =>
    (((p.signatures.get? name).map .params).getD (.failed (.undeclaredFunction name)), p)

def performAll (p : PlainStore) (ops : List Operation) : PlainStore :=
  ops.foldl (fun p op => (p.perform op).2) p

def dump (p : PlainStore) : List String :=
  Store.listing p.requests.names (p.frames.head?.getD ∅).entries

def observe (p : PlainStore) : List Operation → List (Reply × List String)
  | [] => []
  | op :: ops => ((p.perform op).1, (p.perform op).2.dump) :: (p.perform op).2.observe ops

theorem declare_eq_self_of_failed {p : PlainStore} {name : String} {symbol : Symbol} {cause : Cause}
    (h : (p.declare name symbol).1 = .failed cause) : (p.declare name symbol).2 = p := by
  obtain ⟨frames, requests, signatures⟩ := p
  cases frames with
  | nil => rfl
  | cons frame outer =>
    cases hget : frame.get? name with
    | none => simp [declare, hget] at h
    | some old => by_cases hc : old.constant = true <;> simp [declare, hget, hc] at h ⊢

theorem declare_ne_found (p : PlainStore) (name : String) (symbol : Symbol) (b : Bool) :
    (p.declare name symbol).1 ≠ .found b := by
  unfold declare
  split
  · simp
  · split
    · simp
    · split <;> simp

/-- A plain operation that fails or finds nothing changes nothing. -/
theorem perform_eq_self {p : PlainStore} {op : Operation}
    (h : (∃ cause, (p.perform op).1 = .failed cause) ∨ (p.perform op).1 = .found false) :
    (p.perform op).2 = p := by
  cases op with
  | push => simp [perform] at h
  | pop => by_cases hframes : p.frames = [] <;> simp [perform, hframes] at h ⊢
  | declare name value depth constant status =>
    rcases h with ⟨cause, h⟩ | h
    · exact declare_eq_self_of_failed h
    · exact absurd h (declare_ne_found p name _ false)
  | lookup name => rfl
  | present name remove =>
    obtain ⟨frames, requests, signatures⟩ := p
    cases frames with
    | nil => cases remove <;> rfl
    | cons frame outer =>
      have habsent : frame.contains name = false := by simpa [perform, present] using h
      cases remove with
      | false => rfl
      | true => simp [perform, Table.erase_eq_self_of_contains_eq_false habsent]
  | cleanup depth => simp [perform] at h
  | registerRequest id request =>
    by_cases hid : p.requests.contains id = true <;> simp [perform, hid] at h ⊢
  | request id => rfl
  | pending id remove =>
    have habsent : p.requests.contains id = false := by simpa [perform] using h
    cases remove with
    | false => rfl
    | true => simp [perform, Table.erase_eq_self_of_contains_eq_false habsent]
  | registerSignature name params =>
    by_cases hname : p.signatures.contains name = true <;> simp [perform, hname] at h ⊢
  | signature name => rfl

end PlainStore

namespace Store

def plain (s : Store) : PlainStore := ⟨s.frames, s.requests, s.signatures⟩

theorem dump_plain (s : Store) : s.plain.dump = s.dump := by
  obtain ⟨frames, requests, signatures, records⟩ := s
  cases frames <;> rfl

theorem declare_plain (s : Store) (name : String) (symbol : Symbol) :
    s.plain.declare name symbol =
      let r := s.finish (s.declare name symbol.value symbol.depth symbol.constant symbol.status)
      (r.1, r.2.plain) := by
  obtain ⟨frames, requests, signatures, records⟩ := s
  cases frames with
  | nil => rfl
  | cons frame outer =>
    cases hget : frame.get? name with
    | none => simp [plain, PlainStore.declare, Store.declare, hget, finish]
    | some old =>
      by_cases hc : old.constant = true <;>
        simp [plain, PlainStore.declare, Store.declare, hget, hc, finish]

theorem lookup_plain (s : Store) (name : String) :
    s.plain.lookup name = .ofResult .symbol (s.lookup name) := by
  obtain ⟨frames, requests, signatures, records⟩ := s
  by_cases hid : requests.contains name = true
  · simp [plain, PlainStore.lookup, Store.lookup, hid, Reply.ofResult]
  · cases frames with
    | nil => simp [plain, PlainStore.lookup, Store.lookup, hid, Reply.ofResult]
    | cons frame outer =>
      cases hget : frame.get? name <;>
        simp [plain, PlainStore.lookup, Store.lookup, hid, hget, Reply.ofResult]

theorem present_plain (s : Store) (name : String) : s.plain.present name = s.declares name := by
  obtain ⟨frames, requests, signatures, records⟩ := s
  cases frames <;> simp [plain, PlainStore.present, declares]

theorem eraseSymbol_plain (s : Store) (name : String) :
    (s.eraseSymbol name).plain =
      { s.plain with frames := s.frames.modifyHead fun frame => frame.erase name } := by
  obtain ⟨frames, requests, signatures, records⟩ := s
  cases frames with
  | nil => rfl
  | cons frame outer =>
    by_cases hc : frame.contains name = true
    · simp [plain, eraseSymbol, hc]
    · have hsame := Table.erase_eq_self_of_contains_eq_false (Bool.not_eq_true _ ▸ hc)
      simp [plain, eraseSymbol, hc, hsame]

/-- One operation on a store is that operation on the plain store. -/
theorem perform_plain {s : Store} (h : s.Covered) (op : Operation) :
    s.plain.perform op = ((s.perform op).1, (s.perform op).2.plain) := by
  cases op with
  | push => rfl
  | pop =>
    obtain ⟨frames, requests, signatures, records⟩ := s
    cases frames <;> rfl
  | declare name value depth constant status =>
    exact declare_plain s name ⟨value, depth, constant, status⟩
  | lookup name => simp [PlainStore.perform, perform, lookup_plain]
  | present name remove =>
    cases remove with
    | false => simp [PlainStore.perform, perform, present_plain]
    | true =>
      have hfound := congrArg Reply.found (present_plain s name)
      exact Prod.ext hfound (eraseSymbol_plain s name).symm
  | cleanup depth =>
    obtain ⟨frames, requests, signatures, records⟩ := s
    have hframes := frames_cleanup h depth
    cases frames with
    | nil => rfl
    | cons frame outer => simpa [PlainStore.perform, perform, plain, cleanup] using hframes.symm
  | registerRequest id request =>
    by_cases hid : s.requests.contains id = true <;>
      simp [PlainStore.perform, perform, registerRequest, plain, hid, finish]
  | request id =>
    cases hget : s.requests.get? id <;>
      simp [PlainStore.perform, perform, request, plain, hget, Reply.ofResult]
  | pending id remove => cases remove <;> rfl
  | registerSignature name params =>
    by_cases hname : s.signatures.contains name = true <;>
      simp [PlainStore.perform, perform, registerSignature, plain, hname, finish]
  | signature name =>
    cases hget : s.signatures.get? name <;>
      simp [PlainStore.perform, perform, signature, plain, hget, Reply.ofResult]

theorem Recorded.finish {s : Store} (h : s.Recorded) {step : Except Cause Store}
    (hstep : ∀ t, step = .ok t → t.Recorded) : (s.finish step).2.Recorded := by
  cases step with
  | ok t => exact hstep t rfl
  | error cause => exact h

theorem Recorded.perform {s : Store} (h : s.Recorded) (op : Operation) :
    (s.perform op).2.Recorded := by
  cases op with
  | push => exact h.pushFrame
  | pop => exact h.finish fun t => h.popFrame
  | declare name value depth constant status => exact h.finish fun t => h.declare
  | lookup name => exact h
  | present name remove =>
    cases remove with
    | false => exact h
    | true => exact h.eraseSymbol name
  | cleanup depth => exact h.cleanup depth
  | registerRequest id request =>
    refine h.finish fun t ht => ?_
    unfold registerRequest at ht
    split at ht
    · cases ht
    · cases ht
      exact h
  | request id => exact h
  | pending id remove =>
    cases remove with
    | false => exact h
    | true => exact h
  | registerSignature name params =>
    refine h.finish fun t ht => ?_
    unfold registerSignature at ht
    split at ht
    · cases ht
    · cases ht
      exact h
  | signature name => exact h

theorem Recorded.performAll {s : Store} (h : s.Recorded) (ops : List Operation) :
    (s.performAll ops).Recorded := by
  induction ops generalizing s with
  | nil => exact h
  | cons op ops ih => exact ih (h.perform op)

theorem plain_performAll {s : Store} (h : s.Recorded) (ops : List Operation) :
    (s.performAll ops).plain = s.plain.performAll ops := by
  induction ops generalizing s with
  | nil => rfl
  | cons op ops ih =>
    have hstep : (s.perform op).2.plain = (s.plain.perform op).2 := by
      rw [perform_plain h.covered]
    refine (ih (h.perform op)).trans ?_
    rw [hstep]
    rfl

theorem observe_plain {s : Store} (h : s.Recorded) (ops : List Operation) :
    s.plain.observe ops = s.observe ops := by
  induction ops generalizing s with
  | nil => rfl
  | cons op ops ih =>
    rw [PlainStore.observe, perform_plain h.covered, observe, dump_plain, ih (h.perform op)]

/-- After any operations on an empty store there is exactly one record for each symbol. Leaving a
block therefore keeps the symbols up to a depth, and nothing tells the store from a plain one, which
keeps its state when an operation fails. -/
theorem bookkeeping_exact (ops : List Operation) :
    (({} : Store).performAll ops).Recorded ∧
      (∀ depth, ((({} : Store).performAll ops).cleanup depth).frames =
        (({} : Store).performAll ops).frames.modifyHead
          (Table.filter fun symbol => symbol.depth ≤ depth)) ∧
      ({} : Store).observe ops = ({} : PlainStore).observe ops ∧
      ∀ (p : PlainStore) (op : Operation),
        ((∃ cause, (p.perform op).1 = .failed cause) ∨ (p.perform op).1 = .found false) →
          (p.perform op).2 = p := by
  have hrecorded := recorded_empty.performAll ops
  refine ⟨hrecorded, fun depth => frames_cleanup hrecorded.covered depth, ?_, ?_⟩
  · exact (observe_plain recorded_empty ops).symm
  · intro p op
    exact PlainStore.perform_eq_self

/-- A constant that lies deeper than a block is dropped with it, and before that it cannot be
written again. -/
theorem bookkeeping_exact_of_deep_constant :
    let ops : List Operation := [.push, .declare "token" (.string "a") 2 true none]
    let rewrite : Operation := .declare "token" (.string "b") 1 false none
    (({} : Store).performAll ops).records = [⟨"token", 2, 0⟩] ∧
      ((({} : Store).performAll ops).cleanup 1).frames =
        (({} : Store).performAll ops).frames.modifyHead
          (Table.filter fun symbol => symbol.depth ≤ 1) ∧
      ((({} : Store).performAll ops).plain.perform rewrite).1 =
        .failed (.constantModified "token") ∧
      ((({} : Store).performAll ops).plain.perform rewrite).2 =
        (({} : Store).performAll ops).plain := by
  intro ops rewrite
  obtain ⟨-, hcleanup, -, hfailing⟩ := bookkeeping_exact ops
  have hfailed : ((({} : Store).performAll ops).plain.perform rewrite).1 =
      .failed (.constantModified "token") := by decide +kernel
  exact ⟨by decide +kernel, hcleanup 1, hfailed, hfailing _ _ (.inl ⟨_, hfailed⟩)⟩

end Store

end ApiScript
