import ApiScript.Proofs.CallBalance
import ApiScript.Proofs.ScopeRecords

/-!
# Writes to the innermost frame

The symbols of the innermost frame, and what the operations of the store do to them. A statement
that executes no other one and ends well leaves the frames or declares one name, unless it is a
`del`. What it declares lies at the depth of the statement, or at its old depth if the name was
declared before.
-/
namespace ApiScript

namespace Store

def symbol? (s : Store) (name : String) : Option Symbol :=
  match s.frames with
  | [] => none
  | frame :: _ => frame.get? name

theorem symbol?_congr {s t : Store} (h : t.frames = s.frames) (name : String) :
    t.symbol? name = s.symbol? name := by
  rw [symbol?, symbol?, h]

theorem declares_eq_isSome (s : Store) (name : String) :
    s.declares name = (s.symbol? name).isSome := by
  obtain ⟨frames, requests, signatures, records⟩ := s
  cases frames with
  | nil => rfl
  | cons frame outer => rfl

theorem lookup_eq_ok_iff {s : Store} {name : String} {symbol : Symbol} :
    s.lookup name = .ok symbol ↔ s.isRequest name = false ∧ s.symbol? name = some symbol := by
  obtain ⟨frames, requests, signatures, records⟩ := s
  by_cases hid : requests.contains name = true
  · simp [lookup, isRequest, hid]
  · cases frames with
    | nil => simp [lookup, isRequest, symbol?, hid]
    | cons frame outer =>
      cases hget : frame.get? name with
      | none => simp [lookup, isRequest, symbol?, hid, hget]
      | some found => simp [lookup, isRequest, symbol?, hid, hget]

/-- A declared name is bound at its old depth if it has one. -/
theorem symbol?_declare {s t : Store} {name : String} {value : Value} {depth : Nat}
    {constant : Bool} {status : Option Nat}
    (h : s.declare name value depth constant status = .ok t) (other : String) :
    t.symbol? other =
      if other = name then
        some ⟨value, ((s.symbol? name).map Symbol.depth).getD depth, constant, status⟩
      else s.symbol? other := by
  obtain ⟨frames, requests, signatures, records⟩ := s
  cases frames with
  | nil => cases h
  | cons frame outer =>
    cases hget : frame.get? name with
    | none =>
      simp only [declare, hget] at h
      cases h
      simp [symbol?, hget, Table.get?_insert]
    | some old =>
      simp only [declare, hget] at h
      split at h
      · cases h
      · cases h
        simp [symbol?, hget, Table.get?_insert]

theorem declare_of_constant {s : Store} {name : String} {symbol : Symbol}
    (hsymbol : s.symbol? name = some symbol) (hconstant : symbol.constant = true) (value : Value)
    (depth : Nat) (constant : Bool) (status : Option Nat) :
    s.declare name value depth constant status = .error (.constantModified name) := by
  obtain ⟨frames, requests, signatures, records⟩ := s
  cases frames with
  | nil => cases hsymbol
  | cons frame outer =>
    have hget : frame.get? name = some symbol := hsymbol
    simp [declare, hget, hconstant]

/-- A name that is no constant can be declared in every frame. -/
theorem exists_declare {s : Store} (hframes : s.frames ≠ []) {name : String}
    (hname : ∀ symbol, s.symbol? name = some symbol → symbol.constant = false) (value : Value)
    (depth : Nat) (constant : Bool) (status : Option Nat) :
    ∃ t, s.declare name value depth constant status = .ok t := by
  unfold declare
  split
  · next hnil => exact absurd hnil hframes
  · next frame outer hcons =>
    split
    · exact ⟨_, rfl⟩
    · next old hold =>
      have hvariable : old.constant = false := hname old (by rw [symbol?, hcons]; exact hold)
      rw [hvariable]
      exact ⟨_, rfl⟩

theorem symbol?_eraseSymbol (s : Store) (name other : String) :
    (s.eraseSymbol name).symbol? other = if other = name then none else s.symbol? other := by
  obtain ⟨frames, requests, signatures, records⟩ := s
  cases frames with
  | nil => simp [eraseSymbol, symbol?]
  | cons frame outer =>
    have herased : (eraseSymbol ⟨frame :: outer, requests, signatures, records⟩ name).frames =
        frame.erase name :: outer := by
      simp only [eraseSymbol]
      split
      · rfl
      · next habsent =>
        rw [Table.erase_eq_self_of_contains_eq_false (by simpa using habsent)]
    simp only [symbol?, herased, Table.get?_erase]

/-- Cleaning up never drops a symbol that lies no deeper than it cleans. -/
theorem symbol?_cleanup (s : Store) (depth : Nat) (name : String) :
    ∃ p : Symbol → Bool, (∀ symbol, symbol.depth ≤ depth → p symbol = true) ∧
      (s.cleanup depth).symbol? name = (s.symbol? name).filter p := by
  obtain ⟨frames, requests, signatures, records⟩ := s
  cases frames with
  | nil => exact ⟨fun _ => true, fun _ _ => rfl, rfl⟩
  | cons frame outer =>
    refine ⟨_, ?_, get?_foldl_dropDeeper depth frame _ name⟩
    intro symbol hdepth
    simp [Nat.not_lt.2 hdepth]

theorem Covered.symbol?_cleanup {s : Store} (h : s.Covered) (depth : Nat) (name : String) :
    (s.cleanup depth).symbol? name =
      (s.symbol? name).filter fun symbol => decide (symbol.depth ≤ depth) := by
  have hframes := frames_cleanup h depth
  obtain ⟨frames, requests, signatures, records⟩ := s
  cases frames with
  | nil => rfl
  | cons frame outer =>
    rw [symbol?, hframes]
    exact Table.get?_filter _ frame name

end Store

def Instruction.target? : Instruction → Option String
  | .assign target _ _ => some target
  | .status target _ => some target
  | .fetch target _ => some target
  | .read target => some target
  | .callInto target _ => some target
  | .index target _ _ => some target
  | .increment target => some target
  | .decrement target => some target
  | _ => none

/-- How a statement with a target or without one that executes no other one, a `del` apart, changes
the frames. -/
inductive Writes (m : Machine) : Option String → List Frame → Prop
  | nothing : Writes m none m.store.frames
  | declared {store : Store} {target : String} {value : Value} {depth : Nat} {constant : Bool}
    {status : Option Nat} (h : m.store.declare target value depth constant status = .ok store)
    (hdepth : depth = m.depth ∨ m.store.declares target = true) :
    Writes m (some target) store.frames

namespace Run

variable {α : Type} {m m' : Machine}

/-- However it ends, a computation that makes notes only leaves the store and the depth. -/
theorem Makes.notes_machine {x : Run α} (hx : Makes Note x) (m : Machine) :
    (x m).machine.store = m.store ∧ (x m).machine.depth = m.depth := by
  have hm := hx m
  revert hm
  generalize (x m).machine = m'
  intro hm
  induction hm with
  | refl => exact ⟨rfl, rfl⟩
  | tail _ hnote ih =>
    rw [hnote]
    exact ih

theorem Makes.notes {x : Run α} (hx : Makes Note x) {a : α} (h : x m = .done a m') :
    m'.store = m.store ∧ m'.depth = m.depth := by
  have hm := hx.notes_machine m
  rwa [h] at hm

theorem declare_eq_done {target : String} {value : Value} {constant : Bool} {status : Option Nat}
    (h : declare target value constant status m = .done () m') :
    ∃ store, m.store.declare target value m.depth constant status = .ok store ∧
      m' = { m with store } := by
  obtain ⟨m₁, m₂, hm, h⟩ := bind_eq_done h
  cases hm
  exact onStore_eq_done h

/-- A declaration after computations that left the store and the depth. -/
theorem writes_of_declare {m₁ : Machine} {target : String} {value : Value}
    {constant : Bool} {status : Option Nat} (hnotes : m₁.store = m.store ∧ m₁.depth = m.depth)
    (h : declare target value constant status m₁ = .done () m') :
    Writes m (some target) m'.store.frames := by
  obtain ⟨store, hstore, rfl⟩ := declare_eq_done h
  rw [hnotes.1] at hstore
  exact .declared hstore (.inl hnotes.2)

theorem Makes.writes {x : Run α} (hx : Makes Note x) {a : α}
    (h : x m = .done a m') : Writes m none m'.store.frames := by
  rw [(hx.notes h).1]
  exact .nothing

theorem delete_eq_done {target : String} (h : delete target m = .done () m') :
    m.store.isRequest target = true ∧ m' = { m with store := m.store.eraseRequest target } ∨
      m.store.isRequest target = false ∧ m.store.declares target = true ∧
        m' = { m with store := m.store.eraseSymbol target } := by
  obtain ⟨store, hstore, rfl⟩ := onStore_eq_done h
  split at hstore
  · next hrequest =>
    cases hstore
    exact .inl ⟨hrequest, rfl⟩
  · next hrequest =>
    split at hstore
    · next hdeclares =>
      cases hstore
      exact .inr ⟨by simpa using hrequest, hdeclares, rfl⟩
    · cases hstore

theorem writes_of_bindStatus {target reference : String}
    (h : bindStatus target reference m = .done () m') : Writes m (some target) m'.store.frames := by
  obtain ⟨status, m₁, hstatus, hdeclare⟩ := bind_eq_done h
  obtain rfl := (makes_statusOf reference).eq_of_done hstatus
  cases status with
  | none => cases hdeclare
  | some code => exact writes_of_declare ⟨rfl, rfl⟩ hdeclare

theorem writes_of_fetch {fetcher : Fetcher} {target reference : String}
    (h : fetch fetcher target reference m = .done () m') :
    Writes m (some target) m'.store.frames := by
  obtain ⟨_, m₁, hm, h⟩ := bind_eq_done h
  cases hm
  obtain ⟨request, m₂, hrequest, h⟩ := bind_eq_done h
  obtain rfl := lift_eq_done hrequest
  obtain ⟨_, m₃, hnoted, h⟩ := bind_eq_done h
  obtain ⟨hstore, hdepth⟩ := (notes_noteFetch _ _ _).notes hnoted
  split at h
  · cases h
  · obtain ⟨_, m₄, hwarned, h⟩ := bind_eq_done h
    obtain ⟨hstore', hdepth'⟩ := (notes_warnUnless _ _).notes hwarned
    exact writes_of_declare ⟨hstore'.trans hstore, hdepth'.trans hdepth⟩ h

theorem writes_of_register {request : Request}
    (h : register request m = .done () m') : Writes m none m'.store.frames := by
  obtain ⟨resolved, m₁, hresolved, h⟩ := bind_eq_done h
  obtain ⟨_, m₂, hwarned, h⟩ := bind_eq_done h
  obtain ⟨_, m₃, hstored, hnoted⟩ := bind_eq_done h
  obtain ⟨store, hregistered, rfl⟩ := onStore_eq_done hstored
  cases hnoted
  have hstore : m₂.store = m.store := by
    rw [((notes_warnUnless _ _).notes hwarned).1,
      (makes_resolveEndpoint request).eq_of_done hresolved]
  have hframes : store.frames = m.store.frames := by
    rw [hstore] at hregistered
    unfold Store.registerRequest at hregistered
    split at hregistered
    · cases hregistered
    · cases hregistered
      rfl
  change Writes m none store.frames
  rw [hframes]
  exact .nothing

theorem writes_of_leave {operand : Option Operand}
    (h : leave operand m = .done () m') : Writes m none m'.store.frames := by
  cases operand with
  | none =>
    cases h
    exact .nothing
  | some operand =>
    obtain ⟨value, m₁, hvalue, hpush⟩ := bind_eq_done h
    obtain rfl := (makes_resolve operand).eq_of_done hvalue
    obtain ⟨_, m₂, hm, hpush⟩ := bind_eq_done hpush
    cases hm
    cases hreturns : m₁.returns with
    | none =>
      rw [hreturns] at hpush
      cases hpush
      exact .nothing
    | some kind =>
      rw [hreturns] at hpush
      dsimp only at hpush
      split at hpush
      · cases hpush
        exact .nothing
      · cases hpush

theorem writes_of_charAt {target source : String} {position : Nat}
    (h : charAt target source position m = .done () m') :
    Writes m (some target) m'.store.frames := by
  obtain ⟨symbol, m₁, hsymbol, hchar⟩ := bind_eq_done h
  obtain rfl := (makes_lookup source).eq_of_done hsymbol
  cases hkind : symbol.value.kind with
  | num =>
    rw [hkind] at hchar
    cases hchar
  | str =>
    rw [hkind] at hchar
    cases hc : symbol.value.text.toList[position]? with
    | none =>
      rw [hc] at hchar
      cases hchar
    | some c =>
      rw [hc] at hchar
      exact writes_of_declare ⟨rfl, rfl⟩ hchar

/-- A step finds its symbol, so it declares a name that is declared already. -/
theorem writes_of_step {target : String} {delta : Int}
    (h : step target delta m = .done () m') : Writes m (some target) m'.store.frames := by
  obtain ⟨symbol, m₁, hsymbol, hstep⟩ := bind_eq_done h
  obtain rfl := (makes_lookup target).eq_of_done hsymbol
  have hdeclares : m₁.store.declares target = true := by
    obtain ⟨_, m₂, hm, hlookup⟩ := bind_eq_done hsymbol
    cases hm
    cases hfound : m₁.store.lookup target with
    | error cause =>
      rw [hfound] at hlookup
      cases hlookup
    | ok found =>
      rw [Store.declares_eq_isSome, (Store.lookup_eq_ok_iff.1 hfound).2]
      rfl
  cases hkind : symbol.value.kind with
  | str =>
    rw [hkind] at hstep
    cases hstep
  | num =>
    rw [hkind] at hstep
    dsimp only at hstep
    split at hstep
    · cases hstep
    · obtain ⟨n, m₂, hn, hwrite⟩ := bind_eq_done hstep
      obtain rfl := lift_eq_done hn
      obtain ⟨store, hstore, rfl⟩ := onStore_eq_done hwrite
      exact .declared hstore (.inr hdeclares)

/-- What a statement that executes no other one has done to the frames when it ends well. -/
theorem writes_of_perform {fetcher : Fetcher} {program : Program} {exec : Statement → Run Flow}
    {fuel : Nat} {s : Statement} {flow : Flow} (hatomic : s.instruction.isAtomic = true)
    (hdelete : ∀ target, s.instruction ≠ .delete target)
    (h : perform fetcher program exec fuel s m = .done flow m') :
    Writes m s.instruction.target? m'.store.frames := by
  unfold perform at h
  cases hi : s.instruction with
  | define signature =>
    rw [hi] at h
    cases h
    exact .nothing
  | assign target value constant =>
    rw [hi] at h
    obtain ⟨v, m₁, hvalue, hdeclare⟩ := bind_eq_done (andNext_eq_done h)
    obtain rfl := (makes_resolve value).eq_of_done hvalue
    exact writes_of_declare ⟨rfl, rfl⟩ hdeclare
  | branch condition => simp [hi, Instruction.isAtomic] at hatomic
  | loop condition => simp [hi, Instruction.isAtomic] at hatomic
  | otherwise chained =>
    rw [hi] at h
    cases h
  | close =>
    rw [hi] at h
    cases h
  | delete target => exact absurd hi (hdelete target)
  | status target reference =>
    rw [hi] at h
    exact writes_of_bindStatus (andNext_eq_done h)
  | fetch target reference =>
    rw [hi] at h
    exact writes_of_fetch (andNext_eq_done h)
  | request request =>
    rw [hi] at h
    exact writes_of_register (andNext_eq_done h)
  | use mode =>
    rw [hi] at h
    exact (notes_use mode).writes (andNext_eq_done h)
  | print value =>
    rw [hi] at h
    exact ((makes_resolve value).bind fun _ => notes_emit _).writes (andNext_eq_done h)
  | read target =>
    rw [hi] at h
    obtain ⟨line, m₁, hread, h⟩ := bind_eq_done (andNext_eq_done h)
    exact writes_of_declare (notes_readLine.notes hread) h
  | leave value =>
    rw [hi] at h
    obtain ⟨_, m₁, hleave, h⟩ := bind_eq_done h
    cases h
    exact writes_of_leave hleave
  | call c => simp [hi, Instruction.isAtomic] at hatomic
  | callInto target c => simp [hi, Instruction.isAtomic] at hatomic
  | index target source position =>
    rw [hi] at h
    exact writes_of_charAt (andNext_eq_done h)
  | increment target =>
    rw [hi] at h
    exact writes_of_step (andNext_eq_done h)
  | decrement target =>
    rw [hi] at h
    exact writes_of_step (andNext_eq_done h)

/-- A call leaves the frames of the caller and its depth. -/
theorem frames_of_call {exec : Statement → Run Flow} (hexec : ∀ s, Keeps (exec s))
    {program : Program} {c : Call} (h : call program exec c m = .done () m') :
    m'.store.frames = m.store.frames ∧ m'.depth = m.depth := by
  refine ⟨?_, (keeps_call hexec program c m () m' h).depth⟩
  obtain ⟨args, m₁, hargs, hcall⟩ := bind_eq_done h
  obtain rfl := (makes_resolveAll c.args).eq_of_done hargs
  obtain ⟨_, m₂, hm, hcall⟩ := bind_eq_done hcall
  cases hm
  cases hbuiltin : m₁.builtins.get? c.name with
  | none =>
    rw [hbuiltin] at hcall
    exact (restored_of_callFunction hexec hcall).frames
  | some builtin =>
    rw [hbuiltin] at hcall
    obtain ⟨result, m₃, hresult, hpush⟩ := bind_eq_done hcall
    have hstore := ((notes_builtin _ args).notes hresult).1
    cases result with
    | none =>
      cases hpush
      exact congrArg Store.frames hstore
    | some value =>
      cases hpush
      exact congrArg Store.frames hstore

end Run

end ApiScript
