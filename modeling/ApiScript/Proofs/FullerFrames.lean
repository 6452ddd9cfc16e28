import ApiScript.Proofs.Following
import ApiScript.Proofs.FrameWrites
import Mathlib.Data.List.Forall2

/-!
# Machines with fuller frames

A machine that purges beside one that does not: all else is the same, and each frame of the second
has the symbols of the first, with their values and statuses. A statement that executes no other one
and ends well on the first ends well on the second, which stays fuller. The second has to be able to
write every symbol of its innermost frame, since what is gone from the first may be declared again.
-/
namespace ApiScript

/-- The second frame has every symbol of the first one, with its value and its status. -/
def Frame.Within (thin full : Frame) : Prop :=
  ∀ name symbol, thin.get? name = some symbol →
    ∃ found, full.get? name = some found ∧ found.value = symbol.value ∧
      found.status = symbol.status

theorem Frame.Within.refl (frame : Frame) : Frame.Within frame frame :=
  fun _ symbol h => ⟨symbol, h, rfl, rfl⟩

namespace Store

structure Within (s t : Store) : Prop where
  frames : List.Forall₂ Frame.Within s.frames t.frames
  requests : t.requests = s.requests
  signatures : t.signatures = s.signatures

def Writable (s : Store) : Prop :=
  ∀ name symbol, s.symbol? name = some symbol → symbol.constant = false

variable {s t s' : Store}

namespace Within

theorem refl (s : Store) : s.Within s :=
  ⟨List.forall₂_same.2 fun frame _ => .refl frame, rfl, rfl⟩

theorem isRequest (h : s.Within t) (id : String) : t.isRequest id = s.isRequest id := by
  rw [Store.isRequest, Store.isRequest, h.requests]

theorem request (h : s.Within t) (id : String) : t.request id = s.request id := by
  rw [Store.request, Store.request, h.requests]

theorem signature (h : s.Within t) (name : String) : t.signature name = s.signature name := by
  rw [Store.signature, Store.signature, h.signatures]

theorem symbol? (h : s.Within t) {name : String} {symbol : Symbol}
    (hsymbol : s.symbol? name = some symbol) :
    ∃ found, t.symbol? name = some found ∧ found.value = symbol.value ∧
      found.status = symbol.status := by
  have hframes := h.frames
  unfold Store.symbol? at hsymbol ⊢
  cases hs : s.frames with
  | nil =>
    rw [hs] at hsymbol
    cases hsymbol
  | cons frame outer =>
    rw [hs] at hsymbol hframes
    cases ht : t.frames with
    | nil =>
      rw [ht] at hframes
      cases hframes
    | cons frame' outer' =>
      rw [ht] at hframes
      exact (List.forall₂_cons.1 hframes).1 name symbol hsymbol

theorem declares (h : s.Within t) {name : String} (hdeclares : s.declares name = true) :
    t.declares name = true := by
  rw [declares_eq_isSome, Option.isSome_iff_exists] at hdeclares ⊢
  obtain ⟨symbol, hsymbol⟩ := hdeclares
  obtain ⟨found, hfound, -⟩ := h.symbol? hsymbol
  exact ⟨found, hfound⟩

theorem lookup (h : s.Within t) {name : String} {symbol : Symbol}
    (hlookup : s.lookup name = .ok symbol) :
    ∃ found, t.lookup name = .ok found ∧ t.symbol? name = some found ∧
      found.value = symbol.value ∧ found.status = symbol.status := by
  obtain ⟨hrequest, hsymbol⟩ := lookup_eq_ok_iff.1 hlookup
  obtain ⟨found, hfound, hsame⟩ := h.symbol? hsymbol
  exact ⟨found, lookup_eq_ok_iff.2 ⟨(h.isRequest name).trans hrequest, hfound⟩, hfound, hsame⟩

theorem frames_ne_nil (h : s.Within t) (hs : s.frames ≠ []) : t.frames ≠ [] := by
  intro ht
  have hframes := h.frames
  rw [ht, List.forall₂_nil_right_iff] at hframes
  exact hs hframes

/-- After changes to the innermost frames only, the symbols of these decide. -/
theorem update (h : s.Within t) {t' : Store} (hs : s'.outside = s.outside)
    (ht : t'.outside = t.outside) (hrequests : t'.requests = s'.requests)
    (hsymbols : ∀ name symbol, s'.symbol? name = some symbol →
      ∃ found, t'.symbol? name = some found ∧ found.value = symbol.value ∧
        found.status = symbol.status) : s'.Within t' := by
  obtain ⟨hframes₁, -, hsignatures₁, -⟩ := Store.mk.inj hs
  obtain ⟨hframes₂, -, hsignatures₂, -⟩ := Store.mk.inj ht
  refine ⟨?_, hrequests, by rw [hsignatures₁, hsignatures₂, h.signatures]⟩
  have hframes := h.frames
  unfold Store.symbol? at hsymbols
  generalize s.frames = frames₁ at hframes hframes₁
  generalize t.frames = frames₂ at hframes hframes₂
  cases hs' : s'.frames with
  | nil =>
    rw [hs'] at hframes₁
    obtain rfl : frames₁ = [] := by simpa using hframes₁.symm
    cases hframes
    obtain ht' : t'.frames = [] := by simpa using hframes₂
    rw [ht']
    exact .nil
  | cons frame outer =>
    rw [hs'] at hframes₁ hsymbols
    cases hframes with
    | nil => cases hframes₁
    | cons _ houter =>
      obtain ⟨-, rfl⟩ := List.cons.inj hframes₁
      cases ht' : t'.frames with
      | nil =>
        rw [ht'] at hframes₂
        cases hframes₂
      | cons frame' outer' =>
        rw [ht'] at hframes₂ hsymbols
        obtain ⟨-, rfl⟩ := List.cons.inj hframes₂
        exact .cons hsymbols houter

end Within

theorem requests_declare {name : String} {value : Value} {depth : Nat} {constant : Bool}
    {status : Option Nat} (h : s.declare name value depth constant status = .ok t) :
    t.requests = s.requests := by
  unfold Store.declare at h
  split at h
  · cases h
  · split at h
    · cases h
      rfl
    · split at h
      · cases h
      · cases h
        rfl

theorem Writable.exists_declare (h : s.Writable) (hframes : s.frames ≠ []) (name : String)
    (value : Value) (depth : Nat) (constant : Bool) (status : Option Nat) :
    ∃ t, s.declare name value depth constant status = .ok t :=
  Store.exists_declare hframes (h name) value depth constant status

theorem frames_ne_nil_of_declare {name : String} {value : Value} {depth : Nat} {constant : Bool}
    {status : Option Nat} (h : s.declare name value depth constant status = .ok t) :
    s.frames ≠ [] := by
  intro hnil
  simp [Store.declare, hnil] at h

/-- A writable store takes every declaration, at whatever depth. -/
theorem Within.declare (h : s.Within t) (hwritable : t.Writable) {target : String} {value : Value}
    {depth : Nat} {status : Option Nat}
    (hdeclare : s.declare target value depth false status = .ok s') (depth' : Nat) :
    ∃ t', t.declare target value depth' false status = .ok t' ∧ s'.Within t' ∧ t'.Writable := by
  have hframes := h.frames_ne_nil (frames_ne_nil_of_declare hdeclare)
  obtain ⟨t', hdeclare'⟩ := hwritable.exists_declare hframes target value depth' false status
  refine ⟨t', hdeclare', ?_, ?_⟩
  · refine h.update (outside_declare hdeclare) (outside_declare hdeclare') ?_ ?_
    · rw [requests_declare hdeclare', requests_declare hdeclare, h.requests]
    · intro name symbol hsymbol
      rw [symbol?_declare hdeclare] at hsymbol
      rw [symbol?_declare hdeclare']
      split at hsymbol
      · next heq =>
        cases hsymbol
        rw [if_pos heq]
        exact ⟨_, rfl, rfl, rfl⟩
      · next hne =>
        rw [if_neg hne]
        exact h.symbol? hsymbol
  · intro name symbol hsymbol
    rw [symbol?_declare hdeclare'] at hsymbol
    split at hsymbol
    · cases hsymbol
      rfl
    · exact hwritable name symbol hsymbol

theorem requests_eraseSymbol (s : Store) (name : String) :
    (s.eraseSymbol name).requests = s.requests := by
  unfold Store.eraseSymbol
  split
  · rfl
  · split
    · rfl
    · rfl

theorem Within.eraseSymbol (h : s.Within t) (name : String) :
    (s.eraseSymbol name).Within (t.eraseSymbol name) := by
  refine h.update (outside_eraseSymbol s name) (outside_eraseSymbol t name) ?_ ?_
  · rw [requests_eraseSymbol, requests_eraseSymbol, h.requests]
  · intro other symbol hsymbol
    rw [symbol?_eraseSymbol] at hsymbol
    rw [symbol?_eraseSymbol]
    split at hsymbol
    · cases hsymbol
    · next hne =>
      rw [if_neg hne]
      exact h.symbol? hsymbol

theorem Writable.eraseSymbol (h : s.Writable) (name : String) : (s.eraseSymbol name).Writable := by
  intro other symbol hsymbol
  rw [symbol?_eraseSymbol] at hsymbol
  split at hsymbol
  · cases hsymbol
  · exact h other symbol hsymbol

theorem Within.cleanup (h : s.Within t) (depth : Nat) : (s.cleanup depth).Within t := by
  refine h.update (outside_cleanup s depth) rfl ?_ ?_
  · rw [h.requests]
    unfold Store.cleanup
    split
    · rfl
    · rfl
  · intro name symbol hsymbol
    obtain ⟨p, -, hcleaned⟩ := symbol?_cleanup s depth name
    rw [hcleaned] at hsymbol
    exact h.symbol? (Option.filter_eq_some_iff.1 hsymbol).1

theorem Within.eraseRequest (h : s.Within t) (id : String) :
    (s.eraseRequest id).Within (t.eraseRequest id) := by
  refine ⟨h.frames, ?_, h.signatures⟩
  rw [Store.eraseRequest, Store.eraseRequest, h.requests]

theorem Within.registerRequest (h : s.Within t) {id : String} {request : Request}
    (hregister : s.registerRequest id request = .ok s') :
    ∃ t', t.registerRequest id request = .ok t' ∧ s'.Within t' ∧ t'.frames = t.frames := by
  unfold Store.registerRequest at hregister ⊢
  rw [h.requests]
  split at hregister
  · cases hregister
  · next hfresh =>
    cases hregister
    rw [if_neg hfresh]
    exact ⟨_, rfl, ⟨h.frames, rfl, h.signatures⟩, rfl⟩

theorem Within.pushFrame (h : s.Within t) : s.pushFrame.Within t.pushFrame :=
  ⟨.cons (.refl ∅) h.frames, h.requests, h.signatures⟩

theorem writable_pushFrame (s : Store) : s.pushFrame.Writable := by
  intro name symbol hsymbol
  cases hsymbol

theorem Within.popFrame (h : s.Within t) (hpop : s.popFrame = .ok s') :
    ∃ t', t.popFrame = .ok t' ∧ s'.Within t' := by
  have hframes := h.frames
  unfold Store.popFrame at hpop ⊢
  split at hpop
  · cases hpop
  · next frame outer hs =>
    cases hpop
    rw [hs] at hframes
    obtain ⟨frame', outer', -, houter, ht⟩ := List.forall₂_cons_left_iff.1 hframes
    rw [ht]
    exact ⟨_, rfl, houter, h.requests, h.signatures⟩

end Store

def Machine.unpurged (m : Machine) (store : Store) : Machine :=
  { m with store, modes := { m.modes with purge := false } }

/-- The second machine is the first one with purging off and fuller frames, and none is debugged. -/
def Fuller (m₁ m₂ : Machine) : Prop :=
  ∃ store, m₁.store.Within store ∧ m₁.modes.debug = false ∧ m₂ = m₁.unpurged store

def FullerHere (m₁ m₂ : Machine) : Prop := Fuller m₁ m₂ ∧ m₂.store.Writable

namespace Run

variable {α : Type}

/-- Where the computation ends well, it does so on a fuller machine, which stays fuller. -/
def Led (x : Run α) : Prop := Leads FullerHere x x FullerHere

theorem led_modify {f : Machine → Machine}
    (hf : ∀ m store, f (m.unpurged store) = (f m).unpurged store)
    (hkeeps : ∀ m, (f m).store = m.store ∧ (f m).modes.debug = m.modes.debug) :
    Led (modify f) := by
  refine .modify ?_
  rintro m _ ⟨⟨store, hstore, hdebug, rfl⟩, hwritable⟩
  obtain ⟨hsame, hmode⟩ := hkeeps m
  rw [hf]
  exact ⟨⟨store, by rwa [hsame], hmode.trans hdebug, rfl⟩, hwritable⟩

/-- A computation that looks at nothing that purging changes goes on in the same way. -/
theorem led_look {f : Machine → Run α} {post : Machine → Machine → Prop}
    (hf : ∀ m store, m.store.Within store → f (m.unpurged store) = f m)
    (h : ∀ m, Leads FullerHere (f m) (f m) post) :
    Leads FullerHere (machine >>= f) (machine >>= f) post := by
  refine .look ?_
  rintro m _ ⟨⟨store, hstore, hdebug, rfl⟩, hwritable⟩
  rw [hf m store hstore]
  exact h m _ _ ⟨⟨store, hstore, hdebug, rfl⟩, hwritable⟩

/-- What is found on the first machine is found on the second, where it may be written. -/
theorem led_lookup_bind {f : Symbol → Run α} (name : String)
    (hf : ∀ symbol found : Symbol, found.value = symbol.value → found.status = symbol.status →
      found.constant = false → Leads FullerHere (f symbol) (f found) FullerHere) :
    Led (lookup name >>= f) := by
  rintro m _ ⟨⟨store, hstore, hdebug, rfl⟩, hwritable⟩ a m' h
  obtain ⟨symbol, m₁, hlookup, h⟩ := bind_eq_done h
  obtain rfl := (makes_lookup name).eq_of_done hlookup
  obtain ⟨_, m₂, hm, hlift⟩ := bind_eq_done hlookup
  cases hm
  cases hsymbol : m₁.store.lookup name with
  | error cause =>
    rw [hsymbol] at hlift
    cases hlift
  | ok symbol' =>
    rw [hsymbol] at hlift
    cases hlift
    obtain ⟨found, hfound, hget, hvalue, hstatus⟩ := hstore.lookup hsymbol
    have hhere : FullerHere m₁ (m₁.unpurged store) := ⟨⟨store, hstore, hdebug, rfl⟩, hwritable⟩
    obtain ⟨m₂', hdone, hpost⟩ :=
      hf symbol found hvalue hstatus (hwritable name found hget) _ _ hhere a m' ‹_›
    refine ⟨m₂', ?_, hpost⟩
    have hlookup' : lookup name (m₁.unpurged store) = .done found (m₁.unpurged store) := by
      change lift (store.lookup name) (m₁.unpurged store) = _
      rw [hfound]
      rfl
    rw [bind_apply, hlookup']
    exact hdone

theorem led_resolve (operand : Operand) : Led (resolve operand) := by
  cases operand with
  | name text =>
    refine led_lookup_bind text fun symbol found hvalue _ _ => ?_
    rw [hvalue]
    exact .pure _
  | number text => exact .pure _
  | literal text => exact .pure _

theorem led_resolveAll (operands : List Operand) : Led (resolveAll operands) := by
  induction operands with
  | nil => exact .pure _
  | cons operand rest ih =>
    exact (led_resolve operand).bind fun value => ih.bind fun values => .pure _

/-- The depths of the declarations may differ. -/
theorem leads_declare (target : String) (value : Value) (depth depth' : Nat)
    (status : Option Nat) :
    Leads FullerHere (onStore fun store => store.declare target value depth false status)
      (onStore fun store => store.declare target value depth' false status) FullerHere := by
  refine .onStore ?_
  rintro m _ s₁ ⟨⟨store, hstore, hdebug, rfl⟩, hwritable⟩ hdeclare
  obtain ⟨s₂, hdeclare', hwithin, hwritable'⟩ := hstore.declare hwritable hdeclare depth'
  exact ⟨s₂, hdeclare', ⟨s₂, hwithin, hdebug, rfl⟩, hwritable'⟩

theorem led_declare (target : String) (value : Value) (status : Option Nat) :
    Led (declare target value false status) :=
  .look fun m₁ m₂ hm => leads_declare target value m₁.depth m₂.depth status m₁ m₂ hm

theorem led_emit (line : String) : Led (emit line) :=
  led_modify (fun _ _ => rfl) fun _ => ⟨rfl, rfl⟩

theorem led_warn (w : Warning) : Led (warn w) := by
  refine led_modify (fun m store => ?_) fun m => ?_
  · by_cases hwarns : m.modes.warns = true
    · simp [Machine.unpurged, Machine.record, hwarns]
    · simp [Machine.unpurged, hwarns]
  · split
    · exact ⟨rfl, rfl⟩
    · exact ⟨rfl, rfl⟩

theorem led_warnUnless (well : Bool) (w : Warning) : Led (warnUnless well w) := by
  cases well with
  | true => exact .pure _
  | false => exact led_warn w

/-- A test of anything but the presence of a name. -/
theorem led_test {condition : Condition} (h : ∀ name, condition.test ≠ .declared name) :
    Led (test condition) := by
  unfold test
  cases htest : condition.test with
  | succeeded => exact led_look (fun _ _ _ => rfl) fun m => .pure _
  | declared name => exact absurd htest (h name)
  | compares lhs op rhs =>
    refine led_look (fun _ _ _ => rfl) fun m => ?_
    refine (led_resolve lhs).bind fun l => (led_resolve rhs).bind fun r => ?_
    exact (led_warnUnless _ _).bind fun _ => (Leads.lift _).bind fun holds => .pure _

theorem led_delete (target : String) : Led (delete target) := by
  refine .onStore ?_
  rintro m _ s₁ ⟨⟨store, hstore, hdebug, rfl⟩, hwritable⟩ hdelete
  split at hdelete
  · next hid =>
    cases hdelete
    have hid' : store.isRequest target = true := (hstore.isRequest target).trans hid
    refine ⟨store.eraseRequest target, if_pos hid', ?_, hwritable⟩
    exact ⟨_, hstore.eraseRequest target, hdebug, rfl⟩
  · next hid =>
    have hid' : ¬ store.isRequest target = true := by rwa [hstore.isRequest]
    split at hdelete
    · next hdeclares =>
      cases hdelete
      have hdeclares' := hstore.declares hdeclares
      refine ⟨store.eraseSymbol target, (if_neg hid').trans (if_pos hdeclares'), ?_, ?_⟩
      · exact ⟨_, hstore.eraseSymbol target, hdebug, rfl⟩
      · exact hwritable.eraseSymbol target
    · cases hdelete

theorem led_bindStatus (target reference : String) : Led (bindStatus target reference) := by
  have hstatus : Led (statusOf reference) := by
    refine led_look (fun m store hstore => ?_) fun m => ?_
    · change (if store.isRequest reference then _ else _) = _
      rw [hstore.isRequest]
      rfl
    · split
      · exact .pure _
      · refine led_lookup_bind reference fun symbol found _ hsame _ => ?_
        rw [hsame]
        exact .pure _
  refine hstatus.bind fun status => ?_
  cases status with
  | none => exact .raise _ _
  | some code => exact led_declare _ _ _

theorem led_fetch (fetcher : Fetcher) (target reference : String) :
    Led (fetch fetcher target reference) := by
  refine led_look (fun m store hstore => ?_) fun m => ?_
  · change (lift (store.request reference) >>= fun request => _) = _
    rw [hstore.request]
    rfl
  · refine (Leads.lift _).bind fun request => ?_
    refine Leads.bind (led_modify (fun _ _ => rfl) fun _ => ⟨rfl, rfl⟩) fun _ => ?_
    split
    · exact .raise _ _
    · exact (led_warnUnless _ _).bind fun _ => led_declare _ _ _

theorem led_register (request : Request) : Led (register request) := by
  have hresolved : Led (resolveEndpoint request) := by
    unfold resolveEndpoint
    split
    · exact .pure _
    · refine led_lookup_bind _ fun symbol found hvalue _ _ => ?_
      rw [hvalue]
      exact .pure _
  have hregistered (id : String) (resolved : Request) :
      Led (onStore fun store => store.registerRequest id resolved) := by
    refine .onStore ?_
    rintro m _ s₁ ⟨⟨store, hstore, hdebug, rfl⟩, hwritable⟩ hregister
    obtain ⟨s₂, hregister', hwithin, hframes⟩ := hstore.registerRequest hregister
    refine ⟨s₂, hregister', ⟨s₂, hwithin, hdebug, rfl⟩, ?_⟩
    intro name symbol hsymbol
    rw [Store.symbol?_congr hframes] at hsymbol
    exact hwritable name symbol hsymbol
  refine hresolved.bind fun resolved => (led_warnUnless _ _).bind fun _ => ?_
  exact (hregistered _ _).bind fun _ => led_modify (fun _ _ => rfl) fun _ => ⟨rfl, rfl⟩

theorem led_use {mode : Mode} (h : mode = .warns) : Led (use mode) := by
  subst h
  refine led_look (fun _ _ _ => rfl) fun m => ?_
  split
  · exact .raise _ _
  · exact led_modify (fun _ _ => rfl) fun _ => ⟨rfl, rfl⟩

theorem led_readLine : Led readLine := by
  rintro m _ ⟨⟨store, hstore, hdebug, rfl⟩, hwritable⟩ line m' h
  unfold readLine at h ⊢
  split at h
  · next text rest hread =>
    cases h
    have hread' : InputLine.read (m.unpurged store).input = (.ok line, rest) := hread
    rw [hread']
    exact ⟨_, rfl, ⟨store, hstore, hdebug, rfl⟩, hwritable⟩
  · cases h

theorem led_read (target : String) : Led (read target) :=
  led_readLine.bind fun _ => led_declare _ _ _

theorem led_returnValue (value : Value) :
    Led (modify fun m => { m with returned := value :: m.returned }) :=
  led_modify (fun _ _ => rfl) fun _ => ⟨rfl, rfl⟩

theorem led_leave (operand : Option Operand) : Led (leave operand) := by
  cases operand with
  | none => exact .pure _
  | some operand =>
    refine (led_resolve operand).bind fun value => led_look (fun _ _ _ => rfl) fun m => ?_
    cases m.returns with
    | none => exact led_returnValue value
    | some kind =>
      dsimp only
      split
      · exact led_returnValue value
      · exact .raise _ _

theorem led_charAt (target source : String) (position : Nat) :
    Led (charAt target source position) := by
  refine led_lookup_bind source fun symbol found hvalue _ _ => ?_
  rw [hvalue]
  cases symbol.value.kind with
  | num => exact .raise _ _
  | str =>
    dsimp only
    split
    · exact .raise _ _
    · exact led_declare _ _ _

theorem led_step (target : String) (delta : Int) : Led (step target delta) := by
  refine led_lookup_bind target fun symbol found hvalue _ hconstant => ?_
  rw [hvalue, hconstant]
  cases symbol.value.kind with
  | str => exact .raise _ _
  | num =>
    dsimp only
    split
    · exact .raise _ _
    · exact (Leads.lift _).bind fun n => leads_declare _ _ _ _ _

theorem led_builtin (builtin : Builtin) (args : List Value) : Led (builtin.call args) := by
  by_cases hinput : builtin = .input
  · rw [hinput]
    change Led (Builtin.promptAndRead args)
    unfold Builtin.promptAndRead
    split
    · exact led_readLine.bind fun _ => .pure _
    · refine Leads.bind (led_modify (fun _ _ => rfl) fun _ => ⟨rfl, rfl⟩) fun _ => ?_
      exact led_readLine.bind fun _ => .pure _
    · exact .raise _ _
  · obtain ⟨result, hresult⟩ := builtin_eq_lift hinput args
    rw [hresult]
    exact .lift result

theorem led_warnUnreachable (rest : List Statement) : Led (warnUnreachable rest) := by
  cases rest with
  | nil => exact .pure _
  | cons next rest =>
    refine Leads.bind (led_modify (fun _ _ => rfl) fun _ => ⟨rfl, rfl⟩) fun _ => ?_
    exact led_look (fun _ _ _ => rfl) fun _ => led_warn _

end Run

end ApiScript
