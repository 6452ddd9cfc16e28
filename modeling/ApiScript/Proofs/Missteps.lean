import ApiScript.Machine.Execution
import ApiScript.Proofs.LocalChanges
import ApiScript.Proofs.ReadInstructions
import ApiScript.Proofs.ScopeRecords

/-!
# Missteps

A property of values is closed if it holds of all that a script can write, read and compute from
values that have it. On a machine with a frame, where all values have the property, whatever a
statement does by itself keeps the property, and it fails for ordinary causes only: the comparison
of two such values, the number of such a value, and the conversion of a text to a number apart.
-/
namespace ApiScript

inductive Origin where
  /-- Something that assembling a script, or setting up a machine for it, rules out. -/
  | defensive
  /-- A function that is not entered. -/
  | call
  /-- A text that writes no number, or two that have no order. -/
  | number
  /-- Whatever else a statement may run into. -/
  | statement
  deriving DecidableEq, Repr

def Cause.origin : Cause → Origin
  | .unterminatedLiteral | .unexpectedKeyword _ | .malformed _ | .unknownMode
  | .danglingStatement _ | .nestedFunction _ | .openBlock | .brokenChain | .functionRedeclared _
  | .noFrame | .noFrameToPop | .notInvocable _ | .noSourceFiles => .defensive
  | .undeclaredFunction _ | .argumentCount _ | .callDepth _ => .call
  | .invalidNumber _ | .unordered _ _ => .number
  | _ => .statement

structure Value.Closed (good : Value → Prop) : Prop where
  string : ∀ text, good (.string text)
  numeral : ∀ text, isNumeric text = true → good (.number text)
  count : ∀ count : Nat, good (.number (Nat.repr count))
  offset : ∀ v n delta, good v → v.kind = .num → Value.numberOf v.text = .ok n →
    delta = 1 ∨ delta = -1 → good (.number (n.offset delta).toText)

theorem Value.closed_trivial : Value.Closed fun _ => True :=
  ⟨fun _ => trivial, fun _ _ => trivial, fun _ => trivial, fun _ _ _ _ _ _ _ => trivial⟩

/-- The faults of a computation on good values, which carry no location yet. -/
inductive Misstep (good : Value → Prop) : Fault → Prop
  | ordinary {cause : Cause} : cause.origin = .statement → Misstep good ⟨cause, none⟩
  | comparison {l r : Value} {op : Comparison} {cause : Cause} :
    good l → good r → l.compare op r = .error cause → Misstep good ⟨cause, none⟩
  | number {v : Value} {cause : Cause} :
    good v → v.kind = .num → Value.numberOf v.text = .error cause → Misstep good ⟨cause, none⟩

namespace Store

structure Sound (good : Value → Prop) (s : Store) : Prop where
  framed : s.frames ≠ []
  values : ∀ frame ∈ s.frames, ∀ name symbol, frame.get? name = some symbol → good symbol.value

namespace Sound

variable {good : Value → Prop} {s t : Store}

/-- Frames that hold nothing new. -/
theorem of_frames (h : s.Sound good) {frame frame' : Frame} {outer : List Frame}
    (hs : s.frames = frame :: outer) (ht : t.frames = frame' :: outer)
    (hframe : ∀ name symbol, frame'.get? name = some symbol →
      good symbol.value ∨ frame.get? name = some symbol) : t.Sound good := by
  refine ⟨by simp [ht], ?_⟩
  have hvalues := h.values
  rw [hs, List.forall_mem_cons] at hvalues
  rw [ht, List.forall_mem_cons]
  refine ⟨fun name symbol hget => ?_, hvalues.2⟩
  exact (hframe name symbol hget).elim id (hvalues.1 name symbol)

theorem lookup (h : s.Sound good) {name : String} {symbol : Symbol}
    (hlookup : s.lookup name = .ok symbol) : good symbol.value := by
  unfold Store.lookup at hlookup
  split at hlookup
  · cases hlookup
  split at hlookup
  · cases hlookup
  next frame outer hframes =>
  split at hlookup
  · next found hget =>
    cases hlookup
    exact h.values frame (by simp [hframes]) name symbol hget
  · cases hlookup

theorem declare (h : s.Sound good) {name : String} {value : Value} {depth : Nat} {constant : Bool}
    {status : Option Nat} (hvalue : good value)
    (hdeclare : s.declare name value depth constant status = .ok t) : t.Sound good := by
  unfold Store.declare at hdeclare
  split at hdeclare
  · cases hdeclare
  next frame outer hframes =>
  have hinserted (symbol : Symbol) (hsymbol : symbol.value = value) (other : String)
      (found : Symbol) (hget : (frame.insert name symbol).get? other = some found) :
      good found.value ∨ frame.get? other = some found := by
    rw [Table.get?_insert] at hget
    split at hget
    · cases hget
      exact .inl (hsymbol ▸ hvalue)
    · exact .inr hget
  split at hdeclare
  · cases hdeclare
    exact h.of_frames hframes rfl (hinserted ⟨value, depth, constant, status⟩ rfl)
  next old hold =>
  split at hdeclare
  · cases hdeclare
  · cases hdeclare
    exact h.of_frames hframes rfl (hinserted ⟨value, old.depth, constant, status⟩ rfl)

theorem eraseSymbol (h : s.Sound good) (name : String) : (s.eraseSymbol name).Sound good := by
  unfold Store.eraseSymbol
  split
  · exact h
  next frame outer hframes =>
  split
  · refine h.of_frames hframes rfl fun other symbol hget => .inr ?_
    rw [Table.get?_erase] at hget
    split at hget
    · cases hget
    · exact hget
  · exact h

theorem cleanup (h : s.Sound good) (depth : Nat) : (s.cleanup depth).Sound good := by
  unfold Store.cleanup
  split
  · exact h
  next frame outer hframes =>
  refine h.of_frames hframes rfl fun other symbol hget => .inr ?_
  rw [get?_foldl_dropDeeper] at hget
  exact (Option.filter_eq_some_iff.1 hget).1

theorem pushFrame (h : s.Sound good) : s.pushFrame.Sound good := by
  refine ⟨List.cons_ne_nil _ _, ?_⟩
  intro frame hframe name symbol hget
  rcases List.mem_cons.1 hframe with rfl | hframe
  · cases hget
  · exact h.values frame hframe name symbol hget

theorem registerRequest (h : s.Sound good) {id : String} {request : Request}
    (hregister : s.registerRequest id request = .ok t) : t.Sound good := by
  unfold Store.registerRequest at hregister
  split at hregister
  · cases hregister
  · cases hregister
    exact ⟨h.framed, h.values⟩

end Sound

variable {good : Value → Prop} {s : Store}

theorem misstep_of_lookup (h : s.frames ≠ []) {name : String} {cause : Cause}
    (hlookup : s.lookup name = .error cause) : Misstep good ⟨cause, none⟩ := by
  unfold lookup at hlookup
  split at hlookup
  · cases hlookup
    exact .ordinary rfl
  split at hlookup
  · next hframes => exact absurd hframes h
  split at hlookup
  · cases hlookup
  · cases hlookup
    exact .ordinary rfl

theorem misstep_of_declare (h : s.frames ≠ []) {name : String} {value : Value} {depth : Nat}
    {constant : Bool} {status : Option Nat} {cause : Cause}
    (hdeclare : s.declare name value depth constant status = .error cause) :
    Misstep good ⟨cause, none⟩ := by
  unfold declare at hdeclare
  split at hdeclare
  · next hframes => exact absurd hframes h
  split at hdeclare
  · cases hdeclare
  split at hdeclare
  · cases hdeclare
    exact .ordinary rfl
  · cases hdeclare

end Store

structure Sound (good : Value → Prop) (m : Machine) : Prop where
  store : m.store.Sound good
  returned : ∀ value ∈ m.returned, good value
  builtins : m.builtins = Builtin.standard

theorem Sound.withStore {good : Value → Prop} {m : Machine} (h : Sound good m) {store : Store}
    (hstore : store.Sound good) : Sound good { m with store } :=
  ⟨hstore, h.returned, h.builtins⟩

namespace Run

variable {α β : Type} {I : Machine → Prop} {P : α → Prop} {Q : β → Prop} {F G : Fault → Prop}

/-- An invariant holds again however the computation ends; its value has a property, and so has a
fault. -/
def Yields (I : Machine → Prop) (P : α → Prop) (F : Fault → Prop) (x : Run α) : Prop :=
  ∀ m, I m →
    match x m with
    | .done a m' => I m' ∧ P a
    | .failed fault m' => I m' ∧ F fault
    | .unfinished m' => I m'

namespace Yields

theorem of_done {x : Run α} (hx : Yields I P F x) {m m' : Machine} {a : α} (hm : I m)
    (h : x m = .done a m') : I m' ∧ P a := by
  have hend := hx m hm
  rwa [h] at hend

theorem of_failed {x : Run α} (hx : Yields I P F x) {m m' : Machine} {fault : Fault} (hm : I m)
    (h : x m = .failed fault m') : I m' ∧ F fault := by
  have hend := hx m hm
  rwa [h] at hend

theorem invariant {x : Run α} (hx : Yields I P F x) {m : Machine} (hm : I m) : I (x m).machine := by
  have hend := hx m hm
  cases h : x m with
  | done a m' =>
    rw [h] at hend
    exact hend.1
  | failed fault m' =>
    rw [h] at hend
    exact hend.1
  | unfinished m' =>
    rw [h] at hend
    exact hend

theorem mono {P' : α → Prop} {x : Run α} (hx : Yields I P F x) (hP : ∀ a, P a → P' a)
    (hF : ∀ fault, F fault → G fault) : Yields I P' G x := by
  intro m hm
  have hend := hx m hm
  cases h : x m with
  | done a m' =>
    rw [h] at hend
    exact ⟨hend.1, hP a hend.2⟩
  | failed fault m' =>
    rw [h] at hend
    exact ⟨hend.1, hF fault hend.2⟩
  | unfinished m' =>
    rw [h] at hend
    exact hend

theorem pure {a : α} (h : P a) : Yields I P F (Pure.pure a : Run α) := fun _ hm => ⟨hm, h⟩

theorem bind {x : Run α} {f : α → Run β} (hx : Yields I P F x)
    (hf : ∀ a, P a → Yields I Q F (f a)) : Yields I Q F (x >>= f) := by
  intro m hm
  have hend := hx m hm
  rw [bind_apply]
  cases h : x m with
  | done a m' =>
    rw [h] at hend
    exact hf a hend.2 m' hend.1
  | failed fault m' =>
    rw [h] at hend
    exact hend
  | unfinished m' =>
    rw [h] at hend
    exact hend

theorem machine : Yields I I F Run.machine := fun _ hm => ⟨hm, hm⟩

theorem unfinished : Yields I P F (Run.unfinished : Run α) := fun _ hm => hm

theorem raise {cause : Cause} (h : F ⟨cause, none⟩) : Yields I P F (Run.raise cause : Run α) :=
  fun _ hm => ⟨hm, h⟩

theorem lift {x : Except Cause α} (hok : ∀ a, x = .ok a → P a)
    (herror : ∀ cause, x = .error cause → F ⟨cause, none⟩) : Yields I P F (Run.lift x) := by
  cases x with
  | ok a => exact pure (hok a rfl)
  | error cause => exact raise (herror cause rfl)

theorem modify {f : Machine → Machine} (h : ∀ m, I m → I (f m)) :
    Yields I (fun _ => True) F (Run.modify f) := fun m hm => ⟨h m hm, trivial⟩

theorem onStore {f : Store → Except Cause Store}
    (hok : ∀ m store, I m → f m.store = .ok store → I { m with store })
    (herror : ∀ m cause, I m → f m.store = .error cause → F ⟨cause, none⟩) :
    Yields I (fun _ => True) F (Run.onStore f) := by
  intro m hm
  unfold Run.onStore
  cases hf : f m.store with
  | ok store => exact ⟨hok m store hm hf, trivial⟩
  | error cause => exact ⟨hm, herror m cause hm hf⟩

theorem andNext {x : Run Unit} (hx : Yields I (fun _ => True) F x) :
    Yields I (fun _ => True) F (Run.andNext x) :=
  hx.bind fun _ _ => pure trivial

end Yields

variable {good : Value → Prop}

theorem yields_lookup (name : String) :
    Yields (Sound good) (fun symbol => good symbol.value) (Misstep good) (lookup name) := by
  refine Yields.machine.bind fun m hm => .lift ?_ ?_
  · intro symbol hlookup
    exact hm.store.lookup hlookup
  · intro cause hlookup
    exact Store.misstep_of_lookup hm.store.framed hlookup

theorem yields_resolve (hgood : Value.Closed good) {operand : Operand}
    (hoperand : operand.IsWritten) :
    Yields (Sound good) good (Misstep good) (resolve operand) := by
  cases operand with
  | name text => exact (yields_lookup text).bind fun symbol hsymbol => .pure hsymbol
  | number text => exact .pure (hgood.numeral text hoperand)
  | literal text => exact .pure (hgood.string text)

theorem yields_resolveAll (hgood : Value.Closed good) {operands : List Operand}
    (h : ∀ operand ∈ operands, operand.IsWritten) :
    Yields (Sound good) (fun values => ∀ v ∈ values, good v) (Misstep good)
      (resolveAll operands) := by
  induction operands with
  | nil => exact .pure nofun
  | cons operand rest ih =>
    obtain ⟨hoperand, hrest⟩ := List.forall_mem_cons.1 h
    refine (yields_resolve hgood hoperand).bind fun value hvalue => ?_
    refine (ih hrest).bind fun values hvalues => .pure ?_
    exact List.forall_mem_cons.2 ⟨hvalue, hvalues⟩

/-- Writing a good value in the innermost frame. -/
theorem yields_write {name : String} {value : Value} (hvalue : good value) (depth : Nat)
    (constant : Bool) (status : Option Nat) :
    Yields (Sound good) (fun _ => True) (Misstep good)
      (onStore fun store => store.declare name value depth constant status) := by
  refine .onStore ?_ ?_
  · intro m store hm hdeclare
    exact hm.withStore (hm.store.declare hvalue hdeclare)
  · intro m cause hm hdeclare
    exact Store.misstep_of_declare hm.store.framed hdeclare

theorem yields_declare (target : String) {value : Value} (hvalue : good value) (constant : Bool)
    (status : Option Nat) :
    Yields (Sound good) (fun _ => True) (Misstep good) (declare target value constant status) :=
  Yields.machine.bind fun m _ => yields_write hvalue m.depth constant status

/-- Noting something that is no part of the frames or of the returned values. -/
theorem yields_note {f : Machine → Machine} (hstore : ∀ m, (f m).store = m.store)
    (hreturned : ∀ m, (f m).returned = m.returned) (hbuiltins : ∀ m, (f m).builtins = m.builtins) :
    Yields (Sound good) (fun _ => True) F (modify f) := by
  refine .modify fun m hm => ⟨?_, ?_, ?_⟩
  · rw [hstore]
    exact hm.store
  · rw [hreturned]
    exact hm.returned
  · rw [hbuiltins]
    exact hm.builtins

theorem yields_warn (w : Warning) : Yields (Sound good) (fun _ => True) F (warn w) := by
  refine .modify fun m hm => ?_
  split
  · exact ⟨hm.store, hm.returned, hm.builtins⟩
  · exact hm

theorem yields_warnUnless (well : Bool) (w : Warning) :
    Yields (Sound good) (fun _ => True) F (warnUnless well w) := by
  cases well with
  | true => exact .pure trivial
  | false => exact yields_warn w

theorem yields_test (hgood : Value.Closed good) {condition : Condition}
    (h : ∀ operand ∈ condition.operands, operand.IsWritten) :
    Yields (Sound good) (fun _ => True) (Misstep good) (test condition) := by
  refine Yields.machine.bind fun m _ => ?_
  unfold Condition.operands at h
  cases htest : condition.test with
  | succeeded => exact .pure trivial
  | declared name => exact .pure trivial
  | compares lhs op rhs =>
    rw [htest] at h
    have hlhs := yields_resolve hgood (h lhs (by simp))
    have hrhs := yields_resolve hgood (h rhs (by simp))
    refine hlhs.bind fun l hl => hrhs.bind fun r hr => ?_
    refine (yields_warnUnless _ _).bind fun _ _ => ?_
    have hcompare : Yields (Sound good) (fun _ => True) (Misstep good) (lift (l.compare op r)) :=
      .lift (fun _ _ => trivial) fun cause hcause => .comparison hl hr hcause
    exact hcompare.bind fun _ _ => .pure trivial

theorem yields_delete (target : String) :
    Yields (Sound good) (fun _ => True) (Misstep good) (delete target) := by
  refine .onStore ?_ ?_
  · intro m store hm hdelete
    split at hdelete
    · cases hdelete
      exact hm.withStore ⟨hm.store.framed, hm.store.values⟩
    · split at hdelete
      · cases hdelete
        exact hm.withStore (hm.store.eraseSymbol target)
      · cases hdelete
  · intro m cause hm hdelete
    split at hdelete
    · cases hdelete
    · split at hdelete
      · cases hdelete
      · cases hdelete
        exact .ordinary rfl

theorem yields_bindStatus (hgood : Value.Closed good) (target reference : String) :
    Yields (Sound good) (fun _ => True) (Misstep good) (bindStatus target reference) := by
  have hstatus : Yields (Sound good) (fun _ => True) (Misstep good) (statusOf reference) := by
    refine Yields.machine.bind fun m _ => ?_
    split
    · exact .pure trivial
    · exact (yields_lookup reference).bind fun _ _ => .pure trivial
  refine hstatus.bind fun status _ => ?_
  cases status with
  | none => exact .raise (.ordinary rfl)
  | some code => exact yields_declare target (hgood.string _) _ _

theorem yields_noteFetch (reference : String) (call : FetchCall) (response : Response) :
    Yields (Sound good) (fun _ => True) F (noteFetch reference call response) :=
  yields_note (fun _ => rfl) (fun _ => rfl) fun _ => rfl

theorem yields_fetch (hgood : Value.Closed good) (fetcher : Fetcher) (target reference : String) :
    Yields (Sound good) (fun _ => True) (Misstep good) (fetch fetcher target reference) := by
  refine Yields.machine.bind fun m _ => ?_
  have hrequest : Yields (Sound good) (fun _ => True) (Misstep good)
      (lift (m.store.request reference)) := by
    refine .lift (fun _ _ => trivial) fun cause hcause => ?_
    unfold Store.request at hcause
    split at hcause
    · cases hcause
    · cases hcause
      exact .ordinary rfl
  refine hrequest.bind fun request _ => (yields_noteFetch _ _ _).bind fun _ _ => ?_
  split
  · exact .raise (.ordinary rfl)
  · exact (yields_warnUnless _ _).bind fun _ _ => yields_declare target (hgood.string _) _ _

theorem yields_register (request : Request) :
    Yields (Sound good) (fun _ => True) (Misstep good) (register request) := by
  have hresolve : Yields (Sound good) (fun _ => True) (Misstep good)
      (resolveEndpoint request) := by
    unfold resolveEndpoint
    split
    · exact .pure trivial
    · exact (yields_lookup _).bind fun _ _ => .pure trivial
  refine hresolve.bind fun resolved _ => (yields_warnUnless _ _).bind fun _ _ => ?_
  have hregister : Yields (Sound good) (fun _ => True) (Misstep good)
      (onStore fun store => store.registerRequest resolved.target resolved) := by
    refine .onStore ?_ ?_
    · intro m store hm hstore
      exact hm.withStore (hm.store.registerRequest hstore)
    · intro m cause hm hstore
      unfold Store.registerRequest at hstore
      split at hstore
      · cases hstore
        exact .ordinary rfl
      · cases hstore
  exact hregister.bind fun _ _ => yields_note (fun _ => rfl) (fun _ => rfl) fun _ => rfl

theorem yields_use (mode : Mode) :
    Yields (Sound good) (fun _ => True) (Misstep good) (use mode) := by
  cases mode with
  | debug => exact yields_note (fun _ => rfl) (fun _ => rfl) fun _ => rfl
  | scope => exact yields_note (fun _ => rfl) (fun _ => rfl) fun _ => rfl
  | warns =>
    refine Yields.machine.bind fun m _ => ?_
    split
    · exact .raise (.ordinary rfl)
    · exact yields_note (fun _ => rfl) (fun _ => rfl) fun _ => rfl

theorem yields_readLine : Yields (Sound good) (fun _ => True) (Misstep good) readLine := by
  intro m hm
  unfold readLine
  rcases hread : InputLine.read m.input with ⟨result, rest⟩
  cases result with
  | ok line => exact ⟨⟨hm.store, hm.returned, hm.builtins⟩, trivial⟩
  | error cause =>
    have hcause : cause = .undecodableInput := by
      unfold InputLine.read at hread
      split at hread
      · cases hread
      · cases hread
      · cases hread
        rfl
    rw [hcause]
    exact ⟨⟨hm.store, hm.returned, hm.builtins⟩, .ordinary rfl⟩

theorem good_valueOfLine (hgood : Value.Closed good) (line : String) : good (valueOfLine line) := by
  unfold valueOfLine
  dsimp only
  split
  · next hnumeric => exact hgood.numeral _ hnumeric
  · exact hgood.string line

theorem yields_read (hgood : Value.Closed good) (target : String) :
    Yields (Sound good) (fun _ => True) (Misstep good) (read target) :=
  yields_readLine.bind fun line _ => yields_declare target (good_valueOfLine hgood line) _ _

theorem yields_pushValue {value : Value} (hvalue : good value) :
    Yields (Sound good) (fun _ => True) F
      (modify fun m => { m with returned := value :: m.returned }) :=
  .modify fun _ hm => ⟨hm.store, List.forall_mem_cons.2 ⟨hvalue, hm.returned⟩, hm.builtins⟩

theorem yields_leave (hgood : Value.Closed good) {operand : Option Operand}
    (h : ∀ o ∈ operand.toList, o.IsWritten) :
    Yields (Sound good) (fun _ => True) (Misstep good) (leave operand) := by
  cases operand with
  | none => exact .pure trivial
  | some operand =>
    refine (yields_resolve hgood (h operand (by simp))).bind fun value hvalue => ?_
    refine Yields.machine.bind fun m _ => ?_
    cases m.returns with
    | none => exact yields_pushValue hvalue
    | some kind =>
      dsimp only
      split
      · exact yields_pushValue hvalue
      · exact .raise (.ordinary rfl)

theorem yields_charAt (hgood : Value.Closed good) (target source : String) (position : Nat) :
    Yields (Sound good) (fun _ => True) (Misstep good) (charAt target source position) := by
  refine (yields_lookup source).bind fun symbol _ => ?_
  cases symbol.value.kind with
  | num => exact .raise (.ordinary rfl)
  | str =>
    dsimp only
    split
    · exact .raise (.ordinary rfl)
    · exact yields_declare target (hgood.string _) _ _

theorem yields_step (hgood : Value.Closed good) (target : String) {delta : Int}
    (hdelta : delta = 1 ∨ delta = -1) :
    Yields (Sound good) (fun _ => True) (Misstep good) (step target delta) := by
  unfold step
  refine (yields_lookup target).bind fun symbol hsymbol => ?_
  cases hkind : symbol.value.kind with
  | str => exact .raise (.ordinary rfl)
  | num =>
    dsimp only
    split
    · exact .raise (.ordinary rfl)
    · generalize hnumber : Value.numberOf symbol.value.text = result
      have hlift : Yields (Sound good) (fun n => result = .ok n) (Misstep good) (lift result) :=
        .lift (fun _ hn => hn) fun cause hcause => .number hsymbol hkind (hnumber.trans hcause)
      refine hlift.bind fun n hn => ?_
      have hvalue := hgood.offset _ n delta hsymbol hkind (hnumber.trans hn) hdelta
      exact yields_write hvalue _ _ _

theorem yields_stringOf (name : String) (v : Value) :
    Yields (Sound good) (fun _ => True) (Misstep good) (Builtin.stringOf name v) := by
  unfold Builtin.stringOf
  split
  · exact .pure trivial
  · exact .raise (.ordinary rfl)

/-- What a builtin fails with: only the conversion to a number finds a text that writes none. -/
def BuiltinMisstep (good : Value → Prop) (builtin : Builtin) (fault : Fault) : Prop :=
  Misstep good fault ∨ builtin = .atoi ∧ ∃ text, fault = ⟨.invalidNumber text, none⟩

theorem Yields.builtin {x : Run α} {builtin : Builtin} (hx : Yields I P (Misstep good) x) :
    Yields I P (BuiltinMisstep good builtin) x := hx.mono (fun _ h => h) fun _ => .inl

theorem isNumeric_orderText (o : Ordering) : isNumeric (Builtin.orderText o) = true := by
  cases o <;> decide

theorem yields_builtin (hgood : Value.Closed good) {builtin : Builtin}
    (hstandard : ∀ result, builtin ≠ .fixed result) (args : List Value) :
    Yields (Sound good) (fun result => ∀ v ∈ result, good v) (BuiltinMisstep good builtin)
      (builtin.call args) := by
  have harity {cause : Cause} (h : cause.origin = .statement) :
      Yields (Sound good) (fun result : Option Value => ∀ v ∈ result, good v)
        (BuiltinMisstep good builtin) (raise cause) :=
    .raise (.inl (.ordinary h))
  have hresult {v : Value} (hv : good v) :
      Yields (Sound good) (fun result : Option Value => ∀ v ∈ result, good v)
        (BuiltinMisstep good builtin) (pure (some v)) :=
    .pure (by simpa using hv)
  have hline : Yields (Sound good) (fun result : Option Value => ∀ v ∈ result, good v)
      (BuiltinMisstep good builtin) (readLine >>= fun line => pure (some (.string line))) :=
    yields_readLine.builtin.bind fun line _ => hresult (hgood.string line)
  cases builtin with
  | input =>
    change Yields _ _ _ (Builtin.promptAndRead args)
    unfold Builtin.promptAndRead
    split
    · exact hline
    · exact Yields.bind (yields_note (fun _ => rfl) (fun _ => rfl) fun _ => rfl) fun _ _ => hline
    · exact harity rfl
  | strcmp =>
    change Yields _ _ _ (Builtin.compareStrings args)
    unfold Builtin.compareStrings
    split
    · refine (yields_stringOf _ _).builtin.bind fun l _ => ?_
      refine (yields_stringOf _ _).builtin.bind fun r _ => ?_
      exact hresult (hgood.numeral _ (isNumeric_orderText _))
    · exact harity rfl
  | atoi =>
    change Yields _ _ _ (Builtin.asNumber args)
    unfold Builtin.asNumber
    split
    · dsimp only
      split
      · next hnumeric => exact hresult (hgood.numeral _ hnumeric)
      · exact .raise (.inr ⟨rfl, _, rfl⟩)
    · exact harity rfl
  | itoa =>
    change Yields _ _ _ (Builtin.asString args)
    unfold Builtin.asString
    split
    · exact hresult (hgood.string _)
    · exact harity rfl
  | strlen =>
    change Yields _ _ _ (Builtin.countChars args)
    unfold Builtin.countChars
    split
    · exact (yields_stringOf _ _).builtin.bind fun text _ => hresult (hgood.count _)
    · exact harity rfl
  | strrev =>
    change Yields _ _ _ (Builtin.reverseChars args)
    unfold Builtin.reverseChars
    split
    · exact (yields_stringOf _ _).builtin.bind fun text _ => hresult (hgood.string _)
    · exact harity rfl
  | fixed result => exact absurd rfl (hstandard result)

theorem yields_warnUnreachable (rest : List Statement) :
    Yields (Sound good) (fun _ => True) F (warnUnreachable rest) := by
  cases rest with
  | nil => exact .pure trivial
  | cons next rest =>
    refine Yields.bind (yields_note (fun _ => rfl) (fun _ => rfl) fun _ => rfl) fun _ _ => ?_
    exact Yields.machine.bind fun _ _ => yields_warn _

theorem yields_bindParams (depth : Nat) {bindings : List (String × Value)}
    (h : ∀ binding ∈ bindings, good binding.2) :
    Yields (Sound good) (fun _ => True) (Misstep good) (bindParams depth bindings) := by
  induction bindings with
  | nil => exact .pure trivial
  | cons binding rest ih =>
    obtain ⟨hvalue, hrest⟩ := List.forall_mem_cons.1 h
    exact (yields_write hvalue depth false none).bind fun _ _ => ih hrest

theorem yields_begin (s : Statement) : Yields (Sound good) (fun _ => True) F (begin s) :=
  yields_note (fun _ => rfl) (fun _ => rfl) fun _ => rfl

/-- A statement without others inside it makes missteps only. -/
theorem yields_perform_of_isAtomic (hgood : Value.Closed good) (fetcher : Fetcher)
    (program : Program) (exec : Statement → Run Flow) (fuel : Nat) {s : Statement}
    (hatomic : s.instruction.isAtomic = true) (hs : s.instruction.Stated) :
    Yields (Sound good) (fun _ => True) (Misstep good) (perform fetcher program exec fuel s) := by
  obtain ⟨hwritten, hboundary⟩ := hs
  unfold Instruction.IsWritten at hwritten
  unfold perform
  cases hi : s.instruction with
  | define signature => exact .pure trivial
  | assign target value constant =>
    have hvalue := yields_resolve hgood (hwritten value (by simp [hi, Instruction.operands]))
    exact .andNext (hvalue.bind fun v hv => yields_declare target hv constant none)
  | branch condition => simp [hi, Instruction.isAtomic] at hatomic
  | loop condition => simp [hi, Instruction.isAtomic] at hatomic
  | otherwise chained => simp [hi, Instruction.isBoundary] at hboundary
  | close => simp [hi, Instruction.isBoundary] at hboundary
  | delete target => exact .andNext (yields_delete target)
  | status target reference => exact .andNext (yields_bindStatus hgood target reference)
  | fetch target reference => exact .andNext (yields_fetch hgood fetcher target reference)
  | request request => exact .andNext (yields_register request)
  | use mode => exact .andNext (yields_use mode)
  | print value =>
    have hvalue := yields_resolve hgood (hwritten value (by simp [hi, Instruction.operands]))
    refine .andNext (hvalue.bind fun v _ => ?_)
    exact yields_note (fun _ => rfl) (fun _ => rfl) fun _ => rfl
  | read target => exact .andNext (yields_read hgood target)
  | leave value =>
    rw [hi] at hwritten
    exact (yields_leave hgood hwritten).bind fun _ _ => .pure trivial
  | call c => simp [hi, Instruction.isAtomic] at hatomic
  | callInto target c => simp [hi, Instruction.isAtomic] at hatomic
  | index target source position => exact .andNext (yields_charAt hgood target source position)
  | increment target => exact .andNext (yields_step hgood target (.inl rfl))
  | decrement target => exact .andNext (yields_step hgood target (.inr rfl))

/-- What such a statement fails with if it may be the boundary of a block, which is never executed
as it stands. -/
def AtomicMisstep (good : Value → Prop) (i : Instruction) (fault : Fault) : Prop :=
  Misstep good fault ∨ i.isBoundary = true ∧ fault = ⟨.notInvocable i.keyword, none⟩

theorem yields_atomic (hgood : Value.Closed good) (fetcher : Fetcher) (program : Program)
    (exec : Statement → Run Flow) (fuel : Nat) {s : Statement}
    (hatomic : s.instruction.isAtomic = true) (hs : s.instruction.IsWritten) :
    Yields (Sound good) (fun _ => True) (AtomicMisstep good s.instruction)
      (perform fetcher program exec fuel s) := by
  cases hboundary : s.instruction.isBoundary with
  | false =>
    have hstated := yields_perform_of_isAtomic hgood fetcher program exec fuel hatomic
      ⟨hs, hboundary⟩
    exact hstated.mono (fun _ h => h) fun _ => .inl
  | true =>
    unfold perform
    cases hi : s.instruction with
    | otherwise chained => exact .raise (.inr ⟨rfl, rfl⟩)
    | close => exact .raise (.inr ⟨rfl, rfl⟩)
    | _ => simp [hi, Instruction.isBoundary] at hboundary

end Run

end ApiScript
