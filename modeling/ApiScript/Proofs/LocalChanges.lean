import ApiScript.Machine.Execution
import Mathlib.Logic.Relation

/-!
# Local changes of the machine

A statement that executes no other statement makes local changes only: it writes in the innermost
frame, registers or drops requests, returns a value, or notes something that is no part of the
frames. However it ends, the machine has come to its end by such changes.
-/
namespace ApiScript

open Relation (ReflTransGen)

/-- Nothing changes in the store, in the builtins and in what belongs to the call at hand. -/
abbrev Note (m m' : Machine) : Prop :=
  m' = { m' with
    store := m.store, builtins := m.builtins, depth := m.depth, scope := m.scope,
    callers := m.callers, returns := m.returns, returned := m.returned }

inductive LocalChange : Machine → Machine → Prop where
  | declare {m : Machine} {store : Store} {name : String} {value : Value} {depth : Nat}
      {constant : Bool} {status : Option Nat}
      (h : m.store.declare name value depth constant status = .ok store) :
      LocalChange m { m with store }
  | eraseSymbol (m : Machine) (name : String) :
      LocalChange m { m with store := m.store.eraseSymbol name }
  | registerRequest {m : Machine} {store : Store} {id : String} {request : Request}
      (h : m.store.registerRequest id request = .ok store) : LocalChange m { m with store }
  | eraseRequest (m : Machine) (id : String) :
      LocalChange m { m with store := m.store.eraseRequest id }
  | returnValue (m : Machine) (value : Value) :
      LocalChange m { m with returned := value :: m.returned }
  | note {m m' : Machine} (h : Note m m') : LocalChange m m'

structure SilentChange (m m' : Machine) : Prop where
  locally : LocalChange m m'
  returned : m'.returned = m.returned

theorem Note.silent {m m' : Machine} (h : Note m m') : SilentChange m m' := by
  refine ⟨.note h, ?_⟩
  rw [h]

namespace Run

variable {α β : Type} {r : Machine → Machine → Prop}

/-- However it ends, the computation has come there by changes of one kind. -/
def Makes (r : Machine → Machine → Prop) (x : Run α) : Prop :=
  ∀ m, ReflTransGen r m (x m).machine

namespace Makes

theorem pure (a : α) : Makes r (Pure.pure a : Run α) := fun _ => .refl

theorem bind {x : Run α} {f : α → Run β} (hx : Makes r x) (hf : ∀ a, Makes r (f a)) :
    Makes r (x >>= f) := by
  intro m
  have hm := hx m
  rw [bind_apply]
  cases hend : x m with
  | done a m' =>
    rw [hend] at hm
    exact hm.trans (hf a m')
  | failed fault m' =>
    rw [hend] at hm
    exact hm
  | unfinished m' =>
    rw [hend] at hm
    exact hm

theorem mono {r' : Machine → Machine → Prop} {x : Run α} (hx : Makes r x)
    (hr : ∀ m m', r m m' → r' m m') : Makes r' x := fun m => ReflTransGen.mono hr _ _ (hx m)

theorem locally {x : Run α} (hx : Makes Note x) : Makes LocalChange x := hx.mono fun _ _ => .note

theorem silent {x : Run α} (hx : Makes Note x) : Makes SilentChange x :=
  hx.mono fun _ _ h => Note.silent h

theorem ofSilent {x : Run α} (hx : Makes SilentChange x) : Makes LocalChange x :=
  hx.mono fun _ _ h => h.locally

theorem machine : Makes r Run.machine := fun _ => .refl

theorem unfinished : Makes r (Run.unfinished : Run α) := fun _ => .refl

theorem raise (cause : Cause) : Makes r (Run.raise cause : Run α) := fun _ => .refl

theorem lift (x : Except Cause α) : Makes r (Run.lift x) := by
  cases x with
  | ok a => exact pure a
  | error cause => exact raise cause

theorem modify {f : Machine → Machine} (h : ∀ m, r m (f m)) : Makes r (Run.modify f) :=
  fun m => .single (h m)

theorem onStore {f : Store → Except Cause Store}
    (h : ∀ (m : Machine) (store : Store), f m.store = .ok store → r m { m with store }) :
    Makes r (Run.onStore f) := by
  intro m
  unfold Run.onStore
  cases hf : f m.store with
  | ok store => exact .single (h m store hf)
  | error cause => exact .refl

theorem locating (location : Location) {x : Run α} (hx : Makes r x) :
    Makes r (Run.locating location x) := by
  intro m
  have hm := hx m
  unfold Run.locating
  cases hend : x m with
  | done a m' => rwa [hend] at hm
  | failed fault m' => rwa [hend] at hm
  | unfinished m' => rwa [hend] at hm

theorem andNext {x : Run Unit} (hx : Makes r x) : Makes r (Run.andNext x) :=
  hx.bind fun _ => pure Flow.next

end Makes

theorem makes_lookup (name : String) : Makes r (lookup name) :=
  Makes.machine.bind fun _ => .lift _

theorem makes_resolve (operand : Operand) : Makes r (resolve operand) := by
  cases operand with
  | name text => exact (makes_lookup text).bind fun _ => .pure _
  | number text => exact .pure _
  | literal text => exact .pure _

theorem makes_resolveAll (operands : List Operand) : Makes r (resolveAll operands) := by
  induction operands with
  | nil => exact .pure _
  | cons operand rest ih =>
    exact (makes_resolve operand).bind fun _ => ih.bind fun _ => .pure _

theorem silent_declare (target : String) (value : Value) (constant : Bool)
    (status : Option Nat) : Makes SilentChange (declare target value constant status) :=
  Makes.machine.bind fun _ => .onStore fun _ _ h => ⟨.declare h, rfl⟩

theorem notes_emit (line : String) : Makes Note (emit line) := .modify fun _ => rfl

theorem notes_warn (w : Warning) : Makes Note (warn w) := by
  refine .modify fun m => ?_
  by_cases hwarns : m.modes.warns = true
  · rw [if_pos hwarns]
    rfl
  · rw [if_neg hwarns]

theorem notes_warnUnless (well : Bool) (w : Warning) : Makes Note (warnUnless well w) := by
  cases well with
  | true => exact .pure _
  | false => exact notes_warn w

theorem notes_test (condition : Condition) : Makes Note (test condition) := by
  refine Makes.machine.bind fun m => ?_
  cases condition.test with
  | succeeded => exact .pure _
  | declared name => exact .pure _
  | compares lhs op rhs =>
    refine (makes_resolve lhs).bind fun l => (makes_resolve rhs).bind fun r => ?_
    exact (notes_warnUnless _ _).bind fun _ => (Makes.lift _).bind fun _ => .pure _

theorem makes_test (condition : Condition) : Makes LocalChange (test condition) :=
  (notes_test condition).locally

theorem silent_delete (target : String) : Makes SilentChange (delete target) := by
  refine .onStore fun m store h => ?_
  split at h
  · cases h
    exact ⟨.eraseRequest m target, rfl⟩
  · split at h
    · cases h
      exact ⟨.eraseSymbol m target, rfl⟩
    · cases h

theorem makes_statusOf (reference : String) : Makes r (statusOf reference) := by
  refine Makes.machine.bind fun m => ?_
  split
  · exact .pure _
  · exact (makes_lookup reference).bind fun _ => .pure _

theorem silent_bindStatus (target reference : String) :
    Makes SilentChange (bindStatus target reference) := by
  refine (makes_statusOf reference).bind fun status => ?_
  cases status with
  | none => exact .raise _
  | some code => exact silent_declare _ _ _ _

theorem notes_noteFetch (reference : String) (call : FetchCall) (response : Response) :
    Makes Note (noteFetch reference call response) :=
  .modify fun _ => rfl

theorem silent_fetch (fetcher : Fetcher) (target reference : String) :
    Makes SilentChange (fetch fetcher target reference) := by
  refine Makes.machine.bind fun m => (Makes.lift _).bind fun request => ?_
  refine (notes_noteFetch _ _ _).silent.bind fun _ => ?_
  split
  · exact .raise _
  · exact (notes_warnUnless _ _).silent.bind fun _ => silent_declare _ _ _ _

theorem makes_resolveEndpoint (request : Request) : Makes r (resolveEndpoint request) := by
  unfold resolveEndpoint
  split
  · exact .pure _
  · exact (makes_lookup _).bind fun _ => .pure _

theorem silent_register (request : Request) : Makes SilentChange (register request) := by
  refine (makes_resolveEndpoint request).bind fun resolved => ?_
  refine (notes_warnUnless _ _).silent.bind fun _ => ?_
  refine Makes.bind (.onStore fun _ _ h => ⟨.registerRequest h, rfl⟩) fun _ => ?_
  exact .modify fun _ => Note.silent rfl

theorem notes_use (mode : Mode) : Makes Note (use mode) := by
  have hmodes (f : Modes → Modes) : Makes Note (modify fun m => { m with modes := f m.modes }) :=
    .modify fun _ => rfl
  cases mode with
  | debug => exact hmodes fun modes => { modes with debug := true }
  | scope => exact hmodes fun modes => { modes with purge := true }
  | warns =>
    refine Makes.machine.bind fun m => ?_
    split
    · exact .raise _
    · exact hmodes fun modes => { modes with warns := true }

theorem notes_readLine : Makes Note readLine := by
  intro m
  have hread (rest : List InputLine) : Note m { m with input := rest } := rfl
  unfold readLine
  split
  · exact .single (hread _)
  · exact .single (hread _)

theorem makes_readLine : Makes LocalChange readLine := notes_readLine.locally

theorem silent_read (target : String) : Makes SilentChange (read target) :=
  notes_readLine.silent.bind fun _ => silent_declare _ _ _ _

theorem makes_leave (operand : Option Operand) : Makes LocalChange (leave operand) := by
  have hpush (value : Value) :
      Makes LocalChange (modify fun m => { m with returned := value :: m.returned }) :=
    .modify fun m => .returnValue m value
  cases operand with
  | none => exact .pure _
  | some operand =>
    refine (makes_resolve operand).bind fun value => Makes.machine.bind fun m => ?_
    cases m.returns with
    | none => exact hpush value
    | some kind =>
      dsimp only
      split
      · exact hpush value
      · exact .raise _

theorem silent_charAt (target source : String) (position : Nat) :
    Makes SilentChange (charAt target source position) := by
  refine (makes_lookup source).bind fun symbol => ?_
  cases symbol.value.kind with
  | num => exact .raise _
  | str =>
    dsimp only
    split
    · exact .raise _
    · exact silent_declare _ _ _ _

theorem silent_step (target : String) (delta : Int) : Makes SilentChange (step target delta) := by
  refine (makes_lookup target).bind fun symbol => ?_
  cases symbol.value.kind with
  | str => exact .raise _
  | num =>
    dsimp only
    split
    · exact .raise _
    · exact (Makes.lift _).bind fun n => .onStore fun _ _ h => ⟨.declare h, rfl⟩

theorem stringOf_eq_lift (name : String) (v : Value) :
    ∃ result, Builtin.stringOf name v = lift result := by
  unfold Builtin.stringOf
  cases v.kind with
  | str => exact ⟨.ok v.text, rfl⟩
  | num => exact ⟨.error (.stringsOnly name), rfl⟩

/-- All builtins but the one that reads compute their result from the arguments. -/
theorem builtin_eq_lift {builtin : Builtin} (h : builtin ≠ .input) (args : List Value) :
    ∃ result, builtin.call args = lift result := by
  have hstring (name : String) (v : Value) (f : String → Run (Option Value))
      (hf : ∀ text, ∃ result, f text = lift result) :
      ∃ result, (Builtin.stringOf name v >>= f) = lift result := by
    obtain ⟨found, hfound⟩ := stringOf_eq_lift name v
    rw [hfound]
    cases found with
    | ok text => exact hf text
    | error cause => exact ⟨.error cause, rfl⟩
  cases builtin with
  | input => exact absurd rfl h
  | strcmp =>
    change ∃ result, Builtin.compareStrings args = lift result
    unfold Builtin.compareStrings
    split
    · exact hstring _ _ _ fun l => hstring _ _ _ fun r => ⟨.ok _, rfl⟩
    · exact ⟨.error _, rfl⟩
  | atoi =>
    change ∃ result, Builtin.asNumber args = lift result
    unfold Builtin.asNumber
    split
    · dsimp only
      split
      · exact ⟨.ok _, rfl⟩
      · exact ⟨.error _, rfl⟩
    · exact ⟨.error _, rfl⟩
  | itoa =>
    change ∃ result, Builtin.asString args = lift result
    unfold Builtin.asString
    split
    · exact ⟨.ok _, rfl⟩
    · exact ⟨.error _, rfl⟩
  | strlen =>
    change ∃ result, Builtin.countChars args = lift result
    unfold Builtin.countChars
    split
    · exact hstring _ _ _ fun text => ⟨.ok _, rfl⟩
    · exact ⟨.error _, rfl⟩
  | strrev =>
    change ∃ result, Builtin.reverseChars args = lift result
    unfold Builtin.reverseChars
    split
    · exact hstring _ _ _ fun text => ⟨.ok _, rfl⟩
    · exact ⟨.error _, rfl⟩
  | fixed result => exact ⟨.ok result, rfl⟩

theorem notes_promptAndRead (args : List Value) : Makes Note (Builtin.promptAndRead args) := by
  unfold Builtin.promptAndRead
  split
  · exact notes_readLine.bind fun _ => .pure _
  · refine Makes.bind (.modify fun _ => rfl) fun _ => ?_
    exact notes_readLine.bind fun _ => .pure _
  · exact .raise _

theorem notes_builtin (builtin : Builtin) (args : List Value) :
    Makes Note (builtin.call args) := by
  by_cases hinput : builtin = .input
  · rw [hinput]
    exact notes_promptAndRead args
  · obtain ⟨result, hresult⟩ := builtin_eq_lift hinput args
    rw [hresult]
    exact .lift result

theorem makes_builtin (builtin : Builtin) (args : List Value) :
    Makes LocalChange (builtin.call args) :=
  (notes_builtin builtin args).locally

theorem notes_warnUnreachable (rest : List Statement) : Makes Note (warnUnreachable rest) := by
  cases rest with
  | nil => exact .pure _
  | cons next rest =>
    refine Makes.bind (.modify fun _ => rfl) fun _ => ?_
    exact Makes.machine.bind fun _ => notes_warn _

theorem makes_warnUnreachable (rest : List Statement) :
    Makes LocalChange (warnUnreachable rest) :=
  (notes_warnUnreachable rest).locally

theorem silent_bindParams (depth : Nat) (bindings : List (String × Value)) :
    Makes SilentChange (bindParams depth bindings) := by
  induction bindings with
  | nil => exact .pure _
  | cons binding rest ih => exact Makes.bind (.onStore fun _ _ h => ⟨.declare h, rfl⟩) fun _ => ih

theorem makes_warnUnfetched (ids : List String) : Makes LocalChange (warnUnfetched ids) := by
  induction ids with
  | nil => exact .pure _
  | cons id rest ih => exact (notes_warn _).locally.bind fun _ => ih

theorem makes_emitAll (lines : List String) : Makes LocalChange (emitAll lines) := by
  induction lines with
  | nil => exact .pure _
  | cons line rest ih => exact (notes_emit line).locally.bind fun _ => ih

theorem makes_dumpStore : Makes LocalChange dumpStore := by
  refine Makes.machine.bind fun m => ?_
  split
  · exact makes_emitAll _
  · exact .pure _

theorem makes_begin (s : Statement) : Makes LocalChange (begin s) :=
  .modify fun _ => .note rfl

end Run

/-- Executing the instruction executes no other statement. -/
def Instruction.isAtomic : Instruction → Bool
  | .branch _ => false
  | .loop _ => false
  | .call _ => false
  | .callInto .. => false
  | _ => true

namespace Run

/-- A statement that executes no other one returns no value, unless it is a `return`. -/
theorem silent_perform_of_isAtomic (fetcher : Fetcher) (program : Program)
    (exec : Statement → Run Flow) (fuel : Nat) {s : Statement}
    (h : s.instruction.isAtomic = true) (hleave : ∀ operand, s.instruction ≠ .leave operand) :
    Makes SilentChange (perform fetcher program exec fuel s) := by
  unfold perform
  cases hi : s.instruction with
  | define signature => exact .pure _
  | assign target value constant =>
    exact .andNext ((makes_resolve value).bind fun _ => silent_declare _ _ _ _)
  | branch condition => simp [hi, Instruction.isAtomic] at h
  | loop condition => simp [hi, Instruction.isAtomic] at h
  | otherwise chained => exact .raise _
  | close => exact .raise _
  | delete target => exact .andNext (silent_delete target)
  | status target reference => exact .andNext (silent_bindStatus target reference)
  | fetch target reference => exact .andNext (silent_fetch fetcher target reference)
  | request request => exact .andNext (silent_register request)
  | use mode => exact .andNext (notes_use mode).silent
  | print value => exact .andNext ((makes_resolve value).bind fun _ => (notes_emit _).silent)
  | read target => exact .andNext (silent_read target)
  | leave value => exact absurd hi (hleave value)
  | call c => simp [hi, Instruction.isAtomic] at h
  | callInto target c => simp [hi, Instruction.isAtomic] at h
  | index target source position => exact .andNext (silent_charAt target source position)
  | increment target => exact .andNext (silent_step target 1)
  | decrement target => exact .andNext (silent_step target (-1))

theorem makes_perform_of_isAtomic (fetcher : Fetcher) (program : Program)
    (exec : Statement → Run Flow) (fuel : Nat) {s : Statement}
    (h : s.instruction.isAtomic = true) :
    Makes LocalChange (perform fetcher program exec fuel s) := by
  by_cases hleave : ∃ operand, s.instruction = .leave operand
  · obtain ⟨operand, hi⟩ := hleave
    unfold perform
    rw [hi]
    exact (makes_leave operand).bind fun _ => .pure _
  · have hsilent (operand : Option Operand) : s.instruction ≠ .leave operand :=
      fun hi => hleave ⟨operand, hi⟩
    exact (silent_perform_of_isAtomic fetcher program exec fuel h hsilent).ofSilent

end Run

end ApiScript
