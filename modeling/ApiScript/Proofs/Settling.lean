import ApiScript.Proofs.FrameWrites
import ApiScript.Proofs.Fuel
import ApiScript.Proofs.Slips

/-!
# Statements that settle

A statement that executes no other one needs no fuel, so it always comes to an end of its own. It
writes to the store in its last step only, so it leaves the store as it was if it fails.
-/
namespace ApiScript.Run

variable {α β : Type}

/-- The computation comes to an end of its own, and leaves the store if it fails. -/
def Settles (x : Run α) : Prop :=
  ∀ m,
    match x m with
    | .done _ _ => True
    | .failed _ m' => m'.store = m.store
    | .unfinished _ => False

namespace Settles

theorem done_or_failed {x : Run α} (hx : Settles x) (m : Machine) :
    (∃ a m', x m = .done a m') ∨ ∃ fault m', x m = .failed fault m' ∧ m'.store = m.store := by
  have hm := hx m
  cases h : x m with
  | done a m' => exact .inl ⟨a, m', rfl⟩
  | failed fault m' =>
    rw [h] at hm
    exact .inr ⟨fault, m', rfl, hm⟩
  | unfinished m' =>
    rw [h] at hm
    exact hm.elim

theorem isFinished {x : Run α} (hx : Settles x) (m : Machine) : (x m).isFinished = true := by
  rcases hx.done_or_failed m with ⟨a, m', h⟩ | ⟨fault, m', h, -⟩
  · rw [h]
    rfl
  · rw [h]
    rfl

theorem of_succeeds {x : Run α} (hx : Succeeds x) : Settles x := by
  intro m
  obtain ⟨a, m', h⟩ := hx m
  rw [h]
  trivial

theorem pure (a : α) : Settles (Pure.pure a : Run α) := fun _ => trivial

theorem raise (cause : Cause) : Settles (Run.raise cause : Run α) := fun _ => rfl

theorem lift (x : Except Cause α) : Settles (Run.lift x) := by
  cases x with
  | ok a => exact pure a
  | error cause => exact raise cause

theorem onStore (f : Store → Except Cause Store) : Settles (Run.onStore f) := by
  intro m
  unfold Run.onStore
  cases f m.store with
  | ok store => trivial
  | error cause => rfl

/-- What comes before the last step makes notes only. -/
theorem bind {x : Run α} {f : α → Run β} (hx : Settles x) (hnotes : Makes Note x)
    (hf : ∀ a, Settles (f a)) : Settles (x >>= f) := by
  intro m
  have hm := hx m
  rw [bind_apply]
  cases h : x m with
  | done a m₁ =>
    have hstore := (hnotes.notes h).1
    have hrest := hf a m₁
    dsimp only
    rwa [hstore] at hrest
  | failed fault m₁ => rwa [h] at hm
  | unfinished m₁ => rwa [h] at hm

/-- What comes after the store is written always succeeds. -/
theorem bind_succeeds {x : Run α} {f : α → Run β} (hx : Settles x) (hf : ∀ a, Succeeds (f a)) :
    Settles (x >>= f) := by
  intro m
  have hm := hx m
  rw [bind_apply]
  cases h : x m with
  | done a m₁ =>
    obtain ⟨b, m₂, hb⟩ := hf a m₁
    dsimp only
    rw [hb]
    trivial
  | failed fault m₁ => rwa [h] at hm
  | unfinished m₁ => rwa [h] at hm

/-- A computation that looks at the machine first. -/
theorem look {f : Machine → Run α} (hf : ∀ m, Settles (f m)) : Settles (machine >>= f) :=
  (of_succeeds .machine).bind .machine hf

theorem andNext {x : Run Unit} (hx : Settles x) : Settles (Run.andNext x) :=
  hx.bind_succeeds fun _ => .pure Flow.next

end Settles

theorem settles_lookup (name : String) : Settles (lookup name) := .look fun _ => .lift _

theorem settles_resolve (operand : Operand) : Settles (resolve operand) := by
  cases operand with
  | name text => exact (settles_lookup text).bind (makes_lookup text) fun _ => .pure _
  | number text => exact .pure _
  | literal text => exact .pure _

theorem settles_resolveAll (operands : List Operand) : Settles (resolveAll operands) := by
  induction operands with
  | nil => exact .pure _
  | cons operand rest ih =>
    refine (settles_resolve operand).bind (makes_resolve operand) fun value => ?_
    exact ih.bind (makes_resolveAll rest) fun _ => .pure _

theorem settles_declare (target : String) (value : Value) (constant : Bool)
    (status : Option Nat) : Settles (declare target value constant status) :=
  .look fun _ => .onStore _

theorem settles_warnUnless (well : Bool) (w : Warning) : Settles (warnUnless well w) := by
  cases well with
  | true => exact .pure _
  | false => exact .of_succeeds (.modify _)

theorem settles_test (condition : Condition) : Settles (test condition) := by
  refine .look fun m => ?_
  cases condition.test with
  | succeeded => exact .pure _
  | declared name => exact .pure _
  | compares lhs op rhs =>
    refine (settles_resolve lhs).bind (makes_resolve lhs) fun l => ?_
    refine (settles_resolve rhs).bind (makes_resolve rhs) fun r => ?_
    refine (settles_warnUnless _ _).bind (notes_warnUnless _ _) fun _ => ?_
    exact (Settles.lift _).bind (.lift _) fun _ => .pure _

theorem settles_bindStatus (target reference : String) :
    Settles (bindStatus target reference) := by
  have hstatus : Settles (statusOf reference) := by
    refine .look fun m => ?_
    split
    · exact .pure _
    · exact (settles_lookup reference).bind (makes_lookup reference) fun _ => .pure _
  refine hstatus.bind (makes_statusOf reference) fun status => ?_
  cases status with
  | none => exact .raise _
  | some code => exact settles_declare _ _ _ _

theorem settles_fetch (fetcher : Fetcher) (target reference : String) :
    Settles (fetch fetcher target reference) := by
  refine .look fun m => (Settles.lift _).bind (.lift _) fun request => ?_
  refine (Settles.of_succeeds (.modify _)).bind (notes_noteFetch _ _ _) fun _ => ?_
  split
  · exact .raise _
  · exact (settles_warnUnless _ _).bind (notes_warnUnless _ _) fun _ => settles_declare _ _ _ _

theorem settles_register (request : Request) : Settles (register request) := by
  have hresolve : Settles (resolveEndpoint request) := by
    unfold resolveEndpoint
    split
    · exact .pure _
    · exact (settles_lookup _).bind (makes_lookup _) fun _ => .pure _
  refine hresolve.bind (makes_resolveEndpoint request) fun resolved => ?_
  refine (settles_warnUnless _ _).bind (notes_warnUnless _ _) fun _ => ?_
  exact (Settles.onStore _).bind_succeeds fun _ => .modify _

theorem settles_use (mode : Mode) : Settles (use mode) := by
  cases mode with
  | debug => exact .of_succeeds (.modify _)
  | scope => exact .of_succeeds (.modify _)
  | warns =>
    refine .look fun m => ?_
    split
    · exact .raise _
    · exact .of_succeeds (.modify _)

theorem settles_readLine : Settles readLine := by
  intro m
  unfold readLine
  rcases InputLine.read m.input with ⟨result, rest⟩
  cases result with
  | ok line => trivial
  | error cause => rfl

theorem settles_leave (operand : Option Operand) : Settles (leave operand) := by
  cases operand with
  | none => exact .pure _
  | some operand =>
    refine (settles_resolve operand).bind (makes_resolve operand) fun value => .look fun m => ?_
    cases m.returns with
    | none => exact .of_succeeds (.modify _)
    | some kind =>
      dsimp only
      split
      · exact .of_succeeds (.modify _)
      · exact .raise _

theorem settles_charAt (target source : String) (position : Nat) :
    Settles (charAt target source position) := by
  refine (settles_lookup source).bind (makes_lookup source) fun symbol => ?_
  cases symbol.value.kind with
  | num => exact .raise _
  | str =>
    dsimp only
    split
    · exact .raise _
    · exact settles_declare _ _ _ _

theorem settles_step (target : String) (delta : Int) : Settles (step target delta) := by
  refine (settles_lookup target).bind (makes_lookup target) fun symbol => ?_
  cases symbol.value.kind with
  | str => exact .raise _
  | num =>
    dsimp only
    split
    · exact .raise _
    · exact (Settles.lift _).bind (.lift _) fun n => .onStore _

theorem settles_builtin (builtin : Builtin) (args : List Value) :
    Settles (builtin.call args) := by
  have hline : Settles (readLine >>= fun line => pure (some (Value.string line))) :=
    settles_readLine.bind notes_readLine fun _ => .pure _
  by_cases hinput : builtin = .input
  · rw [hinput]
    change Settles (Builtin.promptAndRead args)
    unfold Builtin.promptAndRead
    split
    · exact hline
    · exact (Settles.of_succeeds (.modify _)).bind (.modify fun _ => rfl) fun _ => hline
    · exact .raise _
  · obtain ⟨result, hresult⟩ := builtin_eq_lift hinput args
    rw [hresult]
    exact .lift result

/-- A statement that executes no other one comes to an end of its own, and leaves the store if it
fails. -/
theorem settles_perform_of_isAtomic (fetcher : Fetcher) (program : Program)
    (exec : Statement → Run Flow) (fuel : Nat) {s : Statement}
    (h : s.instruction.isAtomic = true) : Settles (perform fetcher program exec fuel s) := by
  unfold perform
  cases hi : s.instruction with
  | define signature => exact .pure _
  | assign target value constant =>
    have hresolve := settles_resolve value
    exact .andNext (hresolve.bind (makes_resolve value) fun _ => settles_declare _ _ _ _)
  | branch condition => simp [hi, Instruction.isAtomic] at h
  | loop condition => simp [hi, Instruction.isAtomic] at h
  | otherwise chained => exact .raise _
  | close => exact .raise _
  | delete target => exact .andNext (.onStore _)
  | status target reference => exact .andNext (settles_bindStatus target reference)
  | fetch target reference => exact .andNext (settles_fetch fetcher target reference)
  | request request => exact .andNext (settles_register request)
  | use mode => exact .andNext (settles_use mode)
  | print value =>
    have hresolve := settles_resolve value
    exact .andNext (hresolve.bind (makes_resolve value) fun _ => .of_succeeds (.modify _))
  | read target =>
    exact .andNext (settles_readLine.bind notes_readLine fun _ => settles_declare _ _ _ _)
  | leave value => exact (settles_leave value).bind_succeeds fun _ => .pure _
  | call c => simp [hi, Instruction.isAtomic] at h
  | callInto target c => simp [hi, Instruction.isAtomic] at h
  | index target source position => exact .andNext (settles_charAt target source position)
  | increment target => exact .andNext (settles_step target 1)
  | decrement target => exact .andNext (settles_step target (-1))

end ApiScript.Run
