import ApiScript.Proofs.LocalChanges

/-!
# Changes of the machine

Blocks and calls add a few changes to the local ones: they go deeper and back, push and drop frames,
switch to another function and drop returned values. However a statement or a whole run ends, the
machine has come to its end by changes, so what every change preserves holds at every end.
-/
namespace ApiScript

open Relation (ReflTransGen)

inductive Change : Machine → Machine → Prop where
  | locally {m m' : Machine} (h : LocalChange m m') : Change m m'
  | nest (m : Machine) (depth : Nat) : Change m { m with depth }
  | cleanup (m : Machine) (depth : Nat) : Change m { m with store := m.store.cleanup depth }
  | pushFrame (m : Machine) : Change m { m with store := m.store.pushFrame }
  | popFrame {m : Machine} {store : Store} (h : m.store.popFrame = .ok store) :
      Change m { m with store }
  | switch (m : Machine) (scope : String) (callers : List String) (returns : Option Kind) :
      Change m { m with scope, callers, returns }
  | dropReturned (m : Machine) (count : Nat) :
      Change m { m with returned := m.returned.drop count }

namespace Run

theorem Makes.change {α : Type} {x : Run α} (hx : Makes LocalChange x) : Makes Change x :=
  hx.mono fun _ _ => .locally

theorem makes_purgeScope (m : Machine) : ReflTransGen Change m (purgeScope m) := by
  unfold purgeScope
  split
  · exact .single (.cleanup m m.depth)
  · exact .refl

theorem makes_enterBlock : Makes Change enterBlock := .modify fun m => .nest m (m.depth + 1)

theorem makes_leaveBlock : Makes Change leaveBlock := by
  intro m
  have hnest : Change m { m with depth := m.depth - 1 } := .nest m (m.depth - 1)
  exact (ReflTransGen.single hnest).trans (makes_purgeScope _)

variable {exec : Statement → Run Flow}

theorem makes_block (hexec : ∀ s, Makes Change (exec s)) (statements : List Statement) :
    Makes Change (block exec statements) := by
  induction statements with
  | nil => exact .pure _
  | cons s rest ih =>
    refine (hexec s).bind fun flow => ?_
    cases flow with
    | next => exact ih
    | leave => exact (makes_warnUnreachable rest).change.bind fun _ => .pure _

theorem makes_repeatWhile {holds : Run Bool} {body : Run Flow} (hholds : Makes Change holds)
    (hbody : Makes Change body) (fuel : Nat) : Makes Change (repeatWhile holds body fuel) := by
  induction fuel with
  | zero => exact .unfinished
  | succ fuel ih =>
    refine hholds.bind fun again => ?_
    cases again with
    | false => exact .pure _
    | true =>
      refine hbody.bind fun flow => ?_
      cases flow with
      | next => exact ih
      | leave => exact .pure _

theorem makes_nested {x : Run Flow} (hx : Makes Change x) : Makes Change (nested x) :=
  makes_enterBlock.bind fun _ => hx.bind fun _ => makes_leaveBlock.bind fun _ => .pure _

theorem makes_branch (hexec : ∀ s, Makes Change (exec s)) (condition : Condition)
    (body alt : List Statement) : Makes Change (branch exec condition body alt) :=
  makes_nested ((makes_test condition).change.bind fun _ => makes_block hexec _)

theorem makes_loop (hexec : ∀ s, Makes Change (exec s)) (fuel : Nat) (condition : Condition)
    (body : List Statement) : Makes Change (loop exec fuel condition body) :=
  makes_nested (makes_repeatWhile (makes_test condition).change (makes_block hexec body) fuel)

theorem makes_leaveFunction (returns : Option Kind) : Makes Change (leaveFunction returns) := by
  refine .modify fun m => ?_
  cases m.callers with
  | nil => exact .switch m m.scope [] returns
  | cons caller rest => exact .switch m caller rest returns

theorem makes_popFrame : Makes Change (onStore Store.popFrame) := .onStore fun _ _ h => .popFrame h

theorem makes_openFrame (name : String) (params : List String) (args : List Value)
    (returns : Option Kind) : Makes Change (openFrame name params args returns) := by
  have hpush : Makes Change (modify fun m => { m with store := m.store.pushFrame }) :=
    .modify fun m => .pushFrame m
  have henter : Makes Change (enterFunction name returns) :=
    .modify fun m => .switch m name (m.scope :: m.callers) returns
  refine Makes.machine.bind fun caller => hpush.bind fun _ => ?_
  exact (silent_bindParams _ _).ofSilent.change.bind fun _ => henter

theorem makes_activate (hexec : ∀ s, Makes Change (exec s)) (name : String) (params : List String)
    (args : List Value) (returns : Option Kind) (body : List Statement) :
    Makes Change (activate exec name params args returns body) := by
  have hopen := makes_openFrame name params args returns
  refine Makes.machine.bind fun caller => hopen.bind fun _ => ?_
  exact (makes_block hexec body).bind fun _ => (makes_leaveFunction _).bind fun _ => makes_popFrame

theorem makes_callFunction (hexec : ∀ s, Makes Change (exec s)) (program : Program)
    (name : String) (args : List Value) : Makes Change (callFunction program exec name args) := by
  refine Makes.machine.bind fun m => (Makes.lift _).bind fun params => ?_
  cases program.function? name with
  | none => exact .raise _
  | some function =>
    dsimp only
    split
    · exact .raise _
    · split
      · exact .raise _
      · exact makes_activate hexec _ _ _ _ _

theorem makes_call (hexec : ∀ s, Makes Change (exec s)) (program : Program) (c : Call) :
    Makes Change (call program exec c) := by
  refine (makes_resolveAll c.args).bind fun args => Makes.machine.bind fun m => ?_
  cases m.builtins.get? c.name with
  | none => exact makes_callFunction hexec program c.name args
  | some builtin =>
    refine (makes_builtin builtin args).change.bind fun result => ?_
    cases result with
    | none => exact .pure _
    | some value => exact .modify fun m => .locally (.returnValue m value)

theorem makes_truncateReturned (count : Nat) : Makes Change (truncateReturned count) :=
  .modify fun m => .dropReturned m (m.returned.length - count)

theorem makes_callInto (hexec : ∀ s, Makes Change (exec s)) (program : Program) (target : String)
    (c : Call) : Makes Change (callInto program exec target c) := by
  refine Makes.machine.bind fun before => (makes_call hexec program c).bind fun _ => ?_
  refine Makes.machine.bind fun after => ?_
  cases after.returned with
  | nil => exact .raise _
  | cons value rest =>
    dsimp only
    split
    · exact .raise _
    · exact (makes_truncateReturned _).bind fun _ => (silent_declare _ _ _ _).ofSilent.change

theorem makes_perform (fetcher : Fetcher) (program : Program) (hexec : ∀ s, Makes Change (exec s))
    (fuel : Nat) (s : Statement) : Makes Change (perform fetcher program exec fuel s) := by
  by_cases hatomic : s.instruction.isAtomic = true
  · exact (makes_perform_of_isAtomic fetcher program exec fuel hatomic).change
  · unfold perform
    cases hi : s.instruction with
    | branch condition => exact makes_branch hexec condition s.body s.alt
    | loop condition => exact makes_loop hexec fuel condition s.body
    | call c =>
      have hcall := makes_call hexec program c
      exact .andNext (Makes.machine.bind fun _ => hcall.bind fun _ => makes_truncateReturned _)
    | callInto target c => exact .andNext (makes_callInto hexec program target c)
    | _ => simp [hi, Instruction.isAtomic] at hatomic

/-- However a statement ends, the machine has come to its end by changes. -/
theorem makes_execute (fetcher : Fetcher) (program : Program) (fuel : Nat) (s : Statement) :
    Makes Change (execute fetcher program fuel s) := by
  induction fuel generalizing s with
  | zero => exact .unfinished
  | succ fuel ih =>
    exact (makes_begin s).change.bind fun _ => .locating _ (makes_perform fetcher program ih fuel s)

theorem makes_enterMain (program : Program) : Makes Change (enterMain program) := by
  intro m
  have hnote : Change m
      { m with location := { m.location with file := lastFile program m.location.file } } :=
    .locally (.note rfl)
  exact ((ReflTransGen.single hnote).tail (.switch _ entryFunction m.callers none)).tail
    (.pushFrame _)

theorem makes_leaveMain (location : Location) : Makes Change (leaveMain location) := by
  have hpurge : Makes Change (modify fun m => purgeScope { m with location }) := by
    intro m
    have hnote : Change m { m with location } := .locally (.note rfl)
    exact (ReflTransGen.single hnote).trans (makes_purgeScope _)
  have hforget : Makes LocalChange (modify fun m => { m with unfetched := [] }) :=
    .modify fun _ => .note rfl
  refine hpurge.bind fun _ => Makes.machine.bind fun m => hforget.change.bind fun _ => ?_
  refine (makes_warnUnfetched _).change.bind fun _ => makes_dumpStore.change.bind fun _ => ?_
  exact makes_popFrame

theorem makes_run (fetcher : Fetcher) (fuel : Nat) (program : Program) :
    Makes Change (program.run fetcher fuel) := by
  unfold Program.run
  cases program.function? entryFunction with
  | none => exact .raise _
  | some main =>
    refine (makes_enterMain program).bind fun _ => ?_
    refine (makes_block (makes_execute fetcher program fuel) main.body).bind fun _ => ?_
    exact makes_leaveMain main.location

end Run

end ApiScript
