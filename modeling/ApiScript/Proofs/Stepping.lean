import ApiScript.Proofs.Begun

/-!
# Execution step by step

A run as a sequence of states. What is left to do is a stack of tasks, and a step does the first of
them: it begins the next statement of a block, tests the condition of a loop, or leaves a block or a
function. A fault drops all that is left. However a run ends, and however little fuel it has, its
last state is one of the states that these steps go through, and so is every state in which a
statement begins.
-/
namespace ApiScript

open Run

inductive Task where
  | run
  /-- The statements of a block that are still to be executed. -/
  | statements (rest : List Statement)
  /-- The rounds of a loop that are still to come. -/
  | rounds (condition : Condition) (body : List Statement)
  | leaveBlock
  | leaveFunction (returns : Option Kind)
  | dropReturned (count : Nat)
  /-- Declares the target with what the call of a function has returned on top of some values. -/
  | takeReturned (target name : String) (count : Nat)
  | leaveMain (location : Location)

namespace Run

def takeReturned (target name : String) (count : Nat) : Run Unit := do
  let after ← machine
  match after.returned with
  | [] => raise (.voidResult name)
  | value :: _ =>
    if after.returned.length ≤ count then raise (.voidResult name)
    else do
      truncateReturned count
      declare target value false none

/-- Enters a function, the body of which is left to do. Then the declared kind of the caller counts
again. -/
def startFunction (program : Program) (name : String) (args : List Value) :
    Run (Option (List Statement × Option Kind)) := do
  let m ← machine
  let params ← lift (m.store.signature name)
  match program.function? name with
  | none => raise (.undeclaredFunction name)
  | some function =>
    if params.length ≠ args.length then raise (.argumentCount name)
    else if maxCallDepth ≤ m.callers.length then raise (.callDepth maxCallDepth)
    else do
      openFrame name params args (returnsOf function)
      pure (some (function.body, m.returns))

/-- Begins a call, which for a builtin is all there is to do. -/
def startCall (program : Program) (c : Call) : Run (Option (List Statement × Option Kind)) := do
  let args ← resolveAll c.args
  let m ← machine
  match m.builtins.get? c.name with
  | some builtin => do
    let result ← builtin.call args
    match result with
    | none => pure none
    | some value => do
      modify fun m => { m with returned := value :: m.returned }
      pure none
  | none => startFunction program c.name args

def finishCall (exec : Statement → Run Flow) : Option (List Statement × Option Kind) → Run Unit
  | none => pure ()
  | some (body, returns) => do
    let _ ← block exec body
    leaveFunction returns
    onStore Store.popFrame

section Calls

variable (program : Program) (exec : Statement → Run Flow)

theorem callFunction_eq (name : String) (args : List Value) :
    callFunction program exec name args =
      startFunction program name args >>= finishCall exec := by
  funext m
  have hmachine : machine m = .done m m := rfl
  unfold callFunction startFunction
  rw [bind_assoc, bind_of_done hmachine, bind_of_done hmachine]
  cases m.store.signature name with
  | error cause => rfl
  | ok params =>
    have hlift : lift (.ok params) m = .done params m := rfl
    rw [bind_assoc, bind_of_done hlift, bind_of_done hlift]
    cases program.function? name with
    | none => rfl
    | some function =>
      dsimp only
      split
      · rfl
      · split
        · rfl
        · rw [activate, bind_of_done hmachine, bind_assoc]
          rfl

theorem call_eq (c : Call) :
    call program exec c = startCall program c >>= finishCall exec := by
  unfold call startCall
  simp only [bind_assoc]
  refine bind_congr fun args => bind_congr fun m => ?_
  cases m.builtins.get? c.name with
  | none => exact callFunction_eq program exec c.name args
  | some builtin =>
    dsimp only
    rw [bind_assoc]
    refine bind_congr fun result => ?_
    cases result with
    | none => rfl
    | some value => rfl

theorem callInto_eq (target : String) (c : Call) :
    callInto program exec target c = (do
      let before ← machine
      call program exec c
      takeReturned target c.name before.returned.length) := rfl

end Calls

def callTasks : Option (List Statement × Option Kind) → List Task
  | none => []
  | some (body, returns) => [.statements body, .leaveFunction returns]

/-- Begins a statement, and tells where control goes and what the statement has left to do. One
that executes no other statement has nothing left. -/
def startStatement (fetcher : Fetcher) (program : Program) (s : Statement) :
    Run (Flow × List Task) :=
  match s.instruction with
  | .branch condition => do
    enterBlock
    let holds ← test condition
    pure (.next, [.statements (if holds then s.body else s.alt), .leaveBlock])
  | .loop condition => do
    enterBlock
    pure (.next, [.rounds condition s.body, .leaveBlock])
  | .call c => do
    let before ← machine
    let started ← startCall program c
    pure (.next, callTasks started ++ [.dropReturned before.returned.length])
  | .callInto target c => do
    let before ← machine
    let started ← startCall program c
    pure (.next, callTasks started ++ [.takeReturned target c.name before.returned.length])
  | _ => do
    let flow ← perform fetcher program (fun _ => unfinished) 0 s
    pure (flow, [])

/-- Does one task on the way that control takes, and gives the way and the tasks that follow. -/
def doTask (fetcher : Fetcher) (program : Program) : Flow → Task → Run (Flow × List Task)
  | _, .run =>
    match program.function? entryFunction with
    | none => raise (.undeclaredFunction entryFunction)
    | some main => do
      enterMain program
      pure (.next, [.statements main.body, .leaveMain main.location])
  | .next, .statements [] => pure (.next, [])
  | .next, .statements (s :: rest) => do
    begin s
    let (flow, tasks) ← startStatement fetcher program s
    pure (flow, tasks ++ [.statements rest])
  | .leave, .statements rest => do
    warnUnreachable rest
    pure (.leave, [])
  | .next, .rounds condition body => do
    let again ← test condition
    pure (.next, if again then [.statements body, .rounds condition body] else [])
  | .leave, .rounds _ _ => pure (.leave, [])
  | flow, .leaveBlock => do
    leaveBlock
    pure (flow, [])
  | _, .leaveFunction returns => do
    leaveFunction returns
    onStore Store.popFrame
    pure (.next, [])
  | flow, .dropReturned count => do
    truncateReturned count
    pure (flow, [])
  | flow, .takeReturned target name count => do
    takeReturned target name count
    pure (flow, [])
  | _, .leaveMain location => do
    leaveMain location
    pure (.next, [])

end Run

/-- A moment of a run: the way that control takes, what is left to do, and the machine. -/
structure Moment where
  flow : Flow
  tasks : List Task
  machine : Machine

namespace Moment

/-- The moment after a task is done. A fault leaves nothing to do. -/
def after (flow : Flow) (rest : List Task) : Outcome (Flow × List Task) → Moment
  | .done (flow, tasks) m => ⟨flow, tasks ++ rest, m⟩
  | .failed _ m => ⟨flow, [], m⟩
  | .unfinished m => ⟨flow, [], m⟩

def next (fetcher : Fetcher) (program : Program) (c : Moment) : Option Moment :=
  match c.tasks with
  | [] => none
  | task :: rest => some (after c.flow rest (doTask fetcher program c.flow task c.machine))

def start (m : Machine) : Moment := ⟨.next, [.run], m⟩

def Reaches (fetcher : Fetcher) (program : Program) : Moment → Moment → Prop :=
  Relation.ReflTransGen fun c d => c.next fetcher program = some d

variable {α β : Type} {fetcher : Fetcher} {program : Program}

/-- Steps lead to where a computation ends: after a good end to the way and the tasks that follow,
after a fault to the end of the run. -/
def Arrives (fetcher : Fetcher) (program : Program) (c : Moment) (follow : α → Flow × List Task) :
    Outcome α → Prop
  | .done a m => Reaches fetcher program c ⟨(follow a).1, (follow a).2, m⟩
  | .failed _ m => ∃ flow, Reaches fetcher program c ⟨flow, [], m⟩
  | .unfinished m => ∃ d, Reaches fetcher program c d ∧ d.machine = m

namespace Arrives

theorem of_done {c : Moment} {follow : α → Flow × List Task} {o : Outcome α} {a : α} {m : Machine}
    (h : Arrives fetcher program c follow o) (ho : o = .done a m) :
    Reaches fetcher program c ⟨(follow a).1, (follow a).2, m⟩ := by
  rwa [ho] at h

variable {c d : Moment} {follow : α → Flow × List Task} {follow' : β → Flow × List Task}

theorem of_reaches {o : Outcome α} (hd : Reaches fetcher program c d)
    (h : Arrives fetcher program d follow o) : Arrives fetcher program c follow o := by
  cases o with
  | done a m => exact hd.trans h
  | failed fault m =>
    obtain ⟨flow, hflow⟩ := h
    exact ⟨flow, hd.trans hflow⟩
  | unfinished m =>
    obtain ⟨e, he, hmachine⟩ := h
    exact ⟨e, hd.trans he, hmachine⟩

theorem bind {x : Run α} {f : α → Run β} {m : Machine}
    (hx : Arrives fetcher program c follow (x m))
    (hf : ∀ a m₁, x m = .done a m₁ →
      Arrives fetcher program ⟨(follow a).1, (follow a).2, m₁⟩ follow' (f a m₁)) :
    Arrives fetcher program c follow' ((x >>= f) m) := by
  rw [bind_apply]
  cases hend : x m with
  | done a m₁ =>
    rw [hend] at hx
    exact of_reaches hx (hf a m₁ hend)
  | failed fault m₁ =>
    rw [hend] at hx
    exact hx
  | unfinished m₁ =>
    rw [hend] at hx
    exact hx

theorem pure {a : α} {m : Machine} (h : Reaches fetcher program c ⟨(follow a).1, (follow a).2, m⟩) :
    Arrives fetcher program c follow ((Pure.pure a : Run α) m) := h

theorem locating (location : Location) {x : Run α} {m : Machine}
    (hx : Arrives fetcher program c follow (x m)) :
    Arrives fetcher program c follow (Run.locating location x m) := by
  unfold Run.locating
  cases hend : x m with
  | done a m₁ =>
    rw [hend] at hx
    exact hx
  | failed fault m₁ =>
    rw [hend] at hx
    exact hx
  | unfinished m₁ =>
    rw [hend] at hx
    exact hx

/-- One step does what the first task does. -/
theorem task {flow : Flow} {task : Task} {rest : List Task} {x : Run α} {m n : Machine}
    {g : α → Flow × List Task}
    (h : doTask fetcher program flow task m = (x >>= fun a => Pure.pure (g a)) n) :
    Arrives fetcher program ⟨flow, task :: rest, m⟩ (fun a => ((g a).1, (g a).2 ++ rest))
      (x n) := by
  have hnext : Reaches fetcher program ⟨flow, task :: rest, m⟩
      (after flow rest (doTask fetcher program flow task m)) := .single rfl
  rw [h, bind_apply] at hnext
  cases hend : x n with
  | done a m₁ =>
    rw [hend] at hnext
    exact hnext
  | failed fault m₁ =>
    rw [hend] at hnext
    exact ⟨flow, hnext⟩
  | unfinished m₁ =>
    rw [hend] at hnext
    exact ⟨_, hnext, rfl⟩

end Arrives

def Executes (fetcher : Fetcher) (program : Program) (exec : Statement → Run Flow) : Prop :=
  ∀ s rest tasks m, Arrives fetcher program ⟨.next, .statements (s :: rest) :: tasks, m⟩
    (fun flow => (flow, .statements rest :: tasks)) (exec s m)

variable {exec : Statement → Run Flow}

theorem arrives_block (hexec : Executes fetcher program exec) (statements : List Statement)
    (tasks : List Task) (m : Machine) :
    Arrives fetcher program ⟨.next, .statements statements :: tasks, m⟩
      (fun flow => (flow, tasks)) (block exec statements m) := by
  induction statements generalizing m with
  | nil => exact Arrives.pure (.single rfl)
  | cons s rest ih =>
    refine (hexec s rest tasks m).bind fun flow m₁ _ => ?_
    cases flow with
    | next => exact ih m₁
    | leave =>
      have hwarn : doTask fetcher program .leave (.statements rest) m₁ =
          (warnUnreachable rest >>= fun _ => Pure.pure (Flow.leave, [])) m₁ := by rw [doTask]
      exact (Arrives.task hwarn).bind fun _ _ _ => Arrives.pure .refl

theorem arrives_rounds (hexec : Executes fetcher program exec) (condition : Condition)
    (body : List Statement) (tasks : List Task) (rounds : Nat) (m : Machine) :
    Arrives fetcher program ⟨.next, .rounds condition body :: tasks, m⟩
      (fun flow => (flow, tasks))
      (repeatWhile (test condition) (block exec body) rounds m) := by
  induction rounds generalizing m with
  | zero => exact ⟨_, .refl, rfl⟩
  | succ rounds ih =>
    have htest : doTask fetcher program .next (.rounds condition body) m =
        (test condition >>= fun again => Pure.pure (Flow.next,
          if again then [.statements body, .rounds condition body] else [])) m := rfl
    refine (Arrives.task htest).bind fun again m₁ _ => ?_
    cases again with
    | false => exact Arrives.pure .refl
    | true =>
      refine (arrives_block hexec body _ m₁).bind fun flow m₂ _ => ?_
      cases flow with
      | next => exact ih m₂
      | leave => exact Arrives.pure (.single rfl)

theorem arrives_leaveBlock (flow : Flow) (tasks : List Task) (m : Machine) :
    Arrives fetcher program ⟨flow, .leaveBlock :: tasks, m⟩ (fun flow => (flow, tasks))
      ((do leaveBlock; Pure.pure flow : Run Flow) m) := by
  have hleave : doTask fetcher program flow .leaveBlock m =
      (leaveBlock >>= fun _ => Pure.pure (flow, [])) m := by
    cases flow <;> rfl
  exact (Arrives.task hleave).bind fun _ _ _ => Arrives.pure .refl

theorem arrives_finishCall (hexec : Executes fetcher program exec)
    (started : Option (List Statement × Option Kind)) (tasks : List Task) (m : Machine) :
    Arrives fetcher program ⟨.next, callTasks started ++ tasks, m⟩ (fun _ => (.next, tasks))
      (finishCall exec started m) := by
  cases started with
  | none => exact Arrives.pure .refl
  | some started =>
    obtain ⟨body, returns⟩ := started
    refine (arrives_block hexec body _ m).bind fun flow m₁ _ => ?_
    have hleave : doTask fetcher program flow (.leaveFunction returns) m₁ =
        ((do leaveFunction returns; onStore Store.popFrame) >>= fun _ =>
          Pure.pure (Flow.next, [])) m₁ := by
      cases flow <;> rw [bind_assoc] <;> rfl
    exact Arrives.task hleave

theorem doTask_statements (s : Statement) (rest : List Statement) (m : Machine) :
    doTask fetcher program .next (.statements (s :: rest)) m =
      (startStatement fetcher program s >>= fun started =>
        Pure.pure (started.1, started.2 ++ [.statements rest])) (begun s m) := rfl

theorem perform_of_isAtomic {s : Statement} (h : s.instruction.isAtomic = true)
    (exec exec' : Statement → Run Flow) (fuel fuel' : Nat) :
    perform fetcher program exec fuel s = perform fetcher program exec' fuel' s := by
  unfold perform
  cases hi : s.instruction with
  | branch condition => simp [hi, Instruction.isAtomic] at h
  | loop condition => simp [hi, Instruction.isAtomic] at h
  | call c => simp [hi, Instruction.isAtomic] at h
  | callInto target c => simp [hi, Instruction.isAtomic] at h
  | _ => rfl

theorem startStatement_of_isAtomic {s : Statement} (h : s.instruction.isAtomic = true)
    (exec : Statement → Run Flow) (fuel : Nat) :
    startStatement fetcher program s =
      perform fetcher program exec fuel s >>= fun flow => Pure.pure (flow, []) := by
  rw [perform_of_isAtomic h exec (fun _ => unfinished) fuel 0]
  unfold startStatement
  cases hi : s.instruction with
  | branch condition => simp [hi, Instruction.isAtomic] at h
  | loop condition => simp [hi, Instruction.isAtomic] at h
  | call c => simp [hi, Instruction.isAtomic] at h
  | callInto target c => simp [hi, Instruction.isAtomic] at h
  | _ => rfl

theorem startStatement_branch (fetcher : Fetcher) (program : Program) {s : Statement}
    {condition : Condition} (hs : s.instruction = .branch condition) :
    startStatement fetcher program s = (do enterBlock; test condition) >>= fun holds =>
      Pure.pure (Flow.next,
        [Task.statements (if holds then s.body else s.alt), Task.leaveBlock]) := by
  rw [startStatement, hs, bind_assoc]

theorem startStatement_loop (fetcher : Fetcher) (program : Program) {s : Statement}
    {condition : Condition} (hs : s.instruction = .loop condition) :
    startStatement fetcher program s = enterBlock >>= fun _ =>
      Pure.pure (Flow.next, [Task.rounds condition s.body, Task.leaveBlock]) := by
  rw [startStatement, hs]

def afterCall (s : Statement) (c : Call) (m : Machine) : Task :=
  match s.instruction with
  | .callInto target _ => .takeReturned target c.name m.returned.length
  | _ => .dropReturned m.returned.length

theorem startStatement_call (fetcher : Fetcher) (program : Program) {s : Statement} {c : Call}
    (hs : s.Calls c) (m : Machine) :
    startStatement fetcher program s m = (startCall program c >>= fun started =>
      Pure.pure (Flow.next, callTasks started ++ [afterCall s c m])) m := by
  rcases hs with hi | ⟨target, hi⟩
  · rw [startStatement, afterCall, hi]
    rfl
  · rw [startStatement, afterCall, hi]
    rfl

section Statements

variable {s : Statement} {rest : List Statement} {tasks : List Task} {m : Machine} {fuel : Nat}

/-- Beginning a statement is one step, which leads to what the statement has left to do. -/
theorem arrives_start (rest : List Statement) (tasks : List Task) {x : Run α}
    {g : α → Flow × List Task} {n : Machine}
    (h : startStatement fetcher program s (begun s m) = (x >>= fun a => Pure.pure (g a)) n) :
    Arrives fetcher program ⟨.next, .statements (s :: rest) :: tasks, m⟩
      (fun a => ((g a).1, (g a).2 ++ .statements rest :: tasks)) (x n) := by
  have htask : doTask fetcher program .next (.statements (s :: rest)) m =
      (x >>= fun a => Pure.pure ((g a).1, (g a).2 ++ [.statements rest])) n := by
    rw [doTask_statements, bind_apply, h, bind_apply, bind_apply]
    cases x n <;> rfl
  have hstep := @Arrives.task _ _ _ _ _ tasks _ _ _ _ htask
  simpa only [List.append_assoc, List.singleton_append] using hstep

theorem arrives_of_isAtomic (h : s.instruction.isAtomic = true) :
    Arrives fetcher program ⟨.next, .statements (s :: rest) :: tasks, m⟩
      (fun flow => (flow, .statements rest :: tasks))
      (perform fetcher program exec fuel s (begun s m)) := by
  refine arrives_start rest tasks (g := fun flow => (flow, [])) ?_
  rw [startStatement_of_isAtomic h exec fuel]

theorem arrives_branch (hexec : Executes fetcher program exec) {condition : Condition}
    (hs : s.instruction = .branch condition) :
    Arrives fetcher program ⟨.next, .statements (s :: rest) :: tasks, m⟩
      (fun flow => (flow, .statements rest :: tasks))
      (branch exec condition s.body s.alt (begun s m)) := by
  have hbranch : branch exec condition s.body s.alt =
      ((do enterBlock; test condition) >>= fun holds =>
        block exec (if holds then s.body else s.alt) >>= fun flow => do
          leaveBlock
          pure flow) := by
    simp only [branch, nested, bind_assoc]
  rw [hbranch]
  have hstart := congrFun (startStatement_branch fetcher program hs) (begun s m)
  refine (arrives_start rest tasks hstart).bind fun holds m₁ _ => ?_
  refine (arrives_block hexec _ _ m₁).bind fun flow m₂ _ => ?_
  exact arrives_leaveBlock flow _ m₂

theorem arrives_loop (hexec : Executes fetcher program exec) {condition : Condition}
    (hs : s.instruction = .loop condition) :
    Arrives fetcher program ⟨.next, .statements (s :: rest) :: tasks, m⟩
      (fun flow => (flow, .statements rest :: tasks))
      (loop exec fuel condition s.body (begun s m)) := by
  have hstart := congrFun (startStatement_loop fetcher program hs) (begun s m)
  refine (arrives_start rest tasks hstart).bind fun _ m₁ _ => ?_
  refine (arrives_rounds hexec condition s.body _ fuel m₁).bind fun flow m₂ _ => ?_
  exact arrives_leaveBlock flow _ m₂

/-- A call is begun, finished and followed by what is done with the returned values. -/
theorem arrives_call (hexec : Executes fetcher program exec) {c : Call} (hs : s.Calls c)
    {x : Run Unit} (hx : ∀ n, doTask fetcher program .next (afterCall s c (begun s m)) n =
      (x >>= fun _ => Pure.pure (Flow.next, [])) n) :
    Arrives fetcher program ⟨.next, .statements (s :: rest) :: tasks, m⟩
      (fun flow => (flow, .statements rest :: tasks))
      ((do call program exec c; x; pure Flow.next : Run Flow) (begun s m)) := by
  rw [call_eq, bind_assoc]
  have hstart := startStatement_call fetcher program hs (begun s m)
  refine (arrives_start rest tasks hstart).bind fun started m₁ _ => ?_
  rw [List.append_assoc]
  refine (arrives_finishCall hexec started _ m₁).bind fun _ m₂ _ => ?_
  exact (Arrives.task (hx m₂)).bind fun _ _ _ => Arrives.pure .refl

end Statements

theorem executes_execute (fetcher : Fetcher) (program : Program) (fuel : Nat) :
    Executes fetcher program (execute fetcher program fuel) := by
  induction fuel with
  | zero => exact fun s rest tasks m => ⟨_, .refl, rfl⟩
  | succ fuel ih =>
    intro s rest tasks m
    have hmachine : Run.machine (begun s m) = .done (begun s m) (begun s m) := rfl
    have hexecute : execute fetcher program (fuel + 1) s m =
        locating s.location (perform fetcher program (execute fetcher program fuel) fuel s)
          (begun s m) := rfl
    rw [hexecute]
    apply Arrives.locating
    by_cases hatomic : s.instruction.isAtomic = true
    · exact arrives_of_isAtomic hatomic
    · unfold perform
      cases hi : s.instruction with
      | branch condition => exact arrives_branch ih hi
      | loop condition => exact arrives_loop ih hi
      | call c =>
        dsimp only
        rw [andNext, callAndDrop, bind_assoc, bind_of_done hmachine, bind_assoc]
        refine arrives_call ih (.inl hi) fun n => ?_
        rw [afterCall, hi]
        rfl
      | callInto target c =>
        dsimp only
        rw [andNext, callInto_eq, bind_assoc, bind_of_done hmachine, bind_assoc]
        refine arrives_call ih (.inr ⟨target, hi⟩) fun n => ?_
        rw [afterCall, hi]
        rfl
      | _ => simp [hi, Instruction.isAtomic] at hatomic

theorem arrives_enterMain (fetcher : Fetcher) {main : Statement}
    (hmain : program.function? entryFunction = some main) (m : Machine) : Arrives fetcher program (start m)
      (fun _ => (.next, [.statements main.body, .leaveMain main.location]))
      (enterMain program m) := by
  have htask : doTask fetcher program .next .run m = (enterMain program >>= fun _ =>
      Pure.pure (Flow.next, [Task.statements main.body, Task.leaveMain main.location])) m := by
    rw [doTask, hmain]
  exact Arrives.task htask

/-- However a run ends, steps lead from its first moment to its last state. -/
theorem arrives_run (fetcher : Fetcher) (program : Program) (fuel : Nat) (m : Machine) :
    Arrives fetcher program (start m) (fun _ => (.next, [])) (program.run fetcher fuel m) := by
  unfold Program.run
  cases hmain : program.function? entryFunction with
  | none =>
    have htask : doTask fetcher program .next .run m =
        ((raise (.undeclaredFunction entryFunction) : Run Unit) >>= fun _ =>
          Pure.pure (Flow.next, [])) m := by
      rw [doTask, hmain]
      rfl
    exact Arrives.task htask
  | some main =>
    refine (arrives_enterMain fetcher hmain m).bind fun _ m₁ _ => ?_
    refine (arrives_block (executes_execute fetcher program fuel) _ _ m₁).bind fun flow m₂ _ => ?_
    have hleave : doTask fetcher program flow (.leaveMain main.location) m₂ =
        (leaveMain main.location >>= fun _ => Pure.pure (Flow.next, [])) m₂ := by
      cases flow <;> rfl
    exact Arrives.task hleave

/-- The last state of a run is that of a moment, after which nothing is left if the run finishes. -/
theorem exists_last (fetcher : Fetcher) (program : Program) (fuel : Nat) (m : Machine) :
    ∃ d, Reaches fetcher program (start m) d ∧ d.machine = (program.run fetcher fuel m).machine ∧
      ((program.run fetcher fuel m).isFinished = true → d.tasks = []) := by
  have hrun := arrives_run fetcher program fuel m
  cases hend : program.run fetcher fuel m with
  | done a m' =>
    rw [hend] at hrun
    exact ⟨_, hrun, rfl, fun _ => rfl⟩
  | failed fault m' =>
    rw [hend] at hrun
    obtain ⟨flow, hrun⟩ := hrun
    exact ⟨_, hrun, rfl, fun _ => rfl⟩
  | unfinished m' =>
    rw [hend] at hrun
    obtain ⟨d, hrun, hmachine⟩ := hrun
    exact ⟨d, hrun, hmachine, nofun⟩

/-- A moment with nothing left to do comes after all others. -/
theorem reaches_of_ended {c d e : Moment} (hended : d.tasks = [])
    (hd : Reaches fetcher program c d) (he : Reaches fetcher program c e) :
    Reaches fetcher program e d := by
  have hunique : Relator.RightUnique fun c d : Moment => c.next fetcher program = some d :=
    fun _ _ _ hnext hnext' => Option.some.inj (hnext.symm.trans hnext')
  rcases Relation.ReflTransGen.total_of_right_unique hunique hd he with hafter | hbefore
  · rcases hafter.cases_head with rfl | ⟨f, hnext, -⟩
    · exact .refl
    · rw [next, hended] at hnext
      cases hnext
  · exact hbefore

def advance (fetcher : Fetcher) (program : Program) (c : Moment) : Moment :=
  (c.next fetcher program).getD c

theorem reaches_advance (c : Moment) : Reaches fetcher program c (c.advance fetcher program) := by
  unfold advance
  cases hnext : c.next fetcher program with
  | none => exact .refl
  | some d => exact .single hnext

theorem reaches_iterate_advance (count : Nat) (c : Moment) :
    Reaches fetcher program c ((advance fetcher program)^[count] c) := by
  induction count generalizing c with
  | zero => exact .refl
  | succ count ih => exact (reaches_advance c).trans (ih _)

theorem startCall_of_enters {c : Call} {function : Statement} {m m₁ : Machine}
    (h : Enters program c m function m₁) :
    startCall program c m = .done (some (function.body, m.returns)) m₁ := by
  obtain @⟨args, params, hargs, hbuiltin, hsignature, hfunction, hcount, hdepth, hopen⟩ := h
  have hget : m.builtins.get? c.name = none := by
    simpa [Machine.isBuiltin, Table.contains] using hbuiltin
  have hmachine : Run.machine m = .done m m := rfl
  have hparams : lift (m.store.signature c.name) m = .done params m := by
    rw [hsignature]
    rfl
  rw [startCall, bind_of_done hargs, bind_of_done hmachine, hget]
  dsimp only
  rw [startFunction, bind_of_done hmachine, bind_of_done hparams, hfunction]
  dsimp only
  rw [if_neg (by simp [hcount]), if_neg (Nat.not_le.2 hdepth), bind_of_done hopen]
  rfl

variable {t : Statement} {n : Machine}

def ReachesBegin (fetcher : Fetcher) (program : Program) (t : Statement) (n : Machine)
    (c : Moment) : Prop :=
  ∃ rest tasks, Reaches fetcher program c ⟨.next, .statements (t :: rest) :: tasks, n⟩

theorem ReachesBegin.of_reaches {c d : Moment} (hd : Reaches fetcher program c d)
    (h : ReachesBegin fetcher program t n d) : ReachesBegin fetcher program t n c := by
  obtain ⟨rest, tasks, hrest⟩ := h
  exact ⟨rest, tasks, hd.trans hrest⟩

theorem reaches_of_test {condition : Condition} {body : List Statement} {m m₁ : Machine}
    (tasks : List Task) (h : test condition m = .done true m₁) :
    Reaches fetcher program ⟨.next, .rounds condition body :: tasks, m⟩
      ⟨.next, .statements body :: .rounds condition body :: tasks, m₁⟩ := by
  have htest : doTask fetcher program .next (.rounds condition body) m =
      (test condition >>= fun again => Pure.pure (Flow.next,
        if again then [.statements body, .rounds condition body] else [])) m := rfl
  exact (Arrives.task htest).of_done h

mutual

theorem reachesBegin_of_begins {s : Statement} {m : Machine} (rest : List Statement)
    (tasks : List Task) : Begins fetcher program t n s m →
      ReachesBegin fetcher program t n ⟨.next, .statements (s :: rest) :: tasks, m⟩
  | .self => ⟨rest, tasks, .refl⟩
  | .branch hi htest hbody => by
    have hstart := congrFun (startStatement_branch fetcher program hi) (begun s m)
    have hstarted := (arrives_start rest tasks hstart).of_done htest
    exact .of_reaches hstarted (reachesBegin_of_blockBegins _ hbody)
  | .loop hi henter hrounds => by
    have hstart := congrFun (startStatement_loop fetcher program hi) (begun s m)
    have hstarted := (arrives_start rest tasks hstart).of_done henter
    exact .of_reaches hstarted (reachesBegin_of_loopBegins _ hrounds)
  | .call hcalls hargs hbuiltin hsignature hfunction hcount hdepth hopen hbody => by
    have hsame := (makes_resolveAll _).eq_of_done hargs
    subst hsame
    have henters := Enters.intro hargs hbuiltin hsignature hfunction hcount hdepth hopen
    have hstart := startStatement_call fetcher program hcalls (begun s m)
    have hstarted := (arrives_start rest tasks hstart).of_done (startCall_of_enters henters)
    exact .of_reaches hstarted (reachesBegin_of_blockBegins _ hbody)

theorem reachesBegin_of_blockBegins {statements : List Statement} {m : Machine}
    (tasks : List Task) : BlockBegins fetcher program t n statements m →
      ReachesBegin fetcher program t n ⟨.next, .statements statements :: tasks, m⟩
  | .head hs => reachesBegin_of_begins _ tasks hs
  | .tail hdone hrest => by
    refine .of_reaches ?_ (reachesBegin_of_blockBegins tasks hrest)
    exact (executes_execute fetcher program _ _ _ tasks m).of_done hdone

theorem reachesBegin_of_loopBegins {condition : Condition} {body : List Statement} {m : Machine}
    (tasks : List Task) : LoopBegins fetcher program t n condition body m →
      ReachesBegin fetcher program t n ⟨.next, .rounds condition body :: tasks, m⟩
  | .inside htest hbody =>
    .of_reaches (reaches_of_test tasks htest) (reachesBegin_of_blockBegins _ hbody)
  | .again htest hround hrounds => by
    have hexec := executes_execute fetcher program
    have hran := (arrives_block (hexec _) body (.rounds condition body :: tasks) _).of_done hround
    refine .of_reaches ((reaches_of_test tasks htest).trans hran) ?_
    exact reachesBegin_of_loopBegins tasks hrounds

end

/-- Every state in which a statement of a run begins is the state of a moment. -/
theorem reachesBegin_of_runBegins {m : Machine} (h : RunBegins fetcher program m t n) :
    ReachesBegin fetcher program t n (start m) := by
  obtain ⟨main, m₁, hmain, henter, hbody⟩ := h
  have hentered := (arrives_enterMain fetcher hmain m).of_done henter
  exact .of_reaches hentered (reachesBegin_of_blockBegins _ hbody)

end Moment

end ApiScript
