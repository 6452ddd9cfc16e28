import ApiScript.Proofs.CallResult
import ApiScript.Proofs.Constants

/-!
# Histories

The moments of a run in their order, and the tasks that are left at each of them. A task that is
done puts a few others in its place, so the tasks that are left are those of the active functions,
the innermost first: its open blocks, then the way back to its caller, and at the bottom the end of
the entry function. All statements among them stand in the program.
-/
namespace ApiScript

open Run Statement

inductive Task.Takes : Task → Prop
  | drop (count : Nat) : Takes (.dropReturned count)
  | take (target name : String) (count : Nat) : Takes (.takeReturned target name count)

/-- The way that control takes after a task is done, and the tasks that are put in its place. -/
inductive Follows (program : Program) : Flow → Task → Flow → List Task → Prop
  | run {flow : Flow} {main : Statement} (hmain : program.function? entryFunction = some main) :
    Follows program flow .run .next [.statements main.body, .leaveMain main.location]
  | finished : Follows program .next (.statements []) .next []
  | atomic {s : Statement} {rest : List Statement} (hatomic : s.instruction.isAtomic = true)
    (hleave : ∀ operand, s.instruction ≠ .leave operand) :
    Follows program .next (.statements (s :: rest)) .next [.statements rest]
  | leave {s : Statement} {rest : List Statement} {operand : Option Operand}
    (hs : s.instruction = .leave operand) :
    Follows program .next (.statements (s :: rest)) .leave [.statements rest]
  | branch {s : Statement} {rest : List Statement} {condition : Condition} (holds : Bool)
    (hs : s.instruction = .branch condition) :
    Follows program .next (.statements (s :: rest)) .next
      [.statements (if holds then s.body else s.alt), .leaveBlock, .statements rest]
  | loop {s : Statement} {rest : List Statement} {condition : Condition}
    (hs : s.instruction = .loop condition) :
    Follows program .next (.statements (s :: rest)) .next
      [.rounds condition s.body, .leaveBlock, .statements rest]
  | builtin {s : Statement} {rest : List Statement} {call : Call} {task : Task}
    (hs : s.Calls call) (htask : task.Takes) :
    Follows program .next (.statements (s :: rest)) .next [task, .statements rest]
  | call {s function : Statement} {rest : List Statement} {call : Call} {task : Task}
    (returns : Option Kind) (hs : s.Calls call)
    (hfunction : program.function? call.name = some function) (htask : task.Takes) :
    Follows program .next (.statements (s :: rest)) .next
      [.statements function.body, .leaveFunction returns, task, .statements rest]
  | passed {rest : List Statement} : Follows program .leave (.statements rest) .leave []
  | again {condition : Condition} {body : List Statement} :
    Follows program .next (.rounds condition body) .next
      [.statements body, .rounds condition body]
  | ended {condition : Condition} {body : List Statement} :
    Follows program .next (.rounds condition body) .next []
  | broken {condition : Condition} {body : List Statement} :
    Follows program .leave (.rounds condition body) .leave []
  | leaveBlock {flow : Flow} : Follows program flow .leaveBlock flow []
  | leaveFunction {flow : Flow} {returns : Option Kind} :
    Follows program flow (.leaveFunction returns) .next []
  | take {flow : Flow} {task : Task} (htask : task.Takes) : Follows program flow task flow []
  | leaveMain {flow : Flow} {location : Location} :
    Follows program flow (.leaveMain location) .next []

section Follows

variable {fetcher : Fetcher} {program : Program} {s : Statement} {rest : List Statement}
  {flow flow' : Flow} {task : Task} {tasks : List Task} {m m' : Machine}

theorem Run.machine_map {α β : Type} (x : Run α) (f : α → β) (m : Machine) :
    ((x >>= fun a => pure (f a)) m).machine = (x m).machine := by
  rw [bind_apply]
  cases x m <;> rfl

theorem takes_afterCall (s : Statement) (c : Call) (m : Machine) :
    (Moment.afterCall s c m).Takes := by
  unfold Moment.afterCall
  split
  · exact .take _ _ _
  · exact .drop _

theorem startFunction_eq_done {name : String} {args : List Value}
    {started : Option (List Statement × Option Kind)}
    (h : startFunction program name args m = .done started m') :
    ∃ params function, m.store.signature name = .ok params ∧
      program.function? name = some function ∧ params.length = args.length ∧
      started = some (function.body, m.returns) ∧
      openFrame name params args (returnsOf function) m = .done () m' := by
  obtain ⟨_, m₁, hm, h⟩ := bind_eq_done h
  cases hm
  obtain ⟨params, m₂, hparams, h⟩ := bind_eq_done h
  obtain rfl := lift_eq_done hparams
  have hsignature : m₂.store.signature name = .ok params := by
    cases hfound : m₂.store.signature name with
    | ok found =>
      rw [hfound] at hparams
      cases hparams
      rfl
    | error cause =>
      rw [hfound] at hparams
      cases hparams
  cases hfunction : program.function? name with
  | none =>
    rw [hfunction] at h
    cases h
  | some function =>
    rw [hfunction] at h
    dsimp only at h
    split at h
    · cases h
    · next hcount =>
      split at h
      · cases h
      · obtain ⟨_, m₃, hopen, hpure⟩ := bind_eq_done h
        cases hpure
        exact ⟨params, function, hsignature, rfl, not_not.1 hcount, rfl, hopen⟩

/-- A call is that of a builtin, which has then been called, or enters a function. -/
theorem startCall_eq_done {c : Call} {started : Option (List Statement × Option Kind)}
    (h : startCall program c m = .done started m') :
    started = none ∧ m'.store = m.store ∨ m.isBuiltin c.name = false ∧
      ∃ args params function, m.store.signature c.name = .ok params ∧
        program.function? c.name = some function ∧ params.length = args.length ∧
        started = some (function.body, m.returns) ∧
        openFrame c.name params args (returnsOf function) m = .done () m' := by
  obtain ⟨args, m₁, hargs, hrest⟩ := bind_eq_done h
  obtain rfl := (makes_resolveAll c.args).eq_of_done hargs
  obtain ⟨_, m₂, hm, h⟩ := bind_eq_done hrest
  cases hm
  cases hbuiltin : m₁.builtins.get? c.name with
  | none =>
    rw [hbuiltin] at h
    have hfree : m₁.isBuiltin c.name = false := by
      rw [Machine.isBuiltin, Table.contains, hbuiltin]
      rfl
    exact .inr ⟨hfree, args, startFunction_eq_done h⟩
  | some builtin =>
    rw [hbuiltin] at h
    obtain ⟨result, m₃, hresult, h⟩ := bind_eq_done h
    have hstore := ((notes_builtin builtin args).notes hresult).1
    cases result with
    | none =>
      cases h
      exact .inl ⟨rfl, hstore⟩
    | some value =>
      cases h
      exact .inl ⟨rfl, hstore⟩

theorem follows_of_startStatement
    (h : startStatement fetcher program s m = .done (flow, tasks) m') (rest : List Statement) :
    Follows program .next (.statements (s :: rest)) flow (tasks ++ [.statements rest]) := by
  by_cases hatomic : s.instruction.isAtomic = true
  · rw [Moment.startStatement_of_isAtomic hatomic (fun _ => unfinished) 0] at h
    obtain ⟨_, m₁, hperform, hpure⟩ := bind_eq_done h
    cases hpure
    by_cases hleave : ∃ operand, s.instruction = .leave operand
    · obtain ⟨operand, hs⟩ := hleave
      unfold perform at hperform
      rw [hs] at hperform
      obtain ⟨_, m₂, -, hpure⟩ := bind_eq_done hperform
      cases hpure
      exact .leave hs
    · have hnot (operand : Option Operand) : s.instruction ≠ .leave operand :=
        fun hs => hleave ⟨operand, hs⟩
      obtain rfl := flow_of_perform hatomic hnot hperform
      exact .atomic hatomic hnot
  · have hcall {c : Call} (hs : s.Calls c) :
        Follows program .next (.statements (s :: rest)) flow (tasks ++ [.statements rest]) := by
      rw [Moment.startStatement_call fetcher program hs m] at h
      obtain ⟨started, m₁, hstart, hpure⟩ := bind_eq_done h
      cases hpure
      have htakes := takes_afterCall s c m
      rcases startCall_eq_done hstart with ⟨rfl, -⟩ | ⟨-, _, _, function, -, hfunction, -, rfl, -⟩
      · exact .builtin hs htakes
      · exact .call m.returns hs hfunction htakes
    cases hi : s.instruction with
    | branch condition =>
      rw [Moment.startStatement_branch fetcher program hi] at h
      obtain ⟨holds, m₁, -, hpure⟩ := bind_eq_done h
      cases hpure
      exact .branch holds hi
    | loop condition =>
      rw [Moment.startStatement_loop fetcher program hi] at h
      obtain ⟨_, m₁, -, hpure⟩ := bind_eq_done h
      cases hpure
      exact .loop hi
    | call c => exact hcall (.inl hi)
    | callInto target c => exact hcall (.inr ⟨target, hi⟩)
    | _ => simp [hi, Instruction.isAtomic] at hatomic

/-- What a task that is done puts in its place. -/
theorem follows_of_doTask (h : doTask fetcher program flow task m = .done (flow', tasks) m') :
    Follows program flow task flow' tasks := by
  cases task with
  | run =>
    unfold doTask at h
    cases hmain : program.function? entryFunction with
    | none =>
      rw [hmain] at h
      cases h
    | some main =>
      rw [hmain] at h
      cases h
      exact .run hmain
  | statements statements =>
    cases flow with
    | leave =>
      rw [doTask] at h
      obtain ⟨_, m₁, -, hpure⟩ := bind_eq_done h
      cases hpure
      exact .passed
    | next =>
      cases statements with
      | nil =>
        cases h
        exact .finished
      | cons s rest =>
        rw [Moment.doTask_statements] at h
        obtain ⟨⟨flow₁, inner⟩, m₁, hstart, hpure⟩ := bind_eq_done h
        cases hpure
        exact follows_of_startStatement hstart rest
  | rounds condition body =>
    cases flow with
    | leave =>
      cases h
      exact .broken
    | next =>
      obtain ⟨again, m₁, -, hpure⟩ := bind_eq_done h
      cases hpure
      cases again with
      | true => exact .again
      | false => exact .ended
  | leaveBlock =>
    have hdone : (flow', tasks) = (flow, []) := by
      cases flow <;> cases h <;> rfl
    cases hdone
    exact .leaveBlock
  | leaveFunction returns =>
    have hdone : (flow', tasks) = (.next, []) := by
      cases flow
      all_goals
        obtain ⟨_, m₁, -, h⟩ := bind_eq_done h
        obtain ⟨_, m₂, -, hpure⟩ := bind_eq_done h
        cases hpure
        rfl
    cases hdone
    exact .leaveFunction
  | dropReturned count =>
    have hdone : (flow', tasks) = (flow, []) := by
      cases flow <;> cases h <;> rfl
    cases hdone
    exact .take (.drop count)
  | takeReturned target name count =>
    have hdone : (flow', tasks) = (flow, []) := by
      cases flow
      all_goals
        obtain ⟨_, m₁, -, hpure⟩ := bind_eq_done h
        cases hpure
        rfl
    cases hdone
    exact .take (.take target name count)
  | leaveMain location =>
    have hdone : (flow', tasks) = (.next, []) := by
      cases flow
      all_goals
        obtain ⟨_, m₁, -, hpure⟩ := bind_eq_done h
        cases hpure
        rfl
    cases hdone
    exact .leaveMain

def Task.StandsIn (program : Program) : Task → Prop
  | .statements rest => ∀ s ∈ rest, s ∈ preorder program.statements
  | .rounds _ body => ∀ s ∈ body, s ∈ preorder program.statements
  | _ => True

theorem mem_preorder_of_function? {name : String} {function s : Statement}
    (h : program.function? name = some function) (hs : s ∈ function.body) :
    s ∈ preorder program.statements := by
  have hfunction : function ∈ preorder program.statements :=
    mem_preorder_self (List.mem_of_find?_eq_some h)
  exact mem_preorder_of_mem_children _ hfunction (List.mem_append_left _ hs)

theorem standsIn_of_takes {task : Task} (h : task.Takes) : Task.StandsIn program task := by
  cases h <;> trivial

theorem Task.StandsIn.follows {flow flow' : Flow} {task : Task} {tasks : List Task}
    (h : Task.StandsIn program task) (hfollows : Follows program flow task flow' tasks) :
    ∀ t ∈ tasks, Task.StandsIn program t := by
  have hrest {s : Statement} {rest : List Statement}
      (h : Task.StandsIn program (.statements (s :: rest))) :
      s ∈ preorder program.statements ∧ Task.StandsIn program (.statements rest) :=
    List.forall_mem_cons.1 h
  have hbody {s t : Statement} (hs : s ∈ preorder program.statements) (ht : t ∈ s.children) :
      t ∈ preorder program.statements := mem_preorder_of_mem_children _ hs ht
  cases hfollows with
  | run hmain =>
    simp only [List.forall_mem_cons]
    exact ⟨fun s hs => mem_preorder_of_function? hmain hs, trivial, List.forall_mem_nil _⟩
  | atomic hatomic hleave =>
    simp only [List.forall_mem_cons]
    exact ⟨(hrest h).2, List.forall_mem_nil _⟩
  | leave hs =>
    simp only [List.forall_mem_cons]
    exact ⟨(hrest h).2, List.forall_mem_nil _⟩
  | branch holds hs =>
    simp only [List.forall_mem_cons]
    exact ⟨fun t ht => hbody (hrest h).1 (mem_children_of_taken ht), trivial, (hrest h).2,
      List.forall_mem_nil _⟩
  | loop hs =>
    simp only [List.forall_mem_cons]
    exact ⟨fun t ht => hbody (hrest h).1 (List.mem_append_left _ ht), trivial, (hrest h).2,
      List.forall_mem_nil _⟩
  | builtin hs htask =>
    simp only [List.forall_mem_cons]
    exact ⟨standsIn_of_takes htask, (hrest h).2, List.forall_mem_nil _⟩
  | call returns hs hfunction htask =>
    simp only [List.forall_mem_cons]
    exact ⟨fun t ht => mem_preorder_of_function? hfunction ht, trivial, standsIn_of_takes htask,
      (hrest h).2, List.forall_mem_nil _⟩
  | again =>
    simp only [List.forall_mem_cons]
    exact ⟨h, h, List.forall_mem_nil _⟩
  | _ => exact List.forall_mem_nil _

end Follows

namespace Moment

variable {fetcher : Fetcher} {program : Program} {c d e : Moment} {past : List Moment}

def Succeeds (fetcher : Fetcher) (program : Program) (c : Moment) : Prop :=
  ∃ task rest result m, c.tasks = task :: rest ∧
    doTask fetcher program c.flow task c.machine = .done result m

/-- A step replaces the first task by those that follow it, or fails and drops all of them. -/
theorem next_cases (h : c.next fetcher program = some d) :
    (∃ task rest tasks, c.tasks = task :: rest ∧ d.tasks = tasks ++ rest ∧
      doTask fetcher program c.flow task c.machine = .done (d.flow, tasks) d.machine) ∨
    d.flow = c.flow ∧ d.tasks = [] ∧ ¬ c.Succeeds fetcher program := by
  unfold next at h
  split at h
  · cases h
  · next task rest htasks =>
    have hfails {o : Outcome (Flow × List Task)}
        (ho : doTask fetcher program c.flow task c.machine = o)
        (hnot : ∀ result m, o ≠ .done result m) : ¬ c.Succeeds fetcher program := by
      rintro ⟨task', rest', result, m, htasks', hdone⟩
      rw [htasks] at htasks'
      cases htasks'
      exact hnot result m (ho.symm.trans hdone)
    cases hdo : doTask fetcher program c.flow task c.machine with
    | done result m =>
      rw [hdo] at h
      cases h
      exact .inl ⟨task, rest, result.2, htasks, rfl, hdo⟩
    | failed fault m =>
      rw [hdo] at h
      cases h
      exact .inr ⟨rfl, rfl, hfails hdo nofun⟩
    | unfinished m =>
      rw [hdo] at h
      cases h
      exact .inr ⟨rfl, rfl, hfails hdo nofun⟩

theorem next_of_done {task : Task} {rest tasks : List Task} {flow : Flow} {m : Machine}
    (htasks : c.tasks = task :: rest)
    (h : doTask fetcher program c.flow task c.machine = .done (flow, tasks) m) :
    c.next fetcher program = some ⟨flow, tasks ++ rest, m⟩ := by
  rw [next, htasks]
  exact congrArg (fun o => some (after c.flow rest o)) h

theorem tasks_ne_nil_of_next (h : c.next fetcher program = some d) : c.tasks ≠ [] := by
  intro hnil
  rw [next, hnil] at h
  cases h

/-- The moments that a run goes through on the way from one moment to another, the oldest first. -/
inductive History (fetcher : Fetcher) (program : Program) (c : Moment) :
    List Moment → Moment → Prop
  | nil : History fetcher program c [] c
  | snoc {past : List Moment} {d e : Moment} (h : History fetcher program c past d)
    (hnext : d.next fetcher program = some e) : History fetcher program c (past ++ [d]) e

theorem exists_history (h : Reaches fetcher program c d) :
    ∃ past, History fetcher program c past d := by
  induction h with
  | refl => exact ⟨[], .nil⟩
  | tail _ hnext ih =>
    obtain ⟨past, hpast⟩ := ih
    exact ⟨_, hpast.snoc hnext⟩

/-- The way out of the function at hand: its open blocks, then the way back to its caller. -/
inductive Inside : List Task → Prop
  | main (location : Location) : Inside [.leaveMain location]
  | function (returns : Option Kind) {task : Task} {rest : List Task} (htask : task.Takes)
    (h : Inside rest) : Inside (.leaveFunction returns :: task :: rest)
  | statements (statements : List Statement) {rest : List Task} (h : Inside rest) :
    Inside (.statements statements :: rest)
  | rounds (condition : Condition) (body : List Statement) {rest : List Task} (h : Inside rest) :
    Inside (.rounds condition body :: rest)
  | block {rest : List Task} (h : Inside rest) : Inside (.leaveBlock :: rest)

inductive Standing : Flow → List Task → Prop
  | start : Standing .next [.run]
  | inside {flow : Flow} {tasks : List Task} (h : Inside tasks) : Standing flow tasks
  | taking {task : Task} {rest : List Task} (htask : task.Takes) (h : Inside rest) :
    Standing .next (task :: rest)
  | ended (flow : Flow) : Standing flow []

theorem Inside.ne_run {task : Task} {rest : List Task} (h : Inside (task :: rest)) :
    task ≠ .run := by
  rintro rfl
  cases h

theorem Inside.not_takes {task : Task} {rest : List Task} (h : Inside (task :: rest)) :
    ¬ task.Takes := by
  intro htask
  cases htask with
  | drop count => cases h
  | take target name count => cases h

theorem Inside.follows {flow flow' : Flow} {task : Task} {rest tasks : List Task}
    (h : Inside (task :: rest)) (hfollows : Follows program flow task flow' tasks) :
    Standing flow' (tasks ++ rest) := by
  cases hfollows with
  | run hmain => exact absurd rfl h.ne_run
  | finished =>
    cases h with
    | statements _ hrest => exact .inside hrest
  | atomic hatomic hleave =>
    cases h with
    | statements _ hrest => exact .inside (.statements _ hrest)
  | leave hs =>
    cases h with
    | statements _ hrest => exact .inside (.statements _ hrest)
  | branch holds hs =>
    cases h with
    | statements _ hrest => exact .inside (.statements _ (.block (.statements _ hrest)))
  | loop hs =>
    cases h with
    | statements _ hrest => exact .inside (.rounds _ _ (.block (.statements _ hrest)))
  | builtin hs htask =>
    cases h with
    | statements _ hrest => exact .taking htask (.statements _ hrest)
  | call returns hs hfunction htask =>
    cases h with
    | statements _ hrest =>
      exact .inside (.statements _ (.function returns htask (.statements _ hrest)))
  | passed =>
    cases h with
    | statements _ hrest => exact .inside hrest
  | again =>
    cases h with
    | rounds _ _ hrest => exact .inside (.statements _ (.rounds _ _ hrest))
  | ended =>
    cases h with
    | rounds _ _ hrest => exact .inside hrest
  | broken =>
    cases h with
    | rounds _ _ hrest => exact .inside hrest
  | leaveBlock =>
    cases h with
    | block hrest => exact .inside hrest
  | leaveFunction =>
    cases h with
    | function returns htask hrest => exact .taking htask hrest
  | take htask => exact absurd htask h.not_takes
  | leaveMain =>
    cases h with
    | main location => exact .ended .next

theorem takes_follows {flow flow' : Flow} {task : Task} {tasks : List Task}
    (h : task.Takes) (hfollows : Follows program flow task flow' tasks) :
    flow' = flow ∧ tasks = [] := by
  cases hfollows with
  | take _ => exact ⟨rfl, rfl⟩
  | _ => cases h

theorem standing_of_next (hc : Standing c.flow c.tasks) (h : c.next fetcher program = some d) :
    Standing d.flow d.tasks := by
  rcases next_cases h with ⟨task, rest, tasks, htasks, hd, hdo⟩ | ⟨-, hended, -⟩
  · have hfollows := follows_of_doTask hdo
    rw [htasks] at hc
    rw [hd]
    generalize c.flow = flow at hc hfollows
    generalize d.flow = flow' at hfollows ⊢
    cases hc with
    | start =>
      cases hfollows with
      | run hmain => exact .inside (.statements _ (.main _))
      | take htask => cases htask
    | inside hinside => exact hinside.follows hfollows
    | taking htask hinside =>
      obtain ⟨hflow, rfl⟩ := takes_follows htask hfollows
      rw [hflow]
      exact .inside hinside
  · rw [hended]
    exact .ended _

theorem History.standing {m : Machine} (h : History fetcher program (start m) past d) :
    Standing d.flow d.tasks := by
  induction h with
  | nil => exact .start
  | snoc _ hnext ih => exact standing_of_next ih hnext

theorem History.standsIn {m : Machine} (h : History fetcher program (start m) past d) :
    ∀ t ∈ d.tasks, Task.StandsIn program t := by
  induction h with
  | nil => simp [start, Task.StandsIn]
  | snoc _ hnext ih =>
    rcases next_cases hnext with ⟨task, rest, tasks, htasks, hd, hdo⟩ | ⟨-, hended, -⟩
    · rw [htasks, List.forall_mem_cons] at ih
      rw [hd]
      intro t ht
      rcases List.mem_append.1 ht with ht | ht
      · exact ih.1.follows (follows_of_doTask hdo) t ht
      · exact ih.2 t ht
    · rw [hended]
      exact List.forall_mem_nil _

def statement? (c : Moment) : Option Statement :=
  match c.flow, c.tasks with
  | .next, .statements (s :: _) :: _ => some s
  | _, _ => none

theorem statement?_eq_some {s : Statement} (h : c.statement? = some s) :
    c.flow = .next ∧ ∃ rest tasks, c.tasks = .statements (s :: rest) :: tasks := by
  unfold statement? at h
  split at h
  · next s' rest tasks hflow htasks =>
    cases h
    exact ⟨hflow, rest, tasks, htasks⟩
  · cases h

/-- The step from a moment at which a statement begins starts the statement. -/
theorem machine_of_statement? {s : Statement} (hs : c.statement? = some s)
    (h : c.next fetcher program = some d) :
    d.machine = (startStatement fetcher program s (begun s c.machine)).machine := by
  obtain ⟨hflow, rest, tasks, htasks⟩ := statement?_eq_some hs
  rw [next, htasks, hflow] at h
  cases h
  rw [machine_after, doTask_statements, machine_map]

section Atomic

variable {s : Statement} (hs : c.statement? = some s) (hatomic : s.instruction.isAtomic = true)

include hs hatomic

theorem machine_of_next (h : c.next fetcher program = some d) :
    d.machine =
      (perform fetcher program (fun _ => unfinished) 0 s (begun s c.machine)).machine := by
  rw [machine_of_statement? hs h, startStatement_of_isAtomic hatomic (fun _ => unfinished) 0,
    machine_map]

theorem succeeds_iff_perform : c.Succeeds fetcher program ↔
    ∃ flow m, perform fetcher program (fun _ => unfinished) 0 s (begun s c.machine) =
      .done flow m := by
  obtain ⟨hflow, rest, tasks, htasks⟩ := statement?_eq_some hs
  have hdo : doTask fetcher program c.flow (.statements (s :: rest)) c.machine =
      (perform fetcher program (fun _ => unfinished) 0 s >>= fun flow =>
        pure (flow, [.statements rest])) (begun s c.machine) := by
    rw [hflow, doTask_statements, startStatement_of_isAtomic hatomic (fun _ => unfinished) 0,
      bind_assoc]
    rfl
  constructor
  · rintro ⟨task, rest', result, m, htasks', hdone⟩
    rw [htasks] at htasks'
    cases htasks'
    rw [hdo] at hdone
    obtain ⟨flow, m₁, hperform, -⟩ := bind_eq_done hdone
    exact ⟨flow, m₁, hperform⟩
  · rintro ⟨flow, m, hperform⟩
    refine ⟨_, _, (flow, [.statements rest]), m, htasks, ?_⟩
    rw [hdo, bind_of_done hperform]
    rfl

end Atomic

/-- A statement that begins during a run stands in the program. -/
theorem History.mem_preorder {m : Machine} {s : Statement}
    (h : History fetcher program (start m) past d) (hs : d.statement? = some s) :
    s ∈ preorder program.statements := by
  obtain ⟨-, rest, tasks, htasks⟩ := statement?_eq_some hs
  have hall := h.standsIn
  rw [htasks, List.forall_mem_cons] at hall
  exact hall.1 s List.mem_cons_self

/-- The history up to a moment of it. -/
theorem History.of_append {before after : List Moment}
    (h : History fetcher program c past d) (hpast : past = before ++ e :: after) :
    History fetcher program c before e ∧ e.tasks ≠ [] := by
  induction h generalizing after with
  | nil => simp at hpast
  | @snoc past f g hf hnext ih =>
    rcases List.eq_nil_or_concat after with rfl | ⟨after, last, rfl⟩
    · obtain ⟨rfl, hlast⟩ := List.append_inj' hpast rfl
      cases hlast
      exact ⟨hf, tasks_ne_nil_of_next hnext⟩
    · rw [List.concat_eq_append, ← List.cons_append, ← List.append_assoc] at hpast
      exact ih (List.append_inj' hpast rfl).1

/-- While something is left to do, all steps so far have ended well. -/
theorem History.succeeds (h : History fetcher program c past d) (hd : d.tasks ≠ []) :
    ∀ e ∈ past, e.Succeeds fetcher program := by
  induction h with
  | nil => exact List.forall_mem_nil _
  | @snoc past d e _ hnext ih =>
    rw [List.forall_mem_append, List.forall_mem_singleton]
    refine ⟨ih (tasks_ne_nil_of_next hnext), ?_⟩
    rcases next_cases hnext with ⟨task, rest, tasks, htasks, -, hdo⟩ | ⟨-, hended, -⟩
    · exact ⟨task, rest, _, _, htasks, hdo⟩
    · exact absurd hended hd

/-- A run that ends well has come to the end of its entry function, and leaves it. -/
theorem exists_history_of_run {fuel : Nat} {m m' : Machine}
    (h : program.run fetcher fuel m = .done () m') :
    ∃ main past flow n, program.function? entryFunction = some main ∧
      History fetcher program (start m) past ⟨flow, [.leaveMain main.location], n⟩ ∧
      leaveMain main.location n = .done () m' := by
  unfold Program.run at h
  cases hmain : program.function? entryFunction with
  | none =>
    rw [hmain] at h
    cases h
  | some main =>
    rw [hmain] at h
    obtain ⟨_, m₁, henter, h⟩ := bind_eq_done h
    obtain ⟨flow, n, hblock, hleave⟩ := bind_eq_done h
    have hentered := (arrives_enterMain fetcher hmain m).of_done henter
    have hexec := executes_execute fetcher program fuel
    have hran := (arrives_block hexec main.body [.leaveMain main.location] m₁).of_done hblock
    obtain ⟨past, hpast⟩ := exists_history (hentered.trans hran)
    exact ⟨main, past, flow, n, rfl, hpast, hleave⟩

end Moment

end ApiScript
