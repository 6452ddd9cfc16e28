import ApiScript.Proofs.Ledger

/-!
# Unreachable code

A `return` leaves all blocks that are open in its function. In each of them it warns of the
statement that comes next, if there is one: first in its own block, then in the blocks around it.
So a `return` warns once or never exactly if no block around its own goes on after the statement
that holds it.
-/
namespace ApiScript

open Run

/-- The statements that come next in the open blocks, the innermost first, up to the end of the
function at hand. -/
def comingUp : List Task → List Statement
  | .statements rest :: tasks => rest.head?.toList ++ comingUp tasks
  | .rounds _ _ :: tasks => comingUp tasks
  | .leaveBlock :: tasks => comingUp tasks
  | _ => []

/-- With warnings on, those of some statements that the function at hand does not reach. -/
def Machine.noticed (m : Machine) (statements : List Statement) : List (String × Location) :=
  if m.modes.warns then statements.map fun s => (m.scope, s.location) else []

namespace Moment

def outstanding (c : Moment) : List (String × Location) :=
  match c.flow with
  | .next => []
  | .leave => c.machine.noticed (comingUp c.tasks)

def turns (fetcher : Fetcher) (program : Program) (c : Moment) : Bool :=
  c.flow == .next && (c.next fetcher program).any fun d => d.flow == .leave

/-- The statement that follows in its block the one that begins at the moment. -/
def sibling? (c : Moment) : Option Statement :=
  match c.tasks with
  | .statements (_ :: rest) :: _ => rest.head?
  | _ => none

def promised (fetcher : Fetcher) (program : Program) (c : Moment) : List (String × Location) :=
  if c.turns fetcher program then c.machine.noticed c.sibling?.toList else []

/-- The warnings that a `return` at the moment causes: of the statement that follows it, and of
those that come next in the blocks around. -/
def caused (fetcher : Fetcher) (program : Program) (c : Moment) : List (String × Location) :=
  if c.turns fetcher program then
    c.machine.noticed (c.sibling?.toList ++ comingUp c.tasks.tail)
  else []

variable {fetcher : Fetcher} {program : Program} {c d : Moment} {past : List Moment}

theorem turns_eq_true_iff : c.turns fetcher program = true ↔
    c.flow = .next ∧ ∃ d, c.next fetcher program = some d ∧ d.flow = .leave := by
  simp [turns, Option.any_eq_true]

abbrev SameVoice (m m' : Machine) : Prop := (m'.modes, m'.scope) = (m.modes, m.scope)

theorem sameVoice_leave (operand : Option Operand) : Makes SameVoice (leave operand) := by
  have hpush (value : Value) :
      Makes SameVoice (Run.modify fun m => { m with returned := value :: m.returned }) :=
    .modify fun _ => rfl
  cases operand with
  | none => exact .pure _
  | some operand =>
    refine (makes_resolve operand).bind fun value => Makes.machine.bind fun m => ?_
    cases m.returns with
    | none => exact hpush value
    | some kind =>
      dsimp only
      split
      · exact hpush value
      · exact .raise _

theorem sameVoice_warnUnreachable (rest : List Statement) :
    Makes SameVoice (warnUnreachable rest) := by
  cases rest with
  | nil => exact .pure _
  | cons next rest =>
    refine Makes.bind (.modify fun _ => rfl) fun _ => Makes.machine.bind fun _ => ?_
    refine .modify fun m => ?_
    split
    · rfl
    · rfl

theorem noticed_congr {m m' : Machine} (h : SameVoice m m') : m'.noticed = m.noticed := by
  obtain ⟨hmodes, hscope⟩ := Prod.mk.inj h
  funext statements
  rw [Machine.noticed, Machine.noticed, hmodes, hscope]

theorem noticed_nil (m : Machine) : m.noticed [] = [] := by
  unfold Machine.noticed
  split
  · rfl
  · rfl

theorem noticed_append (m : Machine) (first second : List Statement) :
    m.noticed (first ++ second) = m.noticed first ++ m.noticed second := by
  unfold Machine.noticed
  split
  · exact List.map_append
  · rfl

theorem unreachable_warnUnreachable (rest : List Statement) (m : Machine) :
    (warnUnreachable rest m).machine.unreachable =
      m.unreachable ++ m.noticed rest.head?.toList := by
  cases rest with
  | nil =>
    have hsame : (warnUnreachable [] m).machine = m := rfl
    rw [hsame, List.head?_nil, Option.toList_none, noticed_nil, List.append_nil]
  | cons next rest =>
    have hledger := ledger_warnUnreachable (fun _ _ => {}) (next :: rest) [] m
    refine (congrArg Ledger.unreachable hledger).trans ?_
    unfold deed? Machine.noticed
    dsimp only
    split
    · rfl
    · exact (List.append_nil _).symm

/-- Only a `return` turns control, and what comes after it is still to be passed. -/
theorem exists_leave_of_turn (hc : c.flow = .next) (h : c.next fetcher program = some d)
    (hd : d.flow = .leave) :
    ∃ s rest outer operand, c.tasks = .statements (s :: rest) :: outer ∧
      s.instruction = .leave operand ∧ d.tasks = .statements rest :: outer ∧
      SameVoice c.machine d.machine ∧ c.Succeeds fetcher program := by
  rcases next_cases h with ⟨task, outer, tasks, htasks, hdtasks, hdo⟩ | ⟨hflow, -, -⟩
  · have hfollows := follows_of_doTask hdo
    rw [hc, hd] at hfollows
    cases hfollows with
    | @leave s rest operand hs =>
      have hstatement : c.statement? = some s := by rw [statement?, hc, htasks]
      have hatomic : s.instruction.isAtomic = true := by rw [hs]; rfl
      refine ⟨s, rest, outer, operand, htasks, hs, hdtasks, ?_, ⟨_, _, _, _, htasks, hdo⟩⟩
      have hmachine := machine_of_next hstatement hatomic h
      rw [perform, hs] at hmachine
      rw [hmachine]
      exact ((sameVoice_leave operand).bind fun _ => .pure _).unchanged (begun s c.machine)
  · rw [hc, hd] at hflow
    cases hflow

theorem not_calls_of_leave {s : Statement} {operand : Option Operand} {call : Call}
    (hs : s.instruction = .leave operand) : ¬ s.Calls call := by
  rintro (hi | ⟨target, hi⟩)
  · rw [hs] at hi
    cases hi
  · rw [hs] at hi
    cases hi

/-- Control is turned by the `return`s that end well. -/
theorem turns_iff : c.turns fetcher program = true ↔
    ∃ s operand, c.statement? = some s ∧ s.instruction = .leave operand ∧
      c.Succeeds fetcher program := by
  rw [turns_eq_true_iff]
  constructor
  · rintro ⟨hc, d, hnext, hd⟩
    obtain ⟨s, rest, outer, operand, htasks, hs, -, -, hsucceeds⟩ :=
      exists_leave_of_turn hc hnext hd
    exact ⟨s, operand, by rw [statement?, hc, htasks], hs, hsucceeds⟩
  · rintro ⟨s, operand, hstatement, hs, task, outer, ⟨flow, tasks⟩, m, htasks, hdo⟩
    obtain ⟨hc, rest, outer', htasks'⟩ := statement?_eq_some hstatement
    rw [htasks] at htasks'
    cases htasks'
    refine ⟨hc, _, next_of_done htasks hdo, ?_⟩
    have hfollows := follows_of_doTask hdo
    rw [hc] at hfollows
    cases hfollows with
    | atomic hatomic hleave => exact absurd hs (hleave operand)
    | leave _ => rfl
    | branch holds hi =>
      rw [hs] at hi
      cases hi
    | loop hi =>
      rw [hs] at hi
      cases hi
    | builtin hcalls _ => exact (not_calls_of_leave hs hcalls).elim
    | call _ hcalls _ _ => exact (not_calls_of_leave hs hcalls).elim
    | take htask => cases htask

theorem outstanding_of_next (h : c.flow = .next) : c.outstanding = [] := by
  rw [outstanding, h]

theorem outstanding_of_ended (h : c.tasks = []) : c.outstanding = [] := by
  unfold outstanding
  split
  · rfl
  · rw [h]
    exact noticed_nil c.machine

/-- Leaving a function, no warning is left to come. -/
theorem outstanding_of_follows {task : Task} {outer : List Task}
    (htasks : c.tasks = task :: outer) (h : c.next fetcher program = some d)
    (hnext : ∀ flow tasks, Follows program c.flow task flow tasks → flow = .next) :
    d.outstanding = [] := by
  rcases next_cases h with ⟨task', outer', tasks, htasks', -, hdo⟩ | ⟨-, hended, -⟩
  · rw [htasks] at htasks'
    cases htasks'
    exact outstanding_of_next (hnext _ _ (follows_of_doTask hdo))
  · exact outstanding_of_ended hended

/-- Passing the rest of a block, the warning of its next statement is no longer outstanding. -/
theorem unreachable_of_passing {rest : List Statement} {outer : List Task} {m : Machine}
    (h : next fetcher program ⟨.leave, .statements rest :: outer, m⟩ = some d) :
    d.machine.unreachable ++ d.outstanding =
      m.unreachable ++ outstanding ⟨.leave, .statements rest :: outer, m⟩ := by
  obtain ⟨_, m₁, hwarn⟩ := succeeds_warnUnreachable rest m
  have hvoice : SameVoice m m₁ := by
    have hm := (sameVoice_warnUnreachable rest).unchanged m
    rwa [hwarn] at hm
  have hpassed : m₁.unreachable = m.unreachable ++ m.noticed rest.head?.toList := by
    have hm := unreachable_warnUnreachable rest m
    rwa [hwarn] at hm
  have hdone : doTask fetcher program .leave (.statements rest) m = .done (.leave, []) m₁ := by
    rw [doTask, bind_of_done hwarn]
    rfl
  rw [next_of_done rfl hdone] at h
  cases h
  change m₁.unreachable ++ m₁.noticed (comingUp outer) =
    m.unreachable ++ m.noticed (rest.head?.toList ++ comingUp outer)
  rw [noticed_congr hvoice, noticed_append, hpassed, List.append_assoc]

/-- The end of a block forgets its names, and neither warns nor changes what is to come. -/
theorem unreachable_of_leaveBlock {outer : List Task} {m : Machine}
    (h : next fetcher program ⟨.leave, .leaveBlock :: outer, m⟩ = some d) :
    d.machine.unreachable ++ d.outstanding =
      m.unreachable ++ outstanding ⟨.leave, .leaveBlock :: outer, m⟩ := by
  have hvoice : SameVoice m (purgeScope { m with depth := m.depth - 1 }) := by
    unfold purgeScope
    split
    · rfl
    · rfl
  have hkept : (purgeScope { m with depth := m.depth - 1 }).unreachable = m.unreachable :=
    congrArg Ledger.unreachable (ledger_purgeScope { m with depth := m.depth - 1 })
  cases h
  change (purgeScope { m with depth := m.depth - 1 }).unreachable ++
      (purgeScope { m with depth := m.depth - 1 }).noticed (comingUp outer) =
    m.unreachable ++ m.noticed (comingUp outer)
  rw [noticed_congr hvoice, hkept]

/-- On the way out of a function, a step warns of the statement that it passes. -/
theorem unreachable_of_leaving (hc : Standing c.flow c.tasks) (hflow : c.flow = .leave)
    (h : c.next fetcher program = some d) :
    d.machine.unreachable ++ d.outstanding = c.machine.unreachable ++ c.outstanding := by
  have hledger := congrArg Ledger.unreachable (ledger_of_next h)
  obtain ⟨flow, tasks, m⟩ := c
  cases hflow
  cases hc with
  | ended _ => cases h
  | inside hinside =>
    cases hinside with
    | main location =>
      have houtstanding : d.outstanding = [] := by
        refine outstanding_of_follows rfl h fun flow tasks hfollows => ?_
        cases hfollows with
        | take htask => cases htask
        | leaveMain => rfl
      have hnone : outstanding ⟨.leave, [.leaveMain location], m⟩ = [] := noticed_nil _
      rw [houtstanding, hnone]
      exact congrArg (· ++ []) hledger
    | @function returns task rest htask hrest =>
      have houtstanding : d.outstanding = [] := by
        refine outstanding_of_follows rfl h fun flow tasks hfollows => ?_
        cases hfollows with
        | leaveFunction => rfl
        | take htask => cases htask
      have hnone : outstanding ⟨.leave, .leaveFunction returns :: task :: rest, m⟩ = [] :=
        noticed_nil _
      rw [houtstanding, hnone]
      exact congrArg (· ++ []) hledger
    | statements hrest => exact unreachable_of_passing h
    | rounds hrest =>
      cases h
      rfl
    | block hrest => exact unreachable_of_leaveBlock h

/-- While control goes on, no warning of unreachable code comes. -/
theorem unreachable_of_going_on (hflow : c.flow = .next) (h : c.next fetcher program = some d) :
    d.machine.unreachable = c.machine.unreachable := by
  have hledger := ledger_of_next h
  cases hs : c.statement? with
  | none =>
    rcases deed?_cases fetcher hs with ⟨_, _, _, hleave, -, -⟩ | ⟨_, _, -, hdeed⟩ | hdeed
    · rw [hflow] at hleave
      cases hleave
    · rw [hdeed] at hledger
      exact congrArg Ledger.unreachable hledger
    · rw [hdeed] at hledger
      exact congrArg Ledger.unreachable hledger
  | some s =>
    rw [deed?_of_statement? fetcher hs] at hledger
    refine (congrArg Ledger.unreachable hledger).trans ?_
    cases hdeed : c.machine.deed? fetcher s.instruction with
    | none => rfl
    | some deed =>
      generalize s.instruction = i at hdeed
      cases Machine.does_of_deed? hdeed with
      | registers hresolved hid => rfl
      | drops hid => rfl
      | fetches hrequest => rfl

theorem caused_of_not_turns (h : c.turns fetcher program = false) :
    c.caused fetcher program = [] := by
  rw [caused, h]
  rfl

/-- A step adds the warnings that it causes to those that have come or are still to come. -/
theorem unreachable_of_next (hc : Standing c.flow c.tasks) (h : c.next fetcher program = some d) :
    d.machine.unreachable ++ d.outstanding =
      c.machine.unreachable ++ c.outstanding ++ c.caused fetcher program := by
  cases hflow : c.flow with
  | leave =>
    have hturns : c.turns fetcher program = false := by
      rw [turns, hflow]
      rfl
    rw [unreachable_of_leaving hc hflow h, caused_of_not_turns hturns, List.append_nil]
  | next =>
    have hsame : d.machine.unreachable = c.machine.unreachable := unreachable_of_going_on hflow h
    rw [hsame, outstanding_of_next hflow, List.append_nil]
    congr 1
    cases hd : d.flow with
    | next =>
      have hturns : c.turns fetcher program = false := by
        rw [turns, h, hflow]
        simp [hd]
      rw [outstanding_of_next hd, caused_of_not_turns hturns]
    | leave =>
      obtain ⟨s, rest, outer, operand, htasks, hs, hdtasks, hvoice, -⟩ :=
        exists_leave_of_turn hflow h hd
      have hturns : c.turns fetcher program = true := turns_eq_true_iff.2 ⟨hflow, d, h, hd⟩
      rw [outstanding, hd, caused, hturns, hdtasks, noticed_congr hvoice, sibling?, htasks]
      rfl

/-- Along a history, the warnings of unreachable code are those that its `return`s cause. -/
theorem History.unreachable {m : Machine} (h : History fetcher program (start m) past d) :
    d.machine.unreachable ++ d.outstanding =
      m.unreachable ++ past.flatMap (caused fetcher program) := by
  induction h with
  | nil => rfl
  | @snoc past d e hpast hnext ih =>
    rw [unreachable_of_next hpast.standing hnext, ih, List.flatMap_append, List.append_assoc,
      List.flatMap_singleton]

theorem length_promised_le (fetcher : Fetcher) (program : Program) (c : Moment) :
    (c.promised fetcher program).length ≤ (c.caused fetcher program).length := by
  unfold promised caused
  split
  · rw [noticed_append, List.length_append]
    exact Nat.le_add_right _ _
  · exact Nat.le_refl _

/-- A `return` causes what is promised if no block around its own goes on. -/
theorem caused_eq_promised_iff : c.caused fetcher program = c.promised fetcher program ↔
    (c.turns fetcher program = true → c.machine.modes.warns = true →
      comingUp c.tasks.tail = []) := by
  unfold caused promised
  by_cases hturns : c.turns fetcher program = true
  · rw [if_pos hturns, if_pos hturns, noticed_append, List.append_right_eq_self, Machine.noticed]
    by_cases hwarns : c.machine.modes.warns = true
    · simp [hturns, hwarns]
    · simp [hwarns]
  · simp [hturns]

/-- No moment causes fewer warnings than promised, so the sums agree only if all summands do. -/
theorem flatMap_caused_eq_iff (past : List Moment) :
    past.flatMap (caused fetcher program) = past.flatMap (promised fetcher program) ↔
      ∀ c ∈ past, c.caused fetcher program = c.promised fetcher program := by
  have hle (rest : List Moment) :
      (rest.flatMap (promised fetcher program)).length ≤
        (rest.flatMap (caused fetcher program)).length := by
    induction rest with
    | nil => exact Nat.le_refl _
    | cons c rest ih =>
      rw [List.flatMap_cons, List.flatMap_cons, List.length_append, List.length_append]
      exact Nat.add_le_add (length_promised_le fetcher program c) ih
  induction past with
  | nil => simp
  | cons c rest ih =>
    rw [List.flatMap_cons, List.flatMap_cons, List.forall_mem_cons]
    constructor
    · intro h
      have hlengths := congrArg List.length h
      rw [List.length_append, List.length_append] at hlengths
      have hlength : (c.caused fetcher program).length = (c.promised fetcher program).length := by
        have hfirst := length_promised_le fetcher program c
        have hothers := hle rest
        omega
      obtain ⟨hc, hrest⟩ := List.append_inj h hlength
      exact ⟨hc, ih.1 hrest⟩
    · rintro ⟨hc, hrest⟩
      rw [hc, ih.2 hrest]

end Moment

section Result

open Moment

/-- Control is turned by the `return`s that end well. The warnings of unreachable code along a run
are those that its `return`s cause: of the statement after the `return`, and of the statement that
comes next in each block around it, up to its function. They are one for each `return` with a
statement after it, and no others, exactly if with warnings on no block around a `return` goes
on. -/
theorem return_warnings_exact (fetcher : Fetcher) (program : Program) (m : Machine) :
    (∀ c : Moment, c.turns fetcher program = true ↔
      ∃ s operand, c.statement? = some s ∧ s.instruction = .leave operand ∧
        c.Succeeds fetcher program) ∧
    (∀ fuel, (program.run fetcher fuel m).isFinished = true →
      ∃ past d, History fetcher program (start m) past d ∧
        d.machine = (program.run fetcher fuel m).machine ∧ d.outstanding = []) ∧
    ∀ past d, History fetcher program (start m) past d →
      d.machine.unreachable ++ d.outstanding =
        m.unreachable ++ past.flatMap (caused fetcher program) ∧
      (d.machine.unreachable ++ d.outstanding =
          m.unreachable ++ past.flatMap (promised fetcher program) ↔
        ∀ c ∈ past, c.turns fetcher program = true → c.machine.modes.warns = true →
          comingUp c.tasks.tail = []) := by
  refine ⟨fun c => turns_iff, fun fuel hfinished => ?_, fun past d h => ?_⟩
  · obtain ⟨d, hd, hmachine, hended⟩ := exists_last fetcher program fuel m
    obtain ⟨past, hpast⟩ := exists_history hd
    exact ⟨past, d, hpast, hmachine, outstanding_of_ended (hended hfinished)⟩
  · have hcaused := h.unreachable
    refine ⟨hcaused, ?_⟩
    rw [hcaused, List.append_right_inj, flatMap_caused_eq_iff]
    simp only [caused_eq_promised_iff]

/-- A `return` in a loop in a branch, with a statement after each of them. -/
theorem deep_return_warns_three_times :
    let line (number : Nat) : Location := ⟨number, "deep.neb"⟩
    let fetcher : Fetcher := fun _ _ => {}
    let note (text : String) (number : Nat) : Statement :=
      .leaf (.print (.literal text)) (line number)
    let program : Program :=
      ⟨[⟨.define ⟨"Main", [], none⟩, line 1,
          [.leaf (.use .warns) (line 2), .leaf (.call ⟨"f", []⟩) (line 3), note "done" 4], []⟩,
        ⟨.define ⟨"f", [], none⟩, line 6,
          [⟨.branch ⟨true, .declared "x"⟩, line 7,
              [⟨.loop ⟨true, .declared "x"⟩, line 8,
                  [.leaf (.leave none) (line 9), note "a" 10], []⟩, note "b" 12], []⟩,
            note "c" 14], []⟩]⟩
    let m : Machine := { store := { signatures := .ofList [("Main", []), ("f", [])] } }
    let warnings := [("f", line 10), ("f", line 12), ("f", line 14)]
    ∃ past d, History fetcher program (start m) past d ∧
      d.machine = (program.run fetcher 9 m).machine ∧ d.machine.unreachable = warnings ∧
      past.flatMap (caused fetcher program) = warnings := by
  intro line fetcher note program m warnings
  have hfinished : (program.run fetcher 9 m).isFinished = true := by decide +kernel
  have hwarnings : (program.run fetcher 9 m).machine.unreachable = warnings := by decide +kernel
  obtain ⟨-, hruns, hlaw⟩ := return_warnings_exact fetcher program m
  obtain ⟨past, d, hpast, hmachine, houtstanding⟩ := hruns 9 hfinished
  obtain ⟨hcaused, -⟩ := hlaw past d hpast
  rw [houtstanding, List.append_nil, hmachine, hwarnings] at hcaused
  exact ⟨past, d, hpast, hmachine, hmachine ▸ hwarnings, hcaused.symm⟩

/-- A `return` that is alone in its branch is warned of all the same: the statement after the
branch is not reached. -/
theorem lone_return_warned_outside_its_branch :
    let assembled := ({} : Machine).assemble [("nested.neb",
      "def Main():\nuse warns\nvar x = 1\nif x\nreturn\nend\nprint 'after'\nend")]
    let program := assembled.1.toOption.getD ⟨[]⟩
    let fetcher : Fetcher := fun _ _ => {}
    let c := (advance fetcher program)^[4] (start assembled.2)
    c.turns fetcher program = true ∧ c.sibling?.isNone = true ∧
      c.promised fetcher program = [] ∧
      c.caused fetcher program = [("Main", ⟨7, "nested.neb"⟩)] ∧
      (program.run fetcher 9 assembled.2).machine.output =
        [(Warning.unreachableCode "Main").toLine ⟨7, "nested.neb"⟩] := by
  decide +kernel

end Result

end ApiScript
