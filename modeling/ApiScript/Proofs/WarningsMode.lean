import ApiScript.Proofs.Begun
import ApiScript.Proofs.Overheard

/-!
# Warnings are diagnostics

A run with warnings asked for does what the same run does without them, and adds warnings to its
output. The one statement that could tell the two apart is a negated test for success before any
fetch was answered, so the runs are compared as long as no such test is made.
-/
namespace ApiScript

open Run

/-- A statement that begins in a state evaluates its condition in another one, as a branch does
once and a loop in each round. -/
inductive Tests (fetcher : Fetcher) (program : Program) (t : Statement) (n : Machine) :
    Condition → Machine → Prop
  | branch {c : Condition} : t.instruction = .branch c →
    Tests fetcher program t n c { begun t n with depth := n.depth + 1 }
  | loop {c : Condition} {m : Machine} : t.instruction = .loop c →
    Rounds fetcher program c t.body { begun t n with depth := n.depth + 1 } m →
      Tests fetcher program t n c m

def RunTests (fetcher : Fetcher) (program : Program) (m : Machine) (c : Condition) (n : Machine) :
    Prop :=
  ∃ t n₀, RunBegins fetcher program m t n₀ ∧ Tests fetcher program t n₀ c n

section Steady

variable (fetcher : Fetcher) (program : Program)

def TestsAnswered (begins : Statement → Machine → Prop) : Prop :=
  ∀ t n c m, begins t n → Tests fetcher program t n c m → Answered c m

def Steady (s : Statement) (m : Machine) : Prop :=
  TestsAnswered fetcher program fun t n => Begins fetcher program t n s m

def BlockSteady (statements : List Statement) (m : Machine) : Prop :=
  TestsAnswered fetcher program fun t n => BlockBegins fetcher program t n statements m

structure LoopSteady (c : Condition) (body : List Statement) (m : Machine) : Prop where
  rounds : ∀ n, Rounds fetcher program c body m n → Answered c n
  inside : TestsAnswered fetcher program fun t n => LoopBegins fetcher program t n c body m

end Steady

namespace Run

variable {fetcher : Fetcher} {program : Program} {fuel : Nat} {m₁ m₂ : Machine}

/-- With this fuel, steady statements do the same with warnings as without. -/
def Indifferent (fetcher : Fetcher) (program : Program) (fuel : Nat) : Prop :=
  ∀ s m₁ m₂, Overheard m₁ m₂ → Steady fetcher program s m₁ →
    Outcome.Agree Overheard Overheard (execute fetcher program fuel s m₁)
      (execute fetcher program fuel s m₂)

theorem agree_block (hexec : Indifferent fetcher program fuel) {statements : List Statement}
    (h : Overheard m₁ m₂) (hsteady : BlockSteady fetcher program statements m₁) :
    Outcome.Agree Overheard Overheard (block (execute fetcher program fuel) statements m₁)
      (block (execute fetcher program fuel) statements m₂) := by
  induction statements generalizing m₁ m₂ with
  | nil => exact .done _ h
  | cons s rest ih =>
    have hs : Steady fetcher program s m₁ := fun t n c m hbegins htests =>
      hsteady t n c m (.head hbegins) htests
    refine agree_bind (hexec s m₁ m₂ h hs) fun flow m₁' m₂' hdone h => ?_
    cases flow with
    | next =>
      exact ih h fun t n c m hbegins htests => hsteady t n c m (.tail hdone hbegins) htests
    | leave => exact (unswayed_warnUnreachable rest).bind (fun _ => .pure _) _ _ h

theorem agree_repeatWhile (hexec : Indifferent fetcher program fuel) {c : Condition}
    {body : List Statement} (rounds : Nat) (h : Overheard m₁ m₂)
    (hsteady : LoopSteady fetcher program c body m₁) :
    Outcome.Agree Overheard Overheard
      (repeatWhile (test c) (block (execute fetcher program fuel) body) rounds m₁)
      (repeatWhile (test c) (block (execute fetcher program fuel) body) rounds m₂) := by
  induction rounds generalizing m₁ m₂ with
  | zero => exact .unfinished h
  | succ rounds ih =>
    refine agree_bind (agree_test h (hsteady.rounds m₁ (.refl m₁))) fun again m₁' m₂' htest h => ?_
    cases again with
    | false => exact .done _ h
    | true =>
      have hbody : BlockSteady fetcher program body m₁' := fun t n c m hbegins htests =>
        hsteady.inside t n c m (.inside htest hbegins) htests
      refine agree_bind (agree_block hexec h hbody) fun flow m₁'' m₂'' hround h => ?_
      cases flow with
      | leave => exact .done _ h
      | next =>
        refine ih h ⟨fun n hrounds => ?_, fun t n c m hbegins htests => ?_⟩
        · exact hsteady.rounds n (.round htest hround hrounds)
        · exact hsteady.inside t n c m (.again htest hround hbegins) htests

theorem unswayed_enterBlock : Unswayed enterBlock :=
  unswayed_modify (fun _ _ => rfl) fun _ => rfl

theorem purgeScope_warning (m : Machine) (journal : Array Event) :
    purgeScope (m.warning journal) = (purgeScope m).warning journal := by
  have hmode : (m.warning journal).modes.purge = m.modes.purge := rfl
  unfold purgeScope
  rw [hmode]
  split
  · rfl
  · rfl

theorem journal_purgeScope (m : Machine) : (purgeScope m).journal = m.journal := by
  unfold purgeScope
  split
  · rfl
  · rfl

theorem unswayed_leaveBlock : Unswayed leaveBlock :=
  unswayed_modify (fun m journal => purgeScope_warning { m with depth := m.depth - 1 } journal)
    fun m => journal_purgeScope { m with depth := m.depth - 1 }

theorem agree_nested {x : Run Flow} (h : Overheard m₁ m₂)
    (hx : ∀ n, Overheard { m₁ with depth := m₁.depth + 1 } n →
      Outcome.Agree Overheard Overheard (x { m₁ with depth := m₁.depth + 1 }) (x n)) :
    Outcome.Agree Overheard Overheard (nested x m₁) (nested x m₂) := by
  refine agree_bind (unswayed_enterBlock m₁ m₂ h) fun _ m₁' m₂' henter h => ?_
  cases henter
  refine agree_bind (hx m₂' h) fun flow _ _ _ h => ?_
  exact unswayed_leaveBlock.bind (fun _ => .pure flow) _ _ h

theorem unswayed_leaveFunction (returns : Option Kind) : Unswayed (leaveFunction returns) := by
  refine unswayed_modify (fun m journal => ?_) fun m => ?_
  · simp only [Machine.warning]
    cases m.callers with
    | nil => rfl
    | cons caller rest => rfl
  · cases m.callers with
    | nil => rfl
    | cons caller rest => rfl

theorem unswayed_bindParams (depth : Nat) (bindings : List (String × Value)) :
    Unswayed (bindParams depth bindings) := by
  induction bindings with
  | nil => exact .pure _
  | cons binding rest ih => exact (unswayed_onStore _).bind fun _ => ih

theorem unswayed_openFrame (name : String) (params : List String) (args : List Value)
    (returns : Option Kind) : Unswayed (openFrame name params args returns) := by
  refine unswayed_look (fun _ _ => rfl) fun caller => ?_
  refine Pairs.bind (unswayed_modify (fun _ _ => rfl) fun _ => rfl) fun _ => ?_
  exact (unswayed_bindParams _ _).bind fun _ => unswayed_modify (fun _ _ => rfl) fun _ => rfl

theorem machine_bind_apply {α : Type} (f : Machine → Run α) (m : Machine) :
    (machine >>= f) m = f m m := rfl

theorem agree_activate (hexec : Indifferent fetcher program fuel) {name : String}
    {params : List String} {args : List Value} {returns : Option Kind} {body : List Statement}
    (h : Overheard m₁ m₂)
    (hbody : ∀ n, openFrame name params args returns m₁ = .done () n →
      BlockSteady fetcher program body n) :
    Outcome.Agree Overheard Overheard
      (activate (execute fetcher program fuel) name params args returns body m₁)
      (activate (execute fetcher program fuel) name params args returns body m₂) := by
  obtain ⟨journal, hjournal, rfl⟩ := h
  have hopen := unswayed_openFrame name params args returns m₁ _ ⟨journal, hjournal, rfl⟩
  rw [activate, machine_bind_apply, machine_bind_apply]
  refine agree_bind hopen fun _ n₁ n₂ hopened h => ?_
  refine agree_bind (agree_block hexec h (hbody n₁ hopened)) fun _ _ _ _ h => ?_
  exact (unswayed_leaveFunction m₁.returns).bind (fun _ => unswayed_onStore _) _ _ h

def CallSteady (fetcher : Fetcher) (program : Program) (name : String) (args : List Value)
    (m : Machine) : Prop :=
  ∀ params function n, m.store.signature name = .ok params →
    program.function? name = some function → params.length = args.length →
    m.callers.length < maxCallDepth →
    openFrame name params args (returnsOf function) m = .done () n →
      BlockSteady fetcher program function.body n

theorem agree_callFunction (hexec : Indifferent fetcher program fuel) {name : String}
    {args : List Value} (h : Overheard m₁ m₂)
    (hsteady : CallSteady fetcher program name args m₁) :
    Outcome.Agree Overheard Overheard
      (callFunction program (execute fetcher program fuel) name args m₁)
      (callFunction program (execute fetcher program fuel) name args m₂) := by
  obtain ⟨journal, hjournal, rfl⟩ := h
  have hover : Overheard m₁ (m₁.warning journal) := ⟨journal, hjournal, rfl⟩
  have hsame : program.refusal? (m₁.warning journal) name args.length =
      program.refusal? m₁ name args.length := rfl
  -- both machines refuse the call for the same cause, or both enter the function
  rcases callFunction_cases program name args m₁ with
    ⟨cause, hrefused, hfail⟩ | ⟨hrefused, params, function, hsignature, hfunction, hlength, hdepth,
      henter⟩
  · rcases callFunction_cases program name args (m₁.warning journal) with
      ⟨cause', hrefused', hfail'⟩ | ⟨hrefused', -⟩
    · rw [hsame, hrefused] at hrefused'
      cases hrefused'
      rw [hfail, hfail']
      exact .failed _ hover
    · rw [hsame, hrefused] at hrefused'
      cases hrefused'
  · rcases callFunction_cases program name args (m₁.warning journal) with
      ⟨cause', hrefused', -⟩ | ⟨-, params', function', hsignature', hfunction', -, -, henter'⟩
    · rw [hsame, hrefused] at hrefused'
      cases hrefused'
    · have hparams : Except.ok params' = Except.ok params := hsignature'.symm.trans hsignature
      rw [hfunction] at hfunction'
      cases hparams
      cases hfunction'
      rw [henter, henter']
      exact agree_activate hexec hover fun n hopen =>
        hsteady params function n hsignature hfunction hlength hdepth hopen

theorem unswayed_returnValue (value : Value) :
    Unswayed (modify fun m => { m with returned := value :: m.returned }) :=
  unswayed_modify (fun _ _ => rfl) fun _ => rfl

theorem agree_call (hexec : Indifferent fetcher program fuel) {c : Call} (h : Overheard m₁ m₂)
    (hsteady : ∀ args n, resolveAll c.args m₁ = .done args n → n.isBuiltin c.name = false →
      CallSteady fetcher program c.name args n) :
    Outcome.Agree Overheard Overheard (call program (execute fetcher program fuel) c m₁)
      (call program (execute fetcher program fuel) c m₂) := by
  refine agree_bind (unswayed_resolveAll c.args m₁ m₂ h) fun args n₁ n₂ hargs h => ?_
  obtain ⟨journal, hjournal, rfl⟩ := h
  have hover : Overheard n₁ (n₁.warning journal) := ⟨journal, hjournal, rfl⟩
  have hbuiltins : (n₁.warning journal).builtins = n₁.builtins := rfl
  rw [machine_bind_apply, machine_bind_apply, hbuiltins]
  cases hname : n₁.builtins.get? c.name with
  | some builtin =>
    refine agree_bind (unswayed_builtin builtin args _ _ hover) fun result _ _ _ h => ?_
    cases result with
    | none => exact .done _ h
    | some value => exact unswayed_returnValue value _ _ h
  | none =>
    have hbuiltin : n₁.isBuiltin c.name = false := by
      simp [Machine.isBuiltin, Table.contains, hname]
    exact agree_callFunction hexec hover (hsteady args n₁ hargs hbuiltin)

theorem unswayed_truncateReturned (count : Nat) : Unswayed (truncateReturned count) :=
  unswayed_modify (fun _ _ => rfl) fun _ => rfl

theorem agree_callAndDrop {exec : Statement → Run Flow} {c : Call} (h : Overheard m₁ m₂)
    (hcall : Outcome.Agree Overheard Overheard (call program exec c m₁) (call program exec c m₂)) :
    Outcome.Agree Overheard Overheard (callAndDrop program exec c m₁)
      (callAndDrop program exec c m₂) := by
  obtain ⟨journal, hjournal, rfl⟩ := h
  rw [callAndDrop, machine_bind_apply, machine_bind_apply]
  exact agree_bind hcall fun _ _ _ _ h => unswayed_truncateReturned _ _ _ h

theorem agree_callInto {exec : Statement → Run Flow} {target : String} {c : Call}
    (h : Overheard m₁ m₂)
    (hcall : Outcome.Agree Overheard Overheard (call program exec c m₁) (call program exec c m₂)) :
    Outcome.Agree Overheard Overheard (callInto program exec target c m₁)
      (callInto program exec target c m₂) := by
  obtain ⟨journal, hjournal, rfl⟩ := h
  rw [callInto, machine_bind_apply, machine_bind_apply]
  refine agree_bind hcall fun _ n₁ n₂ _ h => ?_
  -- The number of results before the call is the same in both runs.
  refine unswayed_look (fun _ _ => rfl) (fun after => ?_) n₁ n₂ h
  cases after.returned with
  | nil => exact unswayed_raise _
  | cons value rest =>
    dsimp only
    split
    · exact unswayed_raise _
    · exact (unswayed_truncateReturned _).bind fun _ => unswayed_declare _ _ _ _

theorem unswayed_andNext {x : Run Unit} (hx : Unswayed x) : Unswayed (andNext x) :=
  hx.bind fun _ => .pure Flow.next

theorem unswayed_perform_of_isAtomic (hbodies : HasBodies fetcher) (exec : Statement → Run Flow)
    (fuel : Nat) {s : Statement} (h : s.instruction.isAtomic = true) :
    Unswayed (perform fetcher program exec fuel s) := by
  unfold perform
  cases hi : s.instruction with
  | define signature => exact .pure _
  | assign target value constant =>
    exact unswayed_andNext ((unswayed_resolve value).bind fun _ => unswayed_declare _ _ _ _)
  | branch condition => simp [hi, Instruction.isAtomic] at h
  | loop condition => simp [hi, Instruction.isAtomic] at h
  | otherwise chained => exact unswayed_raise _
  | close => exact unswayed_raise _
  | delete target => exact unswayed_andNext (unswayed_onStore _)
  | status target reference => exact unswayed_andNext (unswayed_bindStatus target reference)
  | fetch target reference => exact unswayed_andNext (unswayed_fetch hbodies target reference)
  | request request => exact unswayed_andNext (unswayed_register request)
  | use mode => exact unswayed_andNext (unswayed_use mode)
  | print value =>
    have hemit (text : String) : Unswayed (emit text) :=
      unswayed_record (fun _ _ => rfl) fun _ => rfl
    exact unswayed_andNext ((unswayed_resolve value).bind fun v => hemit v.text)
  | read target =>
    exact unswayed_andNext (unswayed_readLine.bind fun _ => unswayed_declare _ _ _ _)
  | leave value => exact (unswayed_leave value).bind fun _ => .pure _
  | call c => simp [hi, Instruction.isAtomic] at h
  | callInto target c => simp [hi, Instruction.isAtomic] at h
  | index target source position => exact unswayed_andNext (unswayed_charAt target source position)
  | increment target => exact unswayed_andNext (unswayed_step target 1)
  | decrement target => exact unswayed_andNext (unswayed_step target (-1))

theorem agree_perform (hbodies : HasBodies fetcher) (hexec : Indifferent fetcher program fuel)
    {s : Statement} {n : Machine} (h : Overheard (begun s n) m₂)
    (hsteady : Steady fetcher program s n) :
    Outcome.Agree Overheard Overheard
      (perform fetcher program (execute fetcher program fuel) fuel s (begun s n))
      (perform fetcher program (execute fetcher program fuel) fuel s m₂) := by
  have hself {c : Condition} {m : Machine} (htests : Tests fetcher program s n c m) :
      Answered c m := hsteady s n c m .self htests
  have hnext {x : Run Unit} {m₁ m₂ : Machine}
      (hx : Outcome.Agree Overheard Overheard (x m₁) (x m₂)) :
      Outcome.Agree Overheard Overheard (andNext x m₁) (andNext x m₂) :=
    agree_bind hx fun _ _ _ _ h => .done _ h
  -- a call begins the statements of the function that it enters
  have hcall {c : Call} (hcalls : s.Calls c) :
      Outcome.Agree Overheard Overheard (call program (execute fetcher program fuel) c (begun s n))
        (call program (execute fetcher program fuel) c m₂) := by
    refine agree_call hexec h fun args m₁ hargs hbuiltin => ?_
    intro params function n₁ hsignature hfunction hlength hdepth hopen t k c' m hbegins htests
    refine hsteady t k c' m ?_ htests
    exact .call hcalls hargs hbuiltin hsignature hfunction hlength hdepth hopen hbegins
  by_cases hatomic : s.instruction.isAtomic = true
  · exact unswayed_perform_of_isAtomic hbodies _ _ hatomic _ _ h
  · unfold perform
    cases hi : s.instruction with
    | branch c =>
      refine agree_nested h fun n' h => ?_
      refine agree_bind (agree_test h (hself (.branch hi))) fun holds m₁ m₂ htest h => ?_
      refine agree_block hexec h fun t k c' m hbegins htests => ?_
      exact hsteady t k c' m (.branch hi htest hbegins) htests
    | loop c =>
      refine agree_nested h fun n' h => agree_repeatWhile hexec fuel h ⟨?_, ?_⟩
      · exact fun m hrounds => hself (.loop hi hrounds)
      · exact fun t k c' m hbegins htests => hsteady t k c' m (.loop hi rfl hbegins) htests
    | call c => exact hnext (agree_callAndDrop h (hcall (.inl hi)))
    | callInto target c => exact hnext (agree_callInto h (hcall (.inr ⟨target, hi⟩)))
    | _ => simp [hi, Instruction.isAtomic] at hatomic

/-- A steady statement does the same with warnings as without. -/
theorem indifferent_execute (hbodies : HasBodies fetcher) (program : Program) (fuel : Nat) :
    Indifferent fetcher program fuel := by
  induction fuel with
  | zero => exact fun _ _ _ h _ => .unfinished h
  | succ fuel ih =>
    intro s m₁ m₂ h hsteady
    have hbegin : Unswayed (begin s) := unswayed_modify (fun _ _ => rfl) fun _ => rfl
    refine agree_bind (hbegin m₁ m₂ h) fun _ m₁' m₂' hbegun h => ?_
    cases hbegun
    exact agree_locating _ (agree_perform hbodies ih h hsteady)

theorem unswayed_warnUnfetched (ids : List String) : Unswayed (warnUnfetched ids) := by
  induction ids with
  | nil => exact .pure _
  | cons id rest ih => exact (unswayed_warn _).bind fun _ => ih

theorem unswayed_emitAll (lines : List String) : Unswayed (emitAll lines) := by
  induction lines with
  | nil => exact .pure _
  | cons line rest ih =>
    exact Pairs.bind (unswayed_record (fun _ _ => rfl) fun _ => rfl) fun _ => ih

theorem unswayed_dumpStore : Unswayed dumpStore := by
  refine unswayed_look (fun _ _ => rfl) fun m => ?_
  split
  · exact unswayed_emitAll _
  · exact .pure _

theorem unswayed_leaveMain (location : Location) : Unswayed (leaveMain location) := by
  have hpurge : Unswayed (modify fun m => purgeScope { m with location }) :=
    unswayed_modify (fun m journal => purgeScope_warning { m with location } journal)
      fun m => journal_purgeScope { m with location }
  refine hpurge.bind fun _ => ?_
  refine unswayed_look (fun _ _ => rfl) fun m => ?_
  refine Pairs.bind (unswayed_modify (fun _ _ => rfl) fun _ => rfl) fun _ => ?_
  refine (unswayed_warnUnfetched m.unfetched).bind fun _ => ?_
  exact unswayed_dumpStore.bind fun _ => unswayed_onStore _

theorem agree_run (hbodies : HasBodies fetcher) (program : Program) (fuel : Nat)
    (h : Overheard m₁ m₂) (htests : ∀ c n, RunTests fetcher program m₁ c n → Answered c n) :
    Outcome.Agree Overheard Overheard (program.run fetcher fuel m₁)
      (program.run fetcher fuel m₂) := by
  unfold Program.run
  cases hmain : program.function? entryFunction with
  | none => exact unswayed_raise _ _ _ h
  | some main =>
    have henter : Unswayed (enterMain program) := unswayed_modify (fun _ _ => rfl) fun _ => rfl
    refine agree_bind (henter m₁ m₂ h) fun _ n₁ n₂ hentered h => ?_
    have hsteady : BlockSteady fetcher program main.body n₁ := fun t n c m hbegins ht =>
      htests c m ⟨t, n, ⟨main, n₁, hmain, hentered, hbegins⟩, ht⟩
    refine agree_bind (agree_block (indifferent_execute hbodies program fuel) h hsteady) ?_
    exact fun _ k₁ k₂ _ h => unswayed_leaveMain main.location k₁ k₂ h

end Run

def Instruction.condition? : Instruction → Option Condition
  | .branch c => some c
  | .loop c => some c
  | _ => none

/-- In a program without negated tests for success, none is made too early. -/
theorem answered_of_condition? {fetcher : Fetcher} {program : Program} {m : Machine}
    (hframes : m.store.frames = []) (hcallers : m.callers = [])
    (h : ∀ function ∈ program.statements, ∀ s ∈ Statement.preorder function.body,
      ∀ c ∈ s.instruction.condition?, c.test = .succeeded → c.negated = false)
    {c : Condition} {n : Machine} (htests : RunTests fetcher program m c n) : Answered c n := by
  obtain ⟨t, n₀, hbegins, ht⟩ := htests
  obtain ⟨function, hfunction, hmem⟩ := (situated_of_runBegins hframes hcallers hbegins).scope
  have hcondition : t.instruction.condition? = some c := by
    cases ht with
    | branch hi => rw [hi]; rfl
    | loop hi _ => rw [hi]; rfl
  intro hsucceeded hnegated
  have hplain := h function (List.mem_of_find?_eq_some hfunction) t hmem c hcondition hsucceeded
  rw [hnegated] at hplain
  cases hplain

/-- Every response has a body, and no negated test for success is made before a fetch was answered.
Then a run that is asked for warnings ends if and only if the same run ends without them, and both
end well or with the same fault. All but the modes and the journal is the same afterwards: the
store, the statuses, the returned values and the input left. The calls are the same, and the output
of the first has warnings added and nothing else. -/
theorem warnings_are_diagnostics (fetcher : Fetcher) (program : Program) (m : Machine)
    (hbodies : ∀ earlier call, (fetcher earlier call).body ≠ none)
    (htests : ∀ c n, RunTests fetcher program m c n → c.test = .succeeded → c.negated = true →
      n.lastStatus ≠ none) :
    let asked : Machine := { m with modes := { m.modes with warns := true } }
    let run := fun fuel => program.run fetcher fuel
    ((∃ o, EndsIn run m o) ↔ ∃ o, EndsIn run asked o) ∧
    ∀ o₁ o₂, EndsIn run m o₁ → EndsIn run asked o₂ →
      Outcome.Agree Overheard Overheard o₁ o₂ ∧ o₂.machine.calls = o₁.machine.calls ∧
        WarningsAdded o₁.machine.output o₂.machine.output := by
  intro asked run
  have hagree (fuel : Nat) : Outcome.Agree Overheard Overheard (run fuel m) (run fuel asked) :=
    agree_run hbodies program fuel ⟨m.journal, .refl _, rfl⟩ htests
  refine ⟨exists_endsIn_iff hagree, ?_⟩
  intro o₁ o₂ h₁ h₂
  obtain ⟨fuel, rfl, rfl⟩ := h₁.exists_common_fuel (extends_run fetcher program) h₂
  have hover := (hagree fuel).machine
  exact ⟨hagree fuel, hover.calls, hover.output⟩

/-- An insecure request, a test for success before it is fetched, a fetch that is answered with
404, and a function that goes on after its `return`. -/
theorem grumbling_run_differs_in_warnings :
    let line (number : Nat) : Location := ⟨number, "grumble.neb"⟩
    let fetcher : Fetcher := fun _ _ => { body := some "gone", status := some 404 }
    let program : Program :=
      ⟨[⟨.define ⟨"Main", [], none⟩, line 1,
          [.leaf (.request ⟨"api", "http://a.b", "GET", 5000, false⟩) (line 2),
            ⟨.branch ⟨false, .succeeded⟩, line 3, [],
              [.leaf (.print (.literal "unanswered")) (line 4)]⟩,
            .leaf (.fetch "page" "api") (line 6),
            .leaf (.callInto "n" ⟨"once", [.name "page"]⟩) (line 7),
            .leaf (.print (.name "n")) (line 8)], []⟩,
        ⟨.define ⟨"once", ["text"], none⟩, line 10,
          [.leaf (.leave (some (.name "text"))) (line 11),
            .leaf (.print (.literal "twice")) (line 12)], []⟩]⟩
    let m : Machine := { store := { signatures := .ofList [("once", ["text"])] } }
    let asked : Machine := { m with modes := { m.modes with warns := true } }
    (∀ earlier call, (fetcher earlier call).body ≠ none) ∧
    (∀ c n, RunTests fetcher program m c n → c.test = .succeeded → c.negated = true →
      n.lastStatus ≠ none) ∧
    ∃ o₁ o₂, EndsIn (fun fuel => program.run fetcher fuel) m o₁ ∧
      EndsIn (fun fuel => program.run fetcher fuel) asked o₂ ∧
      o₁.machine.output = ["unanswered", "gone"] ∧ o₂.machine.output.length = 5 ∧
      Outcome.Agree Overheard Overheard o₁ o₂ ∧
      WarningsAdded o₁.machine.output o₂.machine.output := by
  intro line fetcher program m asked
  have hbodies : ∀ earlier call, (fetcher earlier call).body ≠ none := fun _ _ => nofun
  have hconditions : ∀ function ∈ program.statements, ∀ s ∈ Statement.preorder function.body,
      ∀ c ∈ s.instruction.condition?, c.test = .succeeded → c.negated = false := by
    decide +kernel
  have htests : ∀ c n, RunTests fetcher program m c n → c.test = .succeeded → c.negated = true →
      n.lastStatus ≠ none := fun c n h => answered_of_condition? rfl rfl hconditions h
  obtain ⟨-, hends⟩ := warnings_are_diagnostics fetcher program m hbodies htests
  have h₁ : EndsIn (fun fuel => program.run fetcher fuel) m (program.run fetcher 9 m) :=
    ⟨by decide +kernel, 9, rfl⟩
  have h₂ : EndsIn (fun fuel => program.run fetcher fuel) asked (program.run fetcher 9 asked) :=
    ⟨by decide +kernel, 9, rfl⟩
  obtain ⟨hagree, -, hadded⟩ := hends _ _ h₁ h₂
  exact ⟨hbodies, htests, _, _, h₁, h₂, by decide +kernel, by decide +kernel, hagree, hadded⟩

end ApiScript
