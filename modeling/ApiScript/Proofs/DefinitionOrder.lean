import ApiScript.Proofs.DefinitionParts
import ApiScript.Proofs.Fuel
import ApiScript.Proofs.Relocating

/-!
# The order of definitions

A run looks a function up by its name, and the names of an assembled program differ. So the order
in which the functions are defined shows in nothing but the numbers of lines in warnings.
-/
namespace ApiScript

open Grammar Run SourceLine

theorem Statement.name?_relocate (f : Location → Location) (s : Statement) :
    (s.relocate f).name? = s.name? := by
  rw [name?, instruction_relocate, name?]

/-- Functions with different names are found in every order. -/
theorem Program.function?_of_perm {p q : Program} (hperm : p.statements.Perm q.statements)
    (hnodup : (p.statements.filterMap Statement.name?).Nodup) (name : String) :
    p.function? name = q.function? name := by
  cases hp : p.function? name with
  | none =>
    symm
    apply List.find?_eq_none.2
    intro s hs
    exact List.find?_eq_none.1 hp s (hperm.mem_iff.2 hs)
  | some s =>
    have hname : s.name? = some name := Program.defines_iff.1 (List.find?_some hp)
    have hs : s ∈ q.statements := hperm.mem_iff.1 (List.mem_of_find?_eq_some hp)
    exact (Program.find?_defines_of_nodup ((hperm.filterMap _).nodup_iff.1 hnodup) hs hname).symm

section Congruence

variable {p q : Program} (h : ∀ name, p.function? name = q.function? name)

include h

theorem Run.call_congr (exec : Statement → Run Flow) (c : Call) :
    call p exec c = call q exec c := by
  have hfunction (name : String) (args : List Value) :
      callFunction p exec name args = callFunction q exec name args := by
    unfold callFunction
    rw [h name]
  unfold call
  simp only [hfunction]

theorem Run.perform_congr (fetcher : Fetcher) (exec : Statement → Run Flow) (fuel : Nat)
    (s : Statement) : perform fetcher p exec fuel s = perform fetcher q exec fuel s := by
  unfold perform
  cases s.instruction with
  | call c =>
    dsimp only
    rw [callAndDrop, callAndDrop, call_congr h]
  | callInto target c =>
    dsimp only
    rw [callInto, callInto, call_congr h]
  | _ => rfl

/-- A statement looks at the functions of the program only by their names. -/
theorem Run.execute_congr (fetcher : Fetcher) (fuel : Nat) :
    execute fetcher p fuel = execute fetcher q fuel := by
  induction fuel with
  | zero => rfl
  | succ fuel ih =>
    funext s
    rw [execute, execute, ih, perform_congr h]

end Congruence

def Machine.unplaced (m : Machine) : Machine := { m with location := ⟨0, ""⟩ }

def Outcome.unplaced {α : Type} : Outcome α → Outcome α
  | .done a m => .done a m.unplaced
  | .failed fault m => .failed fault m.unplaced
  | .unfinished m => .unfinished m.unplaced

/-- Programs with the same functions run alike. A run starts in the file of the last function, and
every statement and the end of the entry function go elsewhere. -/
theorem Program.run_congr {p q : Program} (h : ∀ name, p.function? name = q.function? name)
    (fetcher : Fetcher) (fuel : Nat) (m : Machine) :
    (p.run fetcher fuel m).unplaced = (q.run fetcher fuel m).unplaced := by
  unfold Program.run
  rw [h entryFunction, execute_congr h]
  cases q.function? entryFunction with
  | none => rfl
  | some main =>
    obtain ⟨i, place, body, alt⟩ := main
    cases body with
    | nil => rfl
    | cons s rest =>
      cases fuel with
      | zero => rfl
      | succ fuel => rfl

/-- Lines that are the same, or the same warning at two lines of one file. -/
inductive SameButNumber : String → String → Prop
  | same (text : String) : SameButNumber text text
  | warning (w : Warning) (file : String) (first second : Nat) :
    SameButNumber (w.toLine ⟨first, file⟩) (w.toLine ⟨second, file⟩)

/-- The ends of two runs show the same but for the numbers of lines in warnings: success, failure
with one cause or neither, the function at hand and its callers, the calls that were made, the
store, and so its dump, and the lines printed. -/
structure Outcome.SameEnd {α : Type} (o₁ o₂ : Outcome α) : Prop where
  finished : o₁.isFinished = o₂.isFinished
  cause : o₁.cause? = o₂.cause?
  scope : o₁.machine.scope = o₂.machine.scope
  callers : o₁.machine.callers = o₂.machine.callers
  calls : o₁.machine.calls = o₂.machine.calls
  store : o₁.machine.store = o₂.machine.store
  output : List.Forall₂ SameButNumber o₁.machine.output o₂.machine.output

theorem Outcome.sameEnd_of_unplaced_eq {α : Type} {o₁ o₂ : Outcome α}
    (h : (o₁.relocate Location.unnumbered).unplaced = (o₂.relocate Location.unnumbered).unplaced) :
    o₁.SameEnd o₂ := by
  let bare (o : Outcome α) := (o.relocate Location.unnumbered).unplaced
  have hview {β : Type} (g : Outcome α → β) (hg : ∀ o, g (bare o) = g o) : g o₁ = g o₂ := by
    rw [← hg o₁, ← hg o₂]
    exact congrArg g h
  have hjournal (o : Outcome α) :
      (bare o).machine.journal = (o.relocate Location.unnumbered).machine.journal := by
    cases o <;> rfl
  constructor
  · exact hview Outcome.isFinished fun o => by cases o <;> rfl
  · exact hview Outcome.cause? fun o => by cases o <;> rfl
  · exact hview (fun o => o.machine.scope) fun o => by cases o <;> rfl
  · exact hview (fun o => o.machine.callers) fun o => by cases o <;> rfl
  · exact hview (fun o => o.machine.calls) fun o => by cases o <;> exact Machine.calls_relocate _ _
  · exact hview (fun o => o.machine.store) fun o => by cases o <;> rfl
  · have hevents := congrArg (fun o : Outcome α => o.machine.journal) h
    have hsame := (hjournal o₁).symm.trans (hevents.trans (hjournal o₂))
    refine forall₂_output_of_relocate_eq .same ?_ hsame
    rintro w ⟨first, file⟩ ⟨second, file'⟩ hfile
    obtain ⟨-, rfl⟩ := Location.mk.inj hfile
    exact .warning w file first second

section Permuted

variable {program₁ program₂ : Program} {m₁ m₂ : Machine}
  (hperm : program₁.unnumbered.statements.Perm program₂.unnumbered.statements)

include hperm

theorem Assembled.declares_of_perm (h : Assembled program₁ m₁) {signature : Signature}
    (hdeclares : program₁.Declares signature) : program₂.Declares signature := by
  obtain ⟨s, hs, hsignature⟩ := hdeclares
  have hmem : s.relocate Location.unnumbered ∈ program₂.unnumbered.statements := by
    apply hperm.mem_iff.1
    change _ ∈ Statement.relocateAll Location.unnumbered program₁.statements
    rw [Statement.relocateAll_eq_map]
    exact List.mem_map_of_mem (h.mem_of_define hs hsignature)
  change _ ∈ Statement.relocateAll Location.unnumbered program₂.statements at hmem
  rw [Statement.relocateAll_eq_map] at hmem
  obtain ⟨t, ht, hsame⟩ := List.mem_map.1 hmem
  refine ⟨t, Statement.mem_preorder_self ht, ?_⟩
  rw [← Statement.instruction_relocate t, hsame, Statement.instruction_relocate, hsignature]

/-- The same functions leave the same signatures, in whichever order these are registered. -/
theorem Assembled.signatures_eq (h₁ : Assembled program₁ m₁) (h₂ : Assembled program₂ m₂) :
    m₁.store.signatures = m₂.store.signatures := by
  have hunknown {program : Program} {m : Machine} (h : Assembled program m) {name : String}
      (hnot : ¬ ∃ signature, program.Declares signature ∧ signature.name = name) :
      m.store.signatures.get? name = none := by
    rw [← mem_definedNames, ← h.known, Table.contains] at hnot
    simpa using hnot
  apply Table.ext_get?
  intro name
  by_cases hdeclared : ∃ signature, program₁.Declares signature ∧ signature.name = name
  · obtain ⟨signature, hdeclares, rfl⟩ := hdeclared
    rw [h₁.signed signature hdeclares, h₂.signed signature (h₁.declares_of_perm hperm hdeclares)]
  · rw [hunknown h₁ hdeclared, hunknown h₂]
    rintro ⟨signature, hdeclares, hname⟩
    exact hdeclared ⟨signature, h₂.declares_of_perm hperm.symm hdeclares, hname⟩

/-- Assembled programs with the same functions end alike on every machine. -/
theorem Assembled.sameEnd_run (h : Assembled program₁ m₁) (fetcher : Fetcher) (fuel : Nat)
    (m : Machine) :
    (program₁.run fetcher fuel m).SameEnd (program₂.run fetcher fuel m) := by
  have hnodup : (program₁.unnumbered.statements.filterMap Statement.name?).Nodup := by
    change ((Statement.relocateAll Location.unnumbered program₁.statements).filterMap _).Nodup
    rw [Statement.relocateAll_eq_map, List.filterMap_map]
    have hname : Statement.name? ∘ Statement.relocate Location.unnumbered = Statement.name? :=
      funext (Statement.name?_relocate _)
    rw [hname, ← Statement.definedNames_heads_of_functions h.functions]
    exact h.nodup
  have hseparates : Location.Separates Location.unnumbered := fun _ _ => rfl
  have hmoved₁ := relocates_run hseparates fetcher program₁ fuel m
  have hmoved₂ := relocates_run hseparates fetcher program₂ fuel m
  apply Outcome.sameEnd_of_unplaced_eq
  rw [← hmoved₁, ← hmoved₂]
  exact Program.run_congr (Program.function?_of_perm hperm hnodup) fetcher fuel _

end Permuted

theorem Machine.eq_of_assemble {input : List InputLine} {sources : List (String × String)}
    {result : Except Fault Program} {m : Machine}
    (h : ({ input } : Machine).assemble sources = (result, m)) :
    m = { input, store := { signatures := m.store.signatures } } := by
  unfold Machine.assemble at h
  split at h
  · cases h
    rfl
  · cases h
    rfl

/-- A script that assembles on a new machine can be cut into definitions. In every order of these
it assembles again, on the same machine, and runs of the two programs end alike. -/
theorem definition_order_is_irrelevant {input : List InputLine}
    {sources₁ : List (String × String)} {program₁ : Program} {m : Machine}
    (h₁ : ({ input } : Machine).assemble sources₁ = (.ok program₁, m)) :
    (∃ parts rest, Cut (ofSources sources₁) parts rest) ∧
      ∀ parts₁ parts₂ rest sources₂, Cut (ofSources sources₁) parts₁ rest → parts₁.Perm parts₂ →
        ofSources sources₂ = parts₂.flatten ++ rest →
        ∃ program₂, ({ input } : Machine).assemble sources₂ = (.ok program₂, m) ∧
          ∀ fetcher fuel,
            (program₁.run fetcher fuel m).SameEnd (program₂.run fetcher fuel m) := by
  have hlines₁ : Assembly.assembleLines Builtin.standard.contains (ofSources sources₁) =
      .ok program₁ := by
    rw [← assemble_fresh input, h₁]
  have hassembled₁ := assembled_of_assemble h₁
  constructor
  · exact exists_cut_of_definitions (assembleLines_eq_ok_iff.1 hlines₁).2.1
  · intro parts₁ parts₂ rest sources₂ hcut hperm hsources
    obtain ⟨program₂, hlines₂, hstatements⟩ := hcut.exists_assembleLines hperm hlines₁
    rw [← hsources, ← assemble_fresh input] at hlines₂
    have h₂ : ({ input } : Machine).assemble sources₂ =
        (.ok program₂, (({ input } : Machine).assemble sources₂).2) := Prod.ext hlines₂ rfl
    have hsignatures := hassembled₁.signatures_eq hstatements (assembled_of_assemble h₂)
    have hm : (({ input } : Machine).assemble sources₂).2 = m := by
      rw [Machine.eq_of_assemble h₂, Machine.eq_of_assemble h₁, ← hsignatures]
    rw [hm] at h₂
    exact ⟨program₂, h₂, fun fetcher fuel => hassembled₁.sameEnd_run hstatements fetcher fuel m⟩

def pingFirst : List (String × String) :=
  [("ping.neb", "def Main():\nuse warns\nif 1 < 2\nping(1)\nend\nend\n" ++
    "def ping(n):\nn++\npong(n)\nend\n\ndef pong(n):\nif n < 3\nping(n)\nend\nprint n\nend")]

def pongFirst : List (String × String) :=
  [("ping.neb", "\ndef pong(n):\nif n < 3\nping(n)\nend\nprint n\nend\n" ++
    "def Main():\nuse warns\nif 1 < 2\nping(1)\nend\nend\ndef ping(n):\nn++\npong(n)\nend")]

theorem ping_and_pong_in_any_order :
    ∃ program₁ program₂ m, ({} : Machine).assemble pingFirst = (.ok program₁, m) ∧
      ({} : Machine).assemble pongFirst = (.ok program₂, m) ∧
      (program₁.run (fun _ _ => {}) 30 m).machine.output =
        [Warning.constantCondition.toLine ⟨3, "ping.neb"⟩, "3", "2"] ∧
      (program₂.run (fun _ _ => {}) 30 m).machine.output =
        [Warning.constantCondition.toLine ⟨10, "ping.neb"⟩, "3", "2"] ∧
      (program₁.run (fun _ _ => {}) 30 m).SameEnd (program₂.run (fun _ _ => {}) 30 m) := by
  let printed (sources : List (String × String)) : Option (List String) :=
    match ({} : Machine).assemble sources with
    | (.ok program, m) => some (program.run (fun _ _ => {}) 30 m).machine.output
    | (.error _, _) => none
  have hprinted₁ : printed pingFirst =
      some [Warning.constantCondition.toLine ⟨3, "ping.neb"⟩, "3", "2"] := by decide +kernel
  have hprinted₂ : printed pongFirst =
      some [Warning.constantCondition.toLine ⟨10, "ping.neb"⟩, "3", "2"] := by decide +kernel
  let line (text : String) : SourceLine := ⟨text, "ping.neb"⟩
  let main := ["def Main():", "use warns", "if 1 < 2", "ping(1)", "end", "end"].map line
  let ping := ["def ping(n):", "n++", "pong(n)", "end"].map line
  let pong := ["", "def pong(n):", "if n < 3", "ping(n)", "end", "print n", "end"].map line
  have hcut : Cut (ofSources pingFirst) [main, ping, pong] [] := by
    refine ⟨by decide +kernel, ?_, rfl⟩
    simp only [List.forall_mem_cons]
    refine ⟨?_, ?_, ?_, List.forall_mem_nil _⟩
    all_goals
      apply @exists_definition_of_assembleLines fun _ => false
      decide +kernel
  have hperm : [main, ping, pong].Perm [pong, main, ping] := by decide +kernel
  have hpongFirst : ofSources pongFirst = [pong, main, ping].flatten ++ [] := by decide +kernel
  cases hassemble : ({} : Machine).assemble pingFirst with
  | mk result m =>
    cases result with
    | error fault =>
      simp only [printed, hassemble] at hprinted₁
      cases hprinted₁
    | ok program₁ =>
      obtain ⟨program₂, hassemble₂, hsame⟩ :=
        (definition_order_is_irrelevant hassemble).2 _ _ _ _ hcut hperm hpongFirst
      simp only [printed, hassemble, Option.some.injEq] at hprinted₁
      simp only [printed, hassemble₂, Option.some.injEq] at hprinted₂
      exact ⟨program₁, program₂, m, rfl, hassemble₂, hprinted₁, hprinted₂, hsame _ _⟩

end ApiScript
