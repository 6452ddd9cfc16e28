import ApiScript.Proofs.Fuel
import ApiScript.Proofs.Relocating
import ApiScript.Proofs.Slips

/-!
# The layout of a script

What a script does hangs on the tokens of its lines, in their order. Blank lines, comments, blanks
between tokens and the borders of files change the numbers of lines and the names of files, and
these only show in warnings and in the places of faults.
-/
namespace ApiScript

namespace SourceLine

def tokens? (line : SourceLine) : Option (List String) :=
  match Token.tokenize line.text with
  | .ok (token :: rest) => some (token :: rest)
  | _ => none

def Scan (sources : List (String × String)) : Prop :=
  ∀ line ∈ ofSources sources, (Token.tokenize line.text).isOk = true

instance (sources : List (String × String)) : Decidable (Scan sources) :=
  inferInstanceAs (Decidable (∀ line ∈ ofSources sources, (Token.tokenize line.text).isOk = true))

def tokenLines (sources : List (String × String)) : List (List String) :=
  (ofSources sources).filterMap tokens?

end SourceLine

namespace Assembly

variable {builtin : String → Bool} {l : Location}

/-- Accepts lines of tokens, all of them at one location, up to the first that is refused. -/
def acceptAll (builtin : String → Bool) (l : Location) (a : Assembly) : List (List String) → Step
  | [] => (a, none)
  | tokens :: rest =>
    match a.accept builtin tokens l with
    | (a, none) => acceptAll builtin l a rest
    | (a, some cause) => (a, some cause)

theorem accept_relocate (f : Location → Location) (a : Assembly) (line : Nat)
    (tokens : List String) (place : Location) :
    (a.relocate f line).accept builtin tokens (f place) =
      relocateStep f line (a.accept builtin tokens place) := by
  unfold accept
  cases tokens with
  | nil => rfl
  | cons keyword rest =>
    dsimp only
    split
    · rfl
    · cases Instruction.read? (keyword :: rest) with
      | error cause => rfl
      | ok found =>
        cases found with
        | none => rfl
        | some i => exact place_relocate a line keyword i place

/-- Adding lines comes down to accepting the tokens of those that have some. -/
theorem acceptAll_eq (builtin : String → Bool) (l : Location) {lines : List SourceLine}
    (h : ∀ line ∈ lines, (Token.tokenize line.text).isOk = true) (a : Assembly) :
    acceptAll builtin l (a.relocate (fun _ => l) 0) (lines.filterMap SourceLine.tokens?) =
      ((a.appendAll builtin lines).1.relocate (fun _ => l) 0,
        (a.appendAll builtin lines).2.map Fault.cause) := by
  induction lines generalizing a with
  | nil => rfl
  | cons line rest ih =>
    obtain ⟨hline, hrest⟩ := List.forall_mem_cons.1 h
    cases htokens : Token.tokenize line.text with
    | error cause =>
      rw [htokens] at hline
      cases hline
    | ok tokens =>
      cases tokens with
      | nil =>
        have hnone : line.tokens? = none := by simp [SourceLine.tokens?, htokens]
        have happend : a.appendLine builtin line.text line.file =
            ({ a with line := a.line + 1 }, none) := by simp [appendLine, htokens, append, accept]
        rw [List.filterMap_cons_none hnone, appendAll, happend]
        exact ih hrest { a with line := a.line + 1 }
      | cons token tokens =>
        have hsome : line.tokens? = some (token :: tokens) := by simp [SourceLine.tokens?, htokens]
        have hstep : (a.relocate (fun _ => l) 0).accept builtin (token :: tokens) l =
            relocateStep (fun _ => l) 0 (accept builtin { a with line := a.line + 1 }
              (token :: tokens) ⟨a.line + 1, line.file⟩) :=
          accept_relocate (fun _ => l) { a with line := a.line + 1 } 0 (token :: tokens) _
        have happend : a.appendLine builtin line.text line.file =
            a.append builtin (token :: tokens) line.file := by simp only [appendLine, htokens]
        rw [List.filterMap_cons_some hsome, acceptAll, appendAll, hstep, happend, append]
        rcases accept builtin { a with line := a.line + 1 } (token :: tokens)
          ⟨a.line + 1, line.file⟩ with ⟨next, cause⟩
        cases cause with
        | none => exact ih hrest next
        | some cause => rfl

def pinned (l : Location) : Except Fault Program → Except Cause Program
  | .ok program => .ok (program.relocate fun _ => l)
  | .error fault => .error fault.cause

theorem pinned_finish (a : Assembly) :
    pinned l a.finish = (a.relocate (fun _ => l) 0).finish.mapError Fault.cause := by
  obtain ⟨finished, openBlocks, insideFunction, n, signatures⟩ := a
  cases openBlocks with
  | nil => rfl
  | cons block outer => rfl

end Assembly

namespace Machine

open Assembly

/-- Scripts with the same lines of tokens assemble alike. -/
theorem assemble_congr {sources₁ sources₂ : List (String × String)}
    (h₁ : SourceLine.Scan sources₁) (h₂ : SourceLine.Scan sources₂)
    (htokens : SourceLine.tokenLines sources₁ = SourceLine.tokenLines sources₂) (m : Machine)
    (l : Location) :
    (m.assemble sources₁).2 = (m.assemble sources₂).2 ∧
      pinned l (m.assemble sources₁).1 = pinned l (m.assemble sources₂).1 := by
  have hlines₁ := acceptAll_eq m.isBuiltin l h₁ m.startAssembly
  have hlines₂ := acceptAll_eq m.isBuiltin l h₂ m.startAssembly
  have hsame := congrArg (acceptAll m.isBuiltin l (m.startAssembly.relocate (fun _ => l) 0)) htokens
  unfold SourceLine.tokenLines at hsame
  rw [hlines₁, hlines₂, ← appendSources_eq_appendAll, ← appendSources_eq_appendAll] at hsame
  unfold Machine.assemble
  generalize m.startAssembly.appendSources m.isBuiltin sources₁ = r₁ at hsame ⊢
  generalize m.startAssembly.appendSources m.isBuiltin sources₂ = r₂ at hsame ⊢
  obtain ⟨a₁, fault₁⟩ := r₁
  obtain ⟨a₂, fault₂⟩ := r₂
  obtain ⟨hassembly, hcause⟩ := Prod.ext_iff.1 hsame
  dsimp only at hassembly hcause
  have hsignatures : (a₁.relocate (fun _ => l) 0).signatures = a₂.signatures := by
    rw [hassembly]
    rfl
  change a₁.signatures = a₂.signatures at hsignatures
  cases fault₁ with
  | none =>
    cases fault₂ with
    | none =>
      dsimp only
      rw [adoptSignatures, adoptSignatures, hsignatures, pinned_finish, pinned_finish, hassembly]
      exact ⟨rfl, rfl⟩
    | some fault₂ => cases hcause
  | some fault₁ =>
    cases fault₂ with
    | none => cases hcause
    | some fault₂ =>
      dsimp only
      rw [adoptSignatures, adoptSignatures, hsignatures]
      exact ⟨rfl, congrArg Except.error (Option.some.inj hcause)⟩

end Machine

/-- Lines that are the same, or the same warning at two places. -/
inductive SameLine : String → String → Prop
  | same (text : String) : SameLine text text
  | warning (w : Warning) (l₁ l₂ : Location) : SameLine (w.toLine l₁) (w.toLine l₂)

/-- The ends of two runs show the same but for the places in warnings: success, failure with one
cause or neither, the calls that were made, the store, and so its dump, and the lines printed. -/
structure Outcome.Alike {α : Type} (o₁ o₂ : Outcome α) : Prop where
  finished : o₁.isFinished = o₂.isFinished
  cause : o₁.cause? = o₂.cause?
  calls : o₁.machine.calls = o₂.machine.calls
  store : o₁.machine.store = o₂.machine.store
  output : List.Forall₂ SameLine o₁.machine.output o₂.machine.output

theorem Outcome.alike_of_relocate_eq {α : Type} {f : Location → Location} {o₁ o₂ : Outcome α}
    (h : o₁.relocate f = o₂.relocate f) : o₁.Alike o₂ := by
  have hview {β : Type} (g : Outcome α → β) (hg : ∀ o, g (o.relocate f) = g o) : g o₁ = g o₂ := by
    rw [← hg o₁, ← hg o₂, h]
  have hjournal := congrArg (fun o => o.machine.journal) h
  constructor
  · exact hview Outcome.isFinished fun o => by cases o <;> rfl
  · exact hview Outcome.cause? fun o => by cases o <;> rfl
  · exact hview (fun o => o.machine.calls) fun o => by cases o <;> exact Machine.calls_relocate _ _
  · exact hview (fun o => o.machine.store) fun o => by cases o <;> rfl
  · exact forall₂_output_of_relocate_eq .same (fun w l₁ l₂ _ => .warning w l₁ l₂) hjournal

open Run

/-- Two scripts with the same lines of tokens, however these are laid out over files, assemble
alike on every machine: they are refused for one cause, or give programs that differ in locations
only. These programs run alike on every machine with every fetcher. -/
theorem layout_is_irrelevant {sources₁ sources₂ : List (String × String)}
    (h₁ : SourceLine.Scan sources₁) (h₂ : SourceLine.Scan sources₂)
    (htokens : SourceLine.tokenLines sources₁ = SourceLine.tokenLines sources₂) (m : Machine) :
    (m.assemble sources₁).2 = (m.assemble sources₂).2 ∧
      ((∃ fault₁ fault₂, (m.assemble sources₁).1 = .error fault₁ ∧
          (m.assemble sources₂).1 = .error fault₂ ∧ fault₁.cause = fault₂.cause) ∨
        ∃ program₁ program₂, (m.assemble sources₁).1 = .ok program₁ ∧
          (m.assemble sources₂).1 = .ok program₂ ∧
          (∀ l, (program₁.relocate fun _ => l) = program₂.relocate fun _ => l) ∧
          ∀ fetcher fuel n, (program₁.run fetcher fuel n).Alike (program₂.run fetcher fuel n)) := by
  have hsame (l : Location) := Machine.assemble_congr h₁ h₂ htokens m l
  have hpinned (l : Location) := (hsame l).2
  refine ⟨(hsame ⟨0, ""⟩).1, ?_⟩
  cases hend₁ : (m.assemble sources₁).1 with
  | error fault₁ =>
    cases hend₂ : (m.assemble sources₂).1 with
    | error fault₂ =>
      rw [hend₁, hend₂] at hpinned
      exact .inl ⟨fault₁, fault₂, rfl, rfl, Except.error.inj (hpinned ⟨0, ""⟩)⟩
    | ok program₂ =>
      rw [hend₁, hend₂] at hpinned
      cases hpinned ⟨0, ""⟩
  | ok program₁ =>
    cases hend₂ : (m.assemble sources₂).1 with
    | error fault₂ =>
      rw [hend₁, hend₂] at hpinned
      cases hpinned ⟨0, ""⟩
    | ok program₂ =>
      rw [hend₁, hend₂] at hpinned
      have hprogram (l : Location) :
          (program₁.relocate fun _ => l) = program₂.relocate fun _ => l :=
        Except.ok.inj (hpinned l)
      refine .inr ⟨program₁, program₂, rfl, rfl, hprogram, fun fetcher fuel n => ?_⟩
      have hrun (program : Program) := relocates_run (f := fun _ => ⟨0, ""⟩) (fun _ _ => rfl)
        fetcher program fuel n
      apply Outcome.alike_of_relocate_eq (f := fun _ => ⟨0, ""⟩)
      rw [← hrun, ← hrun, hprogram]

/-- A script in one file, and the same script spread over three with other blanks and line ends. -/
theorem spread_script_runs_alike :
    let sources₁ := [("whole.neb",
      "def Main(): # entry\n  use warns\n\n  var x = 1\n  if 1 < 2\n    print x\n  end\nend\n")]
    let sources₂ := [("head.neb", "def Main ( ) :\r\nuse warns\r\nvar x=1"),
      ("middle.neb", "# the test\n\n\nif 1<2 "), ("tail.neb", "print x\nend\nend")]
    SourceLine.Scan sources₁ ∧ SourceLine.Scan sources₂ ∧
      SourceLine.tokenLines sources₁ = SourceLine.tokenLines sources₂ ∧
      ∃ program₁ program₂, (({} : Machine).assemble sources₁).1 = .ok program₁ ∧
        (({} : Machine).assemble sources₂).1 = .ok program₂ ∧
        (program₁.run (fun _ _ => {}) 9 {}).machine.output =
          [Warning.constantCondition.toLine ⟨5, "whole.neb"⟩, "1"] ∧
        (program₂.run (fun _ _ => {}) 9 {}).machine.output =
          [Warning.constantCondition.toLine ⟨7, "middle.neb"⟩, "1"] ∧
        (program₁.run (fun _ _ => {}) 9 {}).Alike (program₂.run (fun _ _ => {}) 9 {}) := by
  intro sources₁ sources₂
  have h₁ : SourceLine.Scan sources₁ := by decide +kernel
  have h₂ : SourceLine.Scan sources₂ := by decide +kernel
  have htokens : SourceLine.tokenLines sources₁ = SourceLine.tokenLines sources₂ := by
    decide +kernel
  let run (sources : List (String × String)) : Option (List String) :=
    match (({} : Machine).assemble sources).1 with
    | .ok program => some (program.run (fun _ _ => {}) 9 {}).machine.output
    | .error _ => none
  have hrun₁ : run sources₁ = some [Warning.constantCondition.toLine ⟨5, "whole.neb"⟩, "1"] := by
    decide +kernel
  have hrun₂ : run sources₂ = some [Warning.constantCondition.toLine ⟨7, "middle.neb"⟩, "1"] := by
    decide +kernel
  obtain ⟨-, ⟨fault₁, fault₂, hfailed, -⟩ | ⟨program₁, program₂, hok₁, hok₂, -, halike⟩⟩ :=
    layout_is_irrelevant h₁ h₂ htokens {}
  · simp only [run, hfailed] at hrun₁
    cases hrun₁
  · simp only [run, hok₁, Option.some.injEq] at hrun₁
    simp only [run, hok₂, Option.some.injEq] at hrun₂
    exact ⟨h₁, h₂, htokens, program₁, program₂, hok₁, hok₂, hrun₁, hrun₂, halike _ _ _⟩

end ApiScript
