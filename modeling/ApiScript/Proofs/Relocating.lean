import ApiScript.Proofs.LocalChanges
import ApiScript.Proofs.Relocation
import Mathlib.Data.List.Forall2

/-!
# Runs with other locations

Running never looks at a location but to write it into warnings and faults. So a program whose
locations are changed, on a machine whose journal and statement at hand are changed alike, runs as
the program does, with the locations in its end changed.
-/
namespace ApiScript

/-- The number and the file of a location are changed each on its own. -/
def Location.Separates (f : Location → Location) : Prop :=
  ∀ l l' : Location, f ⟨l.line, l'.file⟩ = ⟨(f l).line, (f l').file⟩

def Event.relocate (f : Location → Location) : Event → Event
  | .warned w l => .warned w (f l)
  | e => e

theorem Event.call?_relocate (f : Location → Location) (e : Event) :
    (e.relocate f).call? = e.call? := by
  cases e <;> rfl

theorem Event.eq_or_warned_of_relocate_eq {f : Location → Location} {e₁ e₂ : Event}
    (h : e₁.relocate f = e₂.relocate f) :
    e₁ = e₂ ∨ ∃ w l₁ l₂, e₁ = .warned w l₁ ∧ e₂ = .warned w l₂ ∧ f l₁ = f l₂ := by
  cases e₁ with
  | warned w l₁ =>
    cases e₂ with
    | warned w' l₂ =>
      obtain ⟨rfl, hl⟩ := Event.warned.inj h
      exact .inr ⟨w, l₁, l₂, rfl, rfl, hl⟩
    | _ => cases h
  | _ =>
    cases e₂ with
    | warned w' l₂ => cases h
    | _ => exact .inl h

/-- Journals that differ in locations only print the same lines but for the locations. -/
theorem forall₂_line_of_relocate_eq {f : Location → Location} {R : String → String → Prop}
    (hsame : ∀ text, R text text)
    (hwarned : ∀ (w : Warning) l₁ l₂, f l₁ = f l₂ → R (w.toLine l₁) (w.toLine l₂))
    {es₁ es₂ : List Event} (h : es₁.map (Event.relocate f) = es₂.map (Event.relocate f)) :
    List.Forall₂ R (es₁.filterMap Event.line?) (es₂.filterMap Event.line?) := by
  induction es₁ generalizing es₂ with
  | nil =>
    cases es₂ with
    | nil => exact .nil
    | cons e₂ rest₂ => cases h
  | cons e₁ rest₁ ih =>
    cases es₂ with
    | nil => cases h
    | cons e₂ rest₂ =>
      obtain ⟨hfirst, hrest⟩ := List.cons.inj h
      rcases Event.eq_or_warned_of_relocate_eq hfirst with rfl | ⟨w, l₁, l₂, rfl, rfl, hl⟩
      · cases hline : e₁.line? with
        | none =>
          rw [List.filterMap_cons_none hline, List.filterMap_cons_none hline]
          exact ih hrest
        | some text =>
          rw [List.filterMap_cons_some hline, List.filterMap_cons_some hline]
          exact .cons (hsame text) (ih hrest)
      · exact .cons (hwarned w l₁ l₂ hl) (ih hrest)

def Fault.relocate (f : Location → Location) (fault : Fault) : Fault :=
  ⟨fault.cause, fault.location.map f⟩

namespace Machine

def relocate (f : Location → Location) (m : Machine) : Machine :=
  { m with location := f m.location, journal := m.journal.map (Event.relocate f) }

theorem record_relocate (f : Location → Location) (m : Machine) (e : Event) :
    (m.relocate f).record (e.relocate f) = (m.record e).relocate f := by
  simp [relocate, record]

@[simp]
theorem calls_relocate (f : Location → Location) (m : Machine) :
    (m.relocate f).calls = m.calls := by
  have hcall : Event.call? ∘ Event.relocate f = Event.call? := funext (Event.call?_relocate f)
  rw [calls, relocate, Array.toList_map, List.filterMap_map, hcall, calls]

end Machine

def Outcome.relocate {α : Type} (f : Location → Location) : Outcome α → Outcome α
  | .done a m => .done a (m.relocate f)
  | .failed fault m => .failed (fault.relocate f) (m.relocate f)
  | .unfinished m => .unfinished (m.relocate f)

theorem Outcome.forall₂_output_of_relocate_eq {α : Type} {f : Location → Location}
    {R : String → String → Prop} (hsame : ∀ text, R text text)
    (hwarned : ∀ (w : Warning) l₁ l₂, f l₁ = f l₂ → R (w.toLine l₁) (w.toLine l₂))
    {o₁ o₂ : Outcome α} (h : (o₁.relocate f).machine.journal = (o₂.relocate f).machine.journal) :
    List.Forall₂ R o₁.machine.output o₂.machine.output := by
  have hjournal (o : Outcome α) : (o.relocate f).machine.journal.toList =
      o.machine.journal.toList.map (Event.relocate f) := by
    cases o <;> exact Array.toList_map
  have hevents := congrArg Array.toList h
  rw [hjournal, hjournal] at hevents
  exact forall₂_line_of_relocate_eq hsame hwarned hevents

namespace Run

variable {α β : Type} {f : Location → Location}

/-- Where all that happened is elsewhere, the second computation ends as the first one does, but
elsewhere. -/
def Relocates (f : Location → Location) (x y : Run α) : Prop :=
  ∀ m, y (m.relocate f) = (x m).relocate f

namespace Relocates

theorem pure (a : α) : Relocates f (Pure.pure a) (Pure.pure a) := fun _ => rfl

theorem bind {x y : Run α} {g h : α → Run β} (hx : Relocates f x y)
    (hg : ∀ a, Relocates f (g a) (h a)) : Relocates f (x >>= g) (y >>= h) := by
  intro m
  rw [bind_apply, bind_apply, hx m]
  cases x m with
  | done a m₁ => exact hg a m₁
  | failed fault m₁ => rfl
  | unfinished m₁ => rfl

/-- A computation that looks at the machine, but not at locations. -/
theorem look {g h : Machine → Run α} (hh : ∀ m, h (m.relocate f) = h m)
    (hg : ∀ m, Relocates f (g m) (h m)) : Relocates f (machine >>= g) (machine >>= h) := by
  intro m
  have hlook : (machine >>= h) (m.relocate f) = h (m.relocate f) (m.relocate f) := rfl
  rw [hlook, hh]
  exact hg m m

theorem raise (cause : Cause) : Relocates f (Run.raise cause : Run α) (Run.raise cause) :=
  fun _ => rfl

theorem unfinished : Relocates f (Run.unfinished : Run α) Run.unfinished := fun _ => rfl

theorem lift (x : Except Cause α) : Relocates f (Run.lift x) (Run.lift x) := by
  cases x with
  | ok a => exact pure a
  | error cause => exact raise cause

theorem modify {g h : Machine → Machine} (hg : ∀ m, h (m.relocate f) = (g m).relocate f) :
    Relocates f (Run.modify g) (Run.modify h) := by
  intro m
  exact congrArg (Outcome.done ()) (hg m)

theorem onStore (g : Store → Except Cause Store) :
    Relocates f (Run.onStore g) (Run.onStore g) := by
  intro m
  have hstore : (m.relocate f).store = m.store := rfl
  unfold Run.onStore
  rw [hstore]
  cases g m.store with
  | ok store => rfl
  | error cause => rfl

/-- A fault that has a location keeps it. -/
theorem locating (location : Location) {x y : Run α} (hx : Relocates f x y) :
    Relocates f (Run.locating location x) (Run.locating (f location) y) := by
  intro m
  unfold Run.locating
  rw [hx m]
  cases x m with
  | done a m₁ => rfl
  | failed fault m₁ =>
    obtain ⟨cause, place⟩ := fault
    cases place with
    | none => rfl
    | some place => rfl
  | unfinished m₁ => rfl

theorem andNext {x y : Run Unit} (hx : Relocates f x y) :
    Relocates f (Run.andNext x) (Run.andNext y) :=
  hx.bind fun _ => .pure _

end Relocates

theorem relocates_lookup (name : String) : Relocates f (lookup name) (lookup name) :=
  .look (fun _ => rfl) fun _ => .lift _

theorem relocates_resolve (operand : Operand) :
    Relocates f (resolve operand) (resolve operand) := by
  cases operand with
  | name text => exact (relocates_lookup text).bind fun _ => .pure _
  | number text => exact .pure _
  | literal text => exact .pure _

theorem relocates_resolveAll (operands : List Operand) :
    Relocates f (resolveAll operands) (resolveAll operands) := by
  induction operands with
  | nil => exact .pure _
  | cons operand rest ih => exact (relocates_resolve operand).bind fun _ => ih.bind fun _ => .pure _

theorem relocates_declare (target : String) (value : Value) (constant : Bool)
    (status : Option Nat) :
    Relocates f (declare target value constant status) (declare target value constant status) :=
  .look (fun _ => rfl) fun _ => .onStore _

/-- An event that names no location is the same at each. -/
theorem relocates_record {e : Event} (h : e.relocate f = e) :
    Relocates f (modify fun m => m.record e) (modify fun m => m.record e) := by
  refine .modify fun m => ?_
  rw [← Machine.record_relocate, h]

/-- A warning names the location of the statement at hand, which is changed too. -/
theorem relocates_warn (w : Warning) : Relocates f (warn w) (warn w) := by
  refine .modify fun m => ?_
  have hmodes : (m.relocate f).modes = m.modes := rfl
  rw [hmodes]
  split
  · exact Machine.record_relocate f m (.warned w m.location)
  · rfl

theorem relocates_warnUnless (well : Bool) (w : Warning) :
    Relocates f (warnUnless well w) (warnUnless well w) := by
  cases well with
  | true => exact .pure _
  | false => exact relocates_warn w

theorem relocates_test (condition : Condition) : Relocates f (test condition) (test condition) := by
  refine .look (fun _ => rfl) fun m => ?_
  cases condition.test with
  | succeeded => exact .pure _
  | declared name => exact .pure _
  | compares lhs op rhs =>
    refine (relocates_resolve lhs).bind fun _ => (relocates_resolve rhs).bind fun _ => ?_
    exact (relocates_warnUnless _ _).bind fun _ => (Relocates.lift _).bind fun _ => .pure _

theorem relocates_bindStatus (target reference : String) :
    Relocates f (bindStatus target reference) (bindStatus target reference) := by
  have hstatus : Relocates f (statusOf reference) (statusOf reference) := by
    refine .look (fun _ => rfl) fun m => ?_
    split
    · exact .pure _
    · exact (relocates_lookup reference).bind fun _ => .pure _
  refine hstatus.bind fun status => ?_
  cases status with
  | none => exact .raise _
  | some code => exact relocates_declare _ _ _ _

theorem relocates_fetch (fetcher : Fetcher) (target reference : String) :
    Relocates f (fetch fetcher target reference) (fetch fetcher target reference) := by
  have hnote (call : FetchCall) (response : Response) :
      Relocates f (noteFetch reference call response) (noteFetch reference call response) := by
    refine .modify fun m => ?_
    simp [Machine.relocate, Machine.record, Event.relocate]
  refine .look ?_ fun m => (Relocates.lift _).bind fun request => (hnote _ _).bind fun _ => ?_
  · intro m
    rw [Machine.calls_relocate]
    rfl
  · split
    · exact .raise _
    · exact (relocates_warnUnless _ _).bind fun _ => relocates_declare _ _ _ _

theorem relocates_register (request : Request) :
    Relocates f (register request) (register request) := by
  have hresolve : Relocates f (resolveEndpoint request) (resolveEndpoint request) := by
    unfold resolveEndpoint
    split
    · exact .pure _
    · exact (relocates_lookup _).bind fun _ => .pure _
  refine hresolve.bind fun resolved => (relocates_warnUnless _ _).bind fun _ => ?_
  refine (Relocates.onStore _).bind fun _ => .modify fun m => ?_
  simp [Machine.relocate, Machine.record, Event.relocate]

theorem relocates_use (mode : Mode) : Relocates f (use mode) (use mode) := by
  cases mode with
  | debug => exact .modify fun _ => rfl
  | scope => exact .modify fun _ => rfl
  | warns =>
    refine .look (fun _ => rfl) fun m => ?_
    split
    · exact .raise _
    · exact .modify fun _ => rfl

theorem relocates_readLine : Relocates f readLine readLine := by
  intro m
  have hinput : (m.relocate f).input = m.input := rfl
  unfold readLine
  rw [hinput]
  rcases InputLine.read m.input with ⟨result, rest⟩
  cases result with
  | ok line => rfl
  | error cause => rfl

theorem relocates_leave (operand : Option Operand) :
    Relocates f (leave operand) (leave operand) := by
  cases operand with
  | none => exact .pure _
  | some operand =>
    refine (relocates_resolve operand).bind fun value => .look (fun _ => rfl) fun m => ?_
    cases m.returns with
    | none => exact .modify fun _ => rfl
    | some kind =>
      dsimp only
      split
      · exact .modify fun _ => rfl
      · exact .raise _

theorem relocates_charAt (target source : String) (position : Nat) :
    Relocates f (charAt target source position) (charAt target source position) := by
  refine (relocates_lookup source).bind fun symbol => ?_
  cases symbol.value.kind with
  | num => exact .raise _
  | str =>
    dsimp only
    split
    · exact .raise _
    · exact relocates_declare _ _ _ _

theorem relocates_step (target : String) (delta : Int) :
    Relocates f (step target delta) (step target delta) := by
  refine (relocates_lookup target).bind fun symbol => ?_
  cases symbol.value.kind with
  | str => exact .raise _
  | num =>
    dsimp only
    split
    · exact .raise _
    · exact (Relocates.lift _).bind fun _ => .onStore _

theorem relocates_builtin (builtin : Builtin) (args : List Value) :
    Relocates f (builtin.call args) (builtin.call args) := by
  have hline : Relocates f (readLine >>= fun line => pure (some (Value.string line)))
      (readLine >>= fun line => pure (some (Value.string line))) :=
    relocates_readLine.bind fun _ => .pure _
  by_cases hinput : builtin = .input
  · rw [hinput]
    change Relocates f (Builtin.promptAndRead args) (Builtin.promptAndRead args)
    unfold Builtin.promptAndRead
    split
    · exact hline
    · exact (relocates_record rfl).bind fun _ => hline
    · exact .raise _
  · obtain ⟨result, hresult⟩ := builtin_eq_lift hinput args
    rw [hresult]
    exact .lift result

/-- The statement that a `return` keeps from being reached has moved too. -/
theorem relocates_warnUnreachable (rest : List Statement) :
    Relocates f (warnUnreachable rest) (warnUnreachable (Statement.relocateAll f rest)) := by
  cases rest with
  | nil => exact .pure _
  | cons next rest =>
    obtain ⟨i, place, body, alt⟩ := next
    refine .bind (.modify fun _ => rfl) fun _ => ?_
    exact .look (fun _ => rfl) fun _ => relocates_warn _

section Blocks

variable {exec exec' : Statement → Run Flow}

theorem relocates_block (hexec : ∀ s, Relocates f (exec s) (exec' (s.relocate f)))
    (statements : List Statement) :
    Relocates f (block exec statements)
      (block exec' (Statement.relocateAll f statements)) := by
  induction statements with
  | nil => exact .pure _
  | cons s rest ih =>
    refine (hexec s).bind fun flow => ?_
    cases flow with
    | next => exact ih
    | leave => exact (relocates_warnUnreachable rest).bind fun _ => .pure _

theorem relocates_repeatWhile {holds holds' : Run Bool} {body body' : Run Flow}
    (hholds : Relocates f holds holds') (hbody : Relocates f body body') (fuel : Nat) :
    Relocates f (repeatWhile holds body fuel) (repeatWhile holds' body' fuel) := by
  induction fuel with
  | zero => exact .unfinished
  | succ fuel ih =>
    refine hholds.bind fun again => ?_
    cases again with
    | false => exact .pure _
    | true =>
      refine hbody.bind fun flow => ?_
      cases flow with
      | next => exact ih
      | leave => exact .pure _

theorem purgeScope_relocate (m : Machine) :
    purgeScope (m.relocate f) = (purgeScope m).relocate f := by
  have hmodes : (m.relocate f).modes = m.modes := rfl
  unfold purgeScope
  rw [hmodes]
  split
  · rfl
  · rfl

theorem relocates_nested {x y : Run Flow} (hx : Relocates f x y) :
    Relocates f (nested x) (nested y) := by
  refine .bind (.modify fun _ => rfl) fun _ => hx.bind fun flow => ?_
  refine .bind (.modify fun m => ?_) fun _ => .pure flow
  exact purgeScope_relocate { m with depth := m.depth - 1 }

theorem relocates_branch (hexec : ∀ s, Relocates f (exec s) (exec' (s.relocate f)))
    (condition : Condition) (body alt : List Statement) :
    Relocates f (branch exec condition body alt) (branch exec' condition
      (Statement.relocateAll f body) (Statement.relocateAll f alt)) := by
  refine relocates_nested ((relocates_test condition).bind fun holds => ?_)
  cases holds with
  | true => exact relocates_block hexec body
  | false => exact relocates_block hexec alt

theorem relocates_bindParams (depth : Nat) (bindings : List (String × Value)) :
    Relocates f (bindParams depth bindings) (bindParams depth bindings) := by
  induction bindings with
  | nil => exact .pure _
  | cons binding rest ih => exact (Relocates.onStore _).bind fun _ => ih

theorem relocates_openFrame (name : String) (params : List String) (args : List Value)
    (returns : Option Kind) :
    Relocates f (openFrame name params args returns) (openFrame name params args returns) := by
  refine .look (fun _ => rfl) fun caller => .bind (.modify fun _ => rfl) fun _ => ?_
  exact (relocates_bindParams _ _).bind fun _ => .modify fun _ => rfl

theorem relocates_leaveFunction (returns : Option Kind) :
    Relocates f (leaveFunction returns) (leaveFunction returns) := by
  refine .modify fun m => ?_
  have hcallers : (m.relocate f).callers = m.callers := rfl
  rw [hcallers]
  cases m.callers with
  | nil => rfl
  | cons caller rest => rfl

theorem relocates_activate (hexec : ∀ s, Relocates f (exec s) (exec' (s.relocate f)))
    (name : String) (params : List String) (args : List Value) (returns : Option Kind)
    (body : List Statement) :
    Relocates f (activate exec name params args returns body)
      (activate exec' name params args returns (Statement.relocateAll f body)) := by
  refine .look (fun _ => rfl) fun caller => (relocates_openFrame _ _ _ _).bind fun _ => ?_
  refine (relocates_block hexec body).bind fun _ => (relocates_leaveFunction _).bind fun _ => ?_
  exact .onStore _

end Blocks

theorem function?_relocate (f : Location → Location) (program : Program) (name : String) :
    (program.relocate f).function? name = (program.function? name).map (Statement.relocate f) := by
  obtain ⟨statements⟩ := program
  unfold Program.function? Program.relocate
  dsimp only
  induction statements with
  | nil => rfl
  | cons s rest ih =>
    have hdefines : Program.defines name (s.relocate f) = Program.defines name s := by
      simp [Program.defines]
    rw [Statement.relocateAll, List.find?_cons, List.find?_cons, hdefines, ih]
    cases Program.defines name s with
    | true => rfl
    | false => rfl

section Calls

variable {program : Program} {exec exec' : Statement → Run Flow}

theorem relocates_callFunction (hexec : ∀ s, Relocates f (exec s) (exec' (s.relocate f)))
    (name : String) (args : List Value) :
    Relocates f (callFunction program exec name args)
      (callFunction (program.relocate f) exec' name args) := by
  refine .look (fun _ => rfl) fun m => (Relocates.lift _).bind fun params => ?_
  rw [function?_relocate]
  cases program.function? name with
  | none => exact .raise _
  | some function =>
    obtain ⟨i, place, body, alt⟩ := function
    dsimp only [Option.map]
    split
    · exact .raise _
    · split
      · exact .raise _
      · exact relocates_activate hexec _ _ _ _ body

theorem relocates_call (hexec : ∀ s, Relocates f (exec s) (exec' (s.relocate f))) (c : Call) :
    Relocates f (call program exec c) (call (program.relocate f) exec' c) := by
  refine (relocates_resolveAll c.args).bind fun args => .look (fun _ => rfl) fun m => ?_
  cases m.builtins.get? c.name with
  | none => exact relocates_callFunction hexec c.name args
  | some builtin =>
    refine (relocates_builtin builtin args).bind fun result => ?_
    cases result with
    | none => exact .pure _
    | some value => exact .modify fun _ => rfl

theorem relocates_callInto (hexec : ∀ s, Relocates f (exec s) (exec' (s.relocate f)))
    (target : String) (c : Call) :
    Relocates f (callInto program exec target c)
      (callInto (program.relocate f) exec' target c) := by
  refine .look (fun _ => rfl) fun before => (relocates_call hexec c).bind fun _ => ?_
  refine .look (fun _ => rfl) fun after => ?_
  cases after.returned with
  | nil => exact .raise _
  | cons value rest =>
    dsimp only
    split
    · exact .raise _
    · exact .bind (.modify fun _ => rfl) fun _ => relocates_declare _ _ _ _

theorem relocates_perform (fetcher : Fetcher) (program : Program)
    (hexec : ∀ s, Relocates f (exec s) (exec' (s.relocate f))) (fuel : Nat) (s : Statement) :
    Relocates f (perform fetcher program exec fuel s)
      (perform fetcher (program.relocate f) exec' fuel (s.relocate f)) := by
  obtain ⟨i, place, body, alt⟩ := s
  unfold perform Statement.relocate
  cases i with
  | define signature => exact .pure _
  | assign target value constant =>
    exact .andNext ((relocates_resolve value).bind fun _ => relocates_declare _ _ _ _)
  | branch condition => exact relocates_branch hexec condition body alt
  | loop condition =>
    have hbody := relocates_block hexec body
    exact relocates_nested (relocates_repeatWhile (relocates_test condition) hbody fuel)
  | otherwise chained => exact .raise _
  | close => exact .raise _
  | delete target => exact .andNext (.onStore _)
  | status target reference => exact .andNext (relocates_bindStatus target reference)
  | fetch target reference => exact .andNext (relocates_fetch fetcher target reference)
  | request request => exact .andNext (relocates_register request)
  | use mode => exact .andNext (relocates_use mode)
  | print value => exact .andNext ((relocates_resolve value).bind fun _ => relocates_record rfl)
  | read target => exact .andNext (relocates_readLine.bind fun _ => relocates_declare _ _ _ _)
  | leave value => exact (relocates_leave value).bind fun _ => .pure _
  | call c =>
    refine .andNext (.look (fun _ => rfl) fun before => (relocates_call hexec c).bind fun _ => ?_)
    exact .modify fun _ => rfl
  | callInto target c => exact .andNext (relocates_callInto hexec target c)
  | index target source position => exact .andNext (relocates_charAt target source position)
  | increment target => exact .andNext (relocates_step target 1)
  | decrement target => exact .andNext (relocates_step target (-1))

end Calls

theorem relocates_execute (fetcher : Fetcher) (program : Program) (fuel : Nat)
    (s : Statement) :
    Relocates f (execute fetcher program fuel s)
      (execute fetcher (program.relocate f) fuel (s.relocate f)) := by
  induction fuel generalizing s with
  | zero => exact .unfinished
  | succ fuel ih =>
    have hperform := relocates_perform fetcher program ih fuel s
    obtain ⟨i, place, body, alt⟩ := s
    exact .bind (.modify fun _ => rfl) fun _ => hperform.locating place

theorem lastFile_relocate (f : Location → Location) (program : Program) (l : Location) :
    lastFile (program.relocate f) (f l).file =
      (f ((program.statements.getLast?.map Statement.location).getD l)).file := by
  unfold lastFile Program.relocate
  dsimp only
  rw [Statement.relocateAll_eq_map, List.getLast?_map]
  cases program.statements.getLast? with
  | none => rfl
  | some last => exact congrArg Location.file (Statement.location_relocate last)

theorem relocates_enterMain (hf : Location.Separates f) (program : Program) :
    Relocates f (enterMain program) (enterMain (program.relocate f)) := by
  refine .modify fun m => ?_
  let place := (program.statements.getLast?.map Statement.location).getD m.location
  have hfile : lastFile program m.location.file = place.file := by
    unfold lastFile place
    cases program.statements.getLast? with
    | none => rfl
    | some last => rfl
  have hplace : ⟨(f m.location).line, lastFile (program.relocate f) (f m.location).file⟩ =
      f ⟨m.location.line, lastFile program m.location.file⟩ := by
    rw [lastFile_relocate, hfile]
    exact (hf m.location place).symm
  change ({ m.relocate f with
    location := ⟨(f m.location).line, lastFile (program.relocate f) (f m.location).file⟩
    scope := entryFunction, returns := none, store := m.store.pushFrame } : Machine) = _
  rw [hplace]
  rfl

theorem relocates_warnUnfetched (ids : List String) :
    Relocates f (warnUnfetched ids) (warnUnfetched ids) := by
  induction ids with
  | nil => exact .pure _
  | cons id rest ih => exact (relocates_warn _).bind fun _ => ih

theorem relocates_emitAll (lines : List String) : Relocates f (emitAll lines) (emitAll lines) := by
  induction lines with
  | nil => exact .pure _
  | cons line rest ih => exact (relocates_record rfl).bind fun _ => ih

theorem relocates_dumpStore : Relocates f dumpStore dumpStore := by
  refine .look (fun _ => rfl) fun m => ?_
  split
  · exact relocates_emitAll _
  · exact .pure _

theorem relocates_leaveMain (location : Location) :
    Relocates f (leaveMain location) (leaveMain (f location)) := by
  refine .bind (.modify fun m => ?_) fun _ => ?_
  · exact purgeScope_relocate { m with location }
  · refine .look (fun _ => rfl) fun m => .bind (.modify fun _ => rfl) fun _ => ?_
    refine (relocates_warnUnfetched _).bind fun _ => relocates_dumpStore.bind fun _ => ?_
    exact .onStore _

/-- A program with its locations changed runs as the program does, elsewhere. -/
theorem relocates_run (hf : Location.Separates f) (fetcher : Fetcher) (program : Program)
    (fuel : Nat) :
    Relocates f (program.run fetcher fuel) ((program.relocate f).run fetcher fuel) := by
  unfold Program.run
  rw [function?_relocate]
  cases program.function? entryFunction with
  | none => exact .raise _
  | some main =>
    obtain ⟨i, place, body, alt⟩ := main
    refine (relocates_enterMain hf program).bind fun _ => ?_
    refine (relocates_block (relocates_execute fetcher program fuel) body).bind fun _ => ?_
    exact relocates_leaveMain place

end Run

end ApiScript
