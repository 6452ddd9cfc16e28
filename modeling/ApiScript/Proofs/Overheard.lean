import ApiScript.Proofs.LocalChanges
import ApiScript.Proofs.Pairing

/-!
# Machines that warn

A machine that is asked for warnings beside one that need not be: all else is the same, and the
journal of the first is that of the other with warnings added. A statement that executes no other
one keeps two such machines so, as long as every response has a body.
-/
namespace ApiScript

inductive Annotated : Array Event → Array Event → Prop
  | refl (journal : Array Event) : Annotated journal journal
  | push {journal annotated : Array Event} (e : Event) :
    Annotated journal annotated → Annotated (journal.push e) (annotated.push e)
  | warned {journal annotated : Array Event} (w : Warning) (location : Location) :
    Annotated journal annotated → Annotated journal (annotated.push (.warned w location))

inductive WarningsAdded : List String → List String → Prop
  | nil : WarningsAdded [] []
  | line {plain annotated : List String} (text : String) :
    WarningsAdded plain annotated → WarningsAdded (text :: plain) (text :: annotated)
  | warning {plain annotated : List String} (w : Warning) (location : Location) :
    WarningsAdded plain annotated → WarningsAdded plain (w.toLine location :: annotated)

namespace WarningsAdded

theorem refl : (lines : List String) → WarningsAdded lines lines
  | [] => .nil
  | text :: lines => .line text (refl lines)

theorem append {plain annotated plain' annotated' : List String}
    (h : WarningsAdded plain annotated) (h' : WarningsAdded plain' annotated') :
    WarningsAdded (plain ++ plain') (annotated ++ annotated') := by
  induction h with
  | nil => exact h'
  | line text _ ih => exact .line text ih
  | warning w location _ ih => exact .warning w location ih

end WarningsAdded

namespace Annotated

variable {journal annotated : Array Event}

theorem calls_eq (h : Annotated journal annotated) :
    annotated.toList.filterMap Event.call? = journal.toList.filterMap Event.call? := by
  induction h with
  | refl journal => rfl
  | push e _ ih => simp [ih]
  | warned w location _ ih =>
    rw [Array.toList_push, List.filterMap_append, ih]
    exact List.append_nil _

theorem warningsAdded (h : Annotated journal annotated) :
    WarningsAdded (journal.toList.filterMap Event.line?)
      (annotated.toList.filterMap Event.line?) := by
  induction h with
  | refl journal => exact .refl _
  | push e _ ih =>
    rw [Array.toList_push, Array.toList_push, List.filterMap_append, List.filterMap_append]
    exact ih.append (.refl _)
  | warned w location _ ih =>
    have hadded := ih.append (.warning w location .nil)
    rw [List.append_nil] at hadded
    rw [Array.toList_push, List.filterMap_append]
    exact hadded

end Annotated

def Machine.warning (m : Machine) (journal : Array Event) : Machine :=
  { m with modes := { m.modes with warns := true }, journal }

def Overheard (m₁ m₂ : Machine) : Prop :=
  ∃ journal, Annotated m₁.journal journal ∧ m₂ = m₁.warning journal

theorem Overheard.calls {m₁ m₂ : Machine} (h : Overheard m₁ m₂) : m₂.calls = m₁.calls := by
  obtain ⟨journal, hjournal, rfl⟩ := h
  exact hjournal.calls_eq

theorem Overheard.output {m₁ m₂ : Machine} (h : Overheard m₁ m₂) :
    WarningsAdded m₁.output m₂.output := by
  obtain ⟨journal, hjournal, rfl⟩ := h
  exact hjournal.warningsAdded

namespace Run

variable {α : Type}

def Unswayed (x : Run α) : Prop := Pairs Overheard Overheard x x Overheard

theorem unswayed_raise (cause : Cause) : Unswayed (raise cause : Run α) :=
  .raise (fun _ _ h => h) cause

theorem unswayed_lift (x : Except Cause α) : Unswayed (lift x) := .lift (fun _ _ h => h) x

theorem unswayed_modify {f : Machine → Machine}
    (hf : ∀ m journal, f (m.warning journal) = (f m).warning journal)
    (hjournal : ∀ m, (f m).journal = m.journal) : Unswayed (modify f) := by
  refine .modify ?_
  rintro m _ ⟨journal, h, rfl⟩
  exact ⟨journal, by rwa [hjournal], hf m journal⟩

theorem unswayed_record {f : Machine → Machine} {e : Event}
    (hf : ∀ m journal, f (m.warning journal) = (f m).warning (journal.push e))
    (hjournal : ∀ m, (f m).journal = m.journal.push e) : Unswayed (modify f) := by
  refine .modify ?_
  rintro m _ ⟨journal, h, rfl⟩
  exact ⟨journal.push e, by rw [hjournal]; exact h.push e, hf m journal⟩

/-- A computation that looks at neither the modes nor the journal goes on in the same way. -/
theorem unswayed_look {f : Machine → Run α} (hf : ∀ m journal, f (m.warning journal) = f m)
    (h : ∀ m, Unswayed (f m)) : Unswayed (machine >>= f) := by
  refine .look ?_
  rintro m _ ⟨journal, hjournal, rfl⟩
  rw [hf]
  exact h m _ _ ⟨journal, hjournal, rfl⟩

theorem unswayed_onStore (f : Store → Except Cause Store) : Unswayed (onStore f) := by
  refine .onStore ?_
  rintro m _ ⟨journal, h, rfl⟩
  cases hf : f m.store with
  | error cause => exact .inl ⟨cause, rfl, hf, journal, h, rfl⟩
  | ok store => exact .inr ⟨store, store, rfl, hf, journal, h, rfl⟩

theorem unswayed_warn (w : Warning) : Unswayed (warn w) := by
  refine .modify ?_
  rintro m _ ⟨journal, h, rfl⟩
  have hasked : (m.warning journal).modes.warns = true := rfl
  rw [if_pos hasked]
  split
  · exact ⟨_, h.push (.warned w m.location), rfl⟩
  · exact ⟨_, h.warned w m.location, rfl⟩

theorem unswayed_warnUnless (well : Bool) (w : Warning) : Unswayed (warnUnless well w) := by
  cases well with
  | true => exact .pure _
  | false => exact unswayed_warn w

theorem unswayed_lookup (name : String) : Unswayed (lookup name) :=
  unswayed_look (fun _ _ => rfl) fun _ => unswayed_lift _

theorem unswayed_resolve (operand : Operand) : Unswayed (resolve operand) := by
  cases operand with
  | name text => exact (unswayed_lookup text).bind fun _ => .pure _
  | number text => exact .pure _
  | literal text => exact .pure _

theorem unswayed_resolveAll (operands : List Operand) : Unswayed (resolveAll operands) := by
  induction operands with
  | nil => exact .pure _
  | cons operand rest ih =>
    exact (unswayed_resolve operand).bind fun _ => ih.bind fun _ => .pure _

theorem unswayed_declare (target : String) (value : Value) (constant : Bool)
    (status : Option Nat) : Unswayed (declare target value constant status) :=
  unswayed_look (fun _ _ => rfl) fun _ => unswayed_onStore _

/-- A negated test for success is made only once a fetch was answered. -/
def Answered (c : Condition) (m : Machine) : Prop :=
  c.test = .succeeded → c.negated = true → m.lastStatus ≠ none

theorem succeeded_warning {negated : Bool} {m : Machine} (journal : Array Event)
    (h : negated = true → m.lastStatus ≠ none) :
    succeeded negated (m.warning journal) = succeeded negated m := by
  obtain ⟨warns, hwarns⟩ : ∃ warns, m.modes.warns = warns := ⟨_, rfl⟩
  obtain ⟨status, hstatus⟩ : ∃ status, m.lastStatus = status := ⟨_, rfl⟩
  simp only [succeeded, Machine.warning, hwarns, hstatus]
  cases status with
  | some status => simp
  | none =>
    cases negated with
    | true => exact absurd hstatus (h rfl)
    | false => simp

theorem agree_test {c : Condition} {m₁ m₂ : Machine} (h : Overheard m₁ m₂)
    (hanswered : Answered c m₁) :
    Outcome.Agree Overheard Overheard (test c m₁) (test c m₂) := by
  obtain ⟨journal, hjournal, rfl⟩ := h
  have hover : Overheard m₁ (m₁.warning journal) := ⟨journal, hjournal, rfl⟩
  unfold Answered at hanswered
  unfold test
  rw [bind_apply, bind_apply]
  dsimp only [machine]
  cases htest : c.test with
  | succeeded =>
    dsimp only
    rw [succeeded_warning journal (hanswered htest)]
    exact .done _ hover
  | declared name => exact .done _ hover
  | compares lhs op rhs =>
    have hcompare (l r : Value) : Unswayed (do
        warnUnless (lhs.isName || rhs.isName) .constantCondition
        let holds ← lift (l.compare op r)
        pure (holds != c.negated)) :=
      (unswayed_warnUnless _ _).bind fun _ => (unswayed_lift _).bind fun _ => .pure _
    exact (unswayed_resolve lhs).bind (fun l => (unswayed_resolve rhs).bind (hcompare l)) _ _ hover

theorem unswayed_bindStatus (target reference : String) :
    Unswayed (bindStatus target reference) := by
  refine Pairs.bind (unswayed_look (fun _ _ => rfl) fun m => ?_) fun status => ?_
  · split
    · exact .pure _
    · exact (unswayed_lookup reference).bind fun _ => .pure _
  · cases status with
    | none => exact unswayed_raise _
    | some code => exact unswayed_declare _ _ _ _

def HasBodies (fetcher : Fetcher) : Prop :=
  ∀ earlier call, (fetcher earlier call).body ≠ none

theorem unswayed_fetch {fetcher : Fetcher} (hbodies : HasBodies fetcher)
    (target reference : String) : Unswayed (fetch fetcher target reference) := by
  refine .look ?_
  intro m m₂ h
  have hcalls := h.calls
  obtain ⟨journal, hjournal, rfl⟩ := h
  rw [hcalls]
  refine (unswayed_lift (m.store.request reference)).bind (fun request => ?_) _ _
    ⟨journal, hjournal, rfl⟩
  have hsome := hbodies m.calls ⟨request.method, request.endpoint, request.timeout⟩
  refine Pairs.bind (unswayed_record (fun _ _ => rfl) fun _ => rfl) fun _ => ?_
  simp only [Option.isNone_iff_eq_none, hsome, Bool.and_eq_true, false_and, if_false]
  exact (unswayed_warnUnless _ _).bind fun _ => unswayed_declare _ _ _ _

theorem unswayed_register (request : Request) : Unswayed (register request) := by
  have hresolve : Unswayed (resolveEndpoint request) := by
    unfold resolveEndpoint
    split
    · exact .pure _
    · exact (unswayed_lookup _).bind fun _ => .pure _
  refine hresolve.bind fun resolved => (unswayed_warnUnless _ _).bind fun _ => ?_
  exact (unswayed_onStore _).bind fun _ => unswayed_record (fun _ _ => rfl) fun _ => rfl

theorem unswayed_use (mode : Mode) : Unswayed (use mode) := by
  cases mode with
  | debug => exact unswayed_modify (fun _ _ => rfl) fun _ => rfl
  | scope => exact unswayed_modify (fun _ _ => rfl) fun _ => rfl
  | warns =>
    refine unswayed_look (fun _ _ => rfl) fun m => ?_
    split
    · exact unswayed_raise _
    · exact unswayed_modify (fun _ _ => rfl) fun _ => rfl

theorem unswayed_readLine : Unswayed readLine := by
  rintro m _ ⟨journal, h, rfl⟩
  unfold readLine
  simp only [Machine.warning]
  cases hread : InputLine.read m.input with
  | mk result rest =>
    cases result with
    | ok line => exact .done line ⟨journal, h, rfl⟩
    | error cause => exact .failed ⟨cause, none⟩ ⟨journal, h, rfl⟩

theorem unswayed_leave (operand : Option Operand) : Unswayed (leave operand) := by
  cases operand with
  | none => exact .pure _
  | some operand =>
    have hpush (value : Value) :
        Unswayed (modify fun m => { m with returned := value :: m.returned }) :=
      unswayed_modify (fun _ _ => rfl) fun _ => rfl
    refine (unswayed_resolve operand).bind fun value => unswayed_look (fun _ _ => rfl) fun m => ?_
    cases m.returns with
    | none => exact hpush value
    | some kind =>
      dsimp only
      split
      · exact hpush value
      · exact unswayed_raise _

theorem unswayed_charAt (target source : String) (position : Nat) :
    Unswayed (charAt target source position) := by
  refine (unswayed_lookup source).bind fun symbol => ?_
  cases symbol.value.kind with
  | num => exact unswayed_raise _
  | str =>
    dsimp only
    split
    · exact unswayed_raise _
    · exact unswayed_declare _ _ _ _

theorem unswayed_step (target : String) (delta : Int) : Unswayed (step target delta) := by
  refine (unswayed_lookup target).bind fun symbol => ?_
  cases symbol.value.kind with
  | str => exact unswayed_raise _
  | num =>
    dsimp only
    split
    · exact unswayed_raise _
    · exact (unswayed_lift _).bind fun _ => unswayed_onStore _

theorem unswayed_builtin (builtin : Builtin) (args : List Value) :
    Unswayed (builtin.call args) := by
  by_cases hinput : builtin = .input
  · rw [hinput]
    change Unswayed (Builtin.promptAndRead args)
    unfold Builtin.promptAndRead
    split
    · exact unswayed_readLine.bind fun _ => .pure _
    · refine Pairs.bind (unswayed_record (fun _ _ => rfl) fun _ => rfl) fun _ => ?_
      exact unswayed_readLine.bind fun _ => .pure _
    · exact unswayed_raise _
  · obtain ⟨result, hresult⟩ := builtin_eq_lift hinput args
    rw [hresult]
    exact unswayed_lift result

theorem unswayed_warnUnreachable (rest : List Statement) : Unswayed (warnUnreachable rest) := by
  cases rest with
  | nil => exact .pure _
  | cons next rest =>
    refine Pairs.bind (unswayed_modify (fun _ _ => rfl) fun _ => rfl) fun _ => ?_
    exact unswayed_look (fun _ _ => rfl) fun _ => unswayed_warn _

end Run

end ApiScript
