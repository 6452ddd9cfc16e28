import ApiScript.Machine.Execution

/-!
# Fuel

More fuel never changes how a computation ends: with fewer rounds it ends in the same way or is
unfinished. So a computation with fuel has at most one end, and any two amounts of fuel that suffice
give it.
-/
namespace ApiScript

/-- Whether the computation came to an end of its own, good or bad. -/
def Outcome.isFinished {α : Type} : Outcome α → Bool
  | .unfinished _ => false
  | _ => true

namespace Run

variable {α β : Type}

/-- The second computation ends as the first one does wherever that one is finished. -/
def Extends (x y : Run α) : Prop := ∀ m, (x m).isFinished = true → y m = x m

namespace Extends

theorem refl (x : Run α) : Extends x x := fun _ _ => rfl

theorem unfinished (x : Run α) : Extends Run.unfinished x := by
  intro m h
  cases h

theorem bind {x y : Run α} {f g : α → Run β} (hx : Extends x y) (hf : ∀ a, Extends (f a) (g a)) :
    Extends (x >>= f) (y >>= g) := by
  intro m h
  rw [bind_apply] at h
  rw [bind_apply, bind_apply]
  have hm := hx m
  cases hend : x m with
  | done a m₁ =>
    rw [hend] at h hm
    rw [hm rfl]
    exact hf a m₁ h
  | failed fault m₁ =>
    rw [hend] at hm
    rw [hm rfl]
  | unfinished m₁ =>
    rw [hend] at h
    cases h

theorem locating (location : Location) {x y : Run α} (hx : Extends x y) :
    Extends (Run.locating location x) (Run.locating location y) := by
  intro m h
  have hfinished : (x m).isFinished = true := by
    unfold Run.locating at h
    cases hend : x m with
    | done a m₁ => rfl
    | failed fault m₁ => rfl
    | unfinished m₁ =>
      rw [hend] at h
      cases h
  unfold Run.locating
  rw [hx m hfinished]

end Extends

variable {exec exec' : Statement → Run Flow}

theorem extends_block (hexec : ∀ s, Extends (exec s) (exec' s)) (statements : List Statement) :
    Extends (block exec statements) (block exec' statements) := by
  induction statements with
  | nil => exact .refl _
  | cons s rest ih =>
    refine (hexec s).bind fun flow => ?_
    cases flow with
    | next => exact ih
    | leave => exact .refl _

theorem extends_repeatWhile (holds : Run Bool) {body body' : Run Flow} (hbody : Extends body body')
    {fuel fuel' : Nat} (hfuel : fuel ≤ fuel') :
    Extends (repeatWhile holds body fuel) (repeatWhile holds body' fuel') := by
  induction fuel generalizing fuel' with
  | zero => exact .unfinished _
  | succ fuel ih =>
    cases fuel' with
    | zero => omega
    | succ fuel' =>
      have hrest : fuel ≤ fuel' := by omega
      refine (Extends.refl holds).bind fun again => ?_
      cases again with
      | false => exact .refl _
      | true =>
        refine hbody.bind fun flow => ?_
        cases flow with
        | next => exact ih hrest
        | leave => exact .refl _

theorem extends_nested {x y : Run Flow} (h : Extends x y) : Extends (nested x) (nested y) :=
  (Extends.refl _).bind fun _ => h.bind fun _ => .refl _

theorem extends_activate (hexec : ∀ s, Extends (exec s) (exec' s)) (name : String)
    (params : List String) (args : List Value) (returns : Option Kind) (body : List Statement) :
    Extends (activate exec name params args returns body)
      (activate exec' name params args returns body) := by
  refine (Extends.refl _).bind fun caller => (Extends.refl _).bind fun _ => ?_
  exact (extends_block hexec body).bind fun _ => .refl _

theorem extends_callFunction (hexec : ∀ s, Extends (exec s) (exec' s)) (program : Program)
    (name : String) (args : List Value) :
    Extends (callFunction program exec name args) (callFunction program exec' name args) := by
  refine (Extends.refl _).bind fun m => (Extends.refl _).bind fun params => ?_
  cases program.function? name with
  | none => exact .refl _
  | some function =>
    dsimp only
    split
    · exact .refl _
    · split
      · exact .refl _
      · exact extends_activate hexec _ _ _ _ _

theorem extends_call (hexec : ∀ s, Extends (exec s) (exec' s)) (program : Program) (c : Call) :
    Extends (call program exec c) (call program exec' c) := by
  refine (Extends.refl _).bind fun args => (Extends.refl _).bind fun m => ?_
  cases m.builtins.get? c.name with
  | none => exact extends_callFunction hexec program c.name args
  | some builtin => exact .refl _

theorem extends_perform (fetcher : Fetcher) (program : Program)
    (hexec : ∀ s, Extends (exec s) (exec' s)) {fuel fuel' : Nat} (hfuel : fuel ≤ fuel')
    (s : Statement) :
    Extends (perform fetcher program exec fuel s) (perform fetcher program exec' fuel' s) := by
  unfold perform
  cases s.instruction with
  | branch condition =>
    exact extends_nested ((Extends.refl _).bind fun holds => extends_block hexec _)
  | loop condition =>
    exact extends_nested (extends_repeatWhile _ (extends_block hexec s.body) hfuel)
  | call c =>
    have hcall := extends_call hexec program c
    exact ((Extends.refl _).bind fun _ => hcall.bind fun _ => .refl _).bind fun _ => .refl _
  | callInto target c =>
    have hcall := extends_call hexec program c
    exact ((Extends.refl _).bind fun _ => hcall.bind fun _ => .refl _).bind fun _ => .refl _
  | _ => exact .refl _

/-- What a statement does with some fuel it does with more. -/
theorem extends_execute (fetcher : Fetcher) (program : Program) {fuel fuel' : Nat}
    (hfuel : fuel ≤ fuel') (s : Statement) :
    Extends (execute fetcher program fuel s) (execute fetcher program fuel' s) := by
  induction fuel generalizing fuel' s with
  | zero => exact .unfinished _
  | succ fuel ih =>
    cases fuel' with
    | zero => omega
    | succ fuel' =>
      have hrest : fuel ≤ fuel' := by omega
      have hperform := extends_perform fetcher program (fun s => ih hrest s) hrest s
      exact (Extends.refl _).bind fun _ => .locating _ hperform

theorem extends_run (fetcher : Fetcher) (program : Program) (fuel fuel' : Nat)
    (hfuel : fuel ≤ fuel') : Extends (program.run fetcher fuel) (program.run fetcher fuel') := by
  unfold Program.run
  cases program.function? entryFunction with
  | none => exact .refl _
  | some main =>
    have hbody := extends_block (extends_execute fetcher program hfuel) main.body
    exact (Extends.refl _).bind fun _ => hbody.bind fun _ => .refl _

def EndsIn (x : Nat → Run α) (m : Machine) (o : Outcome α) : Prop :=
  o.isFinished = true ∧ ∃ fuel, x fuel m = o

/-- Any two ends of a computation are reached with one and the same fuel. -/
theorem EndsIn.exists_common_fuel {x : Nat → Run α} {m₁ m₂ : Machine} {o₁ o₂ : Outcome α}
    (hx : ∀ fuel fuel', fuel ≤ fuel' → Extends (x fuel) (x fuel')) (h₁ : EndsIn x m₁ o₁)
    (h₂ : EndsIn x m₂ o₂) : ∃ fuel, x fuel m₁ = o₁ ∧ x fuel m₂ = o₂ := by
  obtain ⟨hfinished₁, fuel₁, rfl⟩ := h₁
  obtain ⟨hfinished₂, fuel₂, rfl⟩ := h₂
  refine ⟨max fuel₁ fuel₂, ?_, ?_⟩
  · exact hx fuel₁ _ (Nat.le_max_left _ _) m₁ hfinished₁
  · exact hx fuel₂ _ (Nat.le_max_right _ _) m₂ hfinished₂

/-- With any fuel there is one good end at most. -/
theorem eq_of_done_of_extends {x : Nat → Run α} {m m₁ m₂ : Machine} {a b : α} {fuel fuel' : Nat}
    (hx : ∀ fuel fuel', fuel ≤ fuel' → Extends (x fuel) (x fuel')) (h₁ : x fuel m = .done a m₁)
    (h₂ : x fuel' m = .done b m₂) : a = b ∧ m₁ = m₂ := by
  have hend₁ : EndsIn x m (.done a m₁) := ⟨rfl, fuel, h₁⟩
  have hend₂ : EndsIn x m (.done b m₂) := ⟨rfl, fuel', h₂⟩
  obtain ⟨_, hcommon₁, hcommon₂⟩ := hend₁.exists_common_fuel hx hend₂
  rw [hcommon₁] at hcommon₂
  cases hcommon₂
  exact ⟨rfl, rfl⟩

end Run

end ApiScript
