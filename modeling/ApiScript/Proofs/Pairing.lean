import ApiScript.Proofs.Fuel

/-!
# Two runs side by side

Two computations are paired when, begun in related states, they end in the same way: both well with
one value, both with one fault, or both unfinished. After a good end the states are related as a
postcondition says; after any other end a weaker relation holds. Pairs compose as the computations
do, so what is left to show are the steps that touch what the relation is about.
-/
namespace ApiScript

inductive Outcome.Agree {α : Type} (weak post : Machine → Machine → Prop) :
    Outcome α → Outcome α → Prop
  | done (a : α) {m₁ m₂ : Machine} (h : post m₁ m₂) : Agree weak post (.done a m₁) (.done a m₂)
  | failed (fault : Fault) {m₁ m₂ : Machine} (h : weak m₁ m₂) :
    Agree weak post (.failed fault m₁) (.failed fault m₂)
  | unfinished {m₁ m₂ : Machine} (h : weak m₁ m₂) :
    Agree weak post (.unfinished m₁) (.unfinished m₂)

theorem Outcome.Agree.machine {α : Type} {rel : Machine → Machine → Prop} {o₁ o₂ : Outcome α}
    (h : Agree rel rel o₁ o₂) : rel o₁.machine o₂.machine := by
  cases h with
  | done a h => exact h
  | failed fault h => exact h
  | unfinished h => exact h

theorem Outcome.Agree.isFinished_eq {α : Type} {weak post : Machine → Machine → Prop}
    {o₁ o₂ : Outcome α} (h : Agree weak post o₁ o₂) : o₁.isFinished = o₂.isFinished := by
  cases h with
  | done => rfl
  | failed => rfl
  | unfinished => rfl

/-- A postcondition may use that both computations ended well. -/
theorem Outcome.Agree.of_done {α : Type} {weak post post' : Machine → Machine → Prop}
    {o₁ o₂ : Outcome α} (h : Agree weak post o₁ o₂)
    (hpost : ∀ a m₁ m₂, o₁ = .done a m₁ → o₂ = .done a m₂ → post m₁ m₂ → post' m₁ m₂) :
    Agree weak post' o₁ o₂ := by
  cases h with
  | done a h => exact .done a (hpost a _ _ rfl rfl h)
  | failed fault h => exact .failed fault h
  | unfinished h => exact .unfinished h

namespace Run

variable {α β : Type} {weak pre mid post : Machine → Machine → Prop}

/-- From states that the precondition relates, both computations end in the same way. -/
def Pairs (weak pre : Machine → Machine → Prop) (x y : Run α)
    (post : Machine → Machine → Prop) : Prop :=
  ∀ m₁ m₂, pre m₁ m₂ → Outcome.Agree weak post (x m₁) (y m₂)

/-- What follows may use how the first computations ended. -/
theorem agree_bind {x y : Run α} {f g : α → Run β} {m₁ m₂ : Machine}
    (hx : Outcome.Agree weak mid (x m₁) (y m₂))
    (hf : ∀ a m₁' m₂', x m₁ = .done a m₁' → mid m₁' m₂' →
      Outcome.Agree weak post (f a m₁') (g a m₂')) :
    Outcome.Agree weak post ((x >>= f) m₁) ((y >>= g) m₂) := by
  rw [bind_apply, bind_apply]
  revert hx hf
  generalize x m₁ = o₁
  generalize y m₂ = o₂
  intro hx hf
  cases hx with
  | done a h => exact hf a _ _ rfl h
  | failed fault h => exact .failed fault h
  | unfinished h => exact .unfinished h

theorem agree_locating (location : Location) {x y : Run α} {m₁ m₂ : Machine}
    (hx : Outcome.Agree weak post (x m₁) (y m₂)) :
    Outcome.Agree weak post (locating location x m₁) (locating location y m₂) := by
  unfold locating
  revert hx
  generalize x m₁ = o₁
  generalize y m₂ = o₂
  intro hx
  cases hx with
  | done a h => exact .done a h
  | failed fault h => exact .failed (fault.locate location) h
  | unfinished h => exact .unfinished h

namespace Pairs

theorem pure (a : α) : Pairs weak pre (Pure.pure a) (Pure.pure a) pre :=
  fun _ _ h => .done a h

theorem bind {x y : Run α} {f g : α → Run β} (hx : Pairs weak pre x y mid)
    (hf : ∀ a, Pairs weak mid (f a) (g a) post) : Pairs weak pre (x >>= f) (y >>= g) post := by
  intro m₁ m₂ h
  exact agree_bind (hx m₁ m₂ h) fun a m₁' m₂' _ hmid => hf a m₁' m₂' hmid

/-- A computation that looks at the machine first may go on differently on both sides. -/
theorem look {f g : Machine → Run α}
    (h : ∀ m₁ m₂, pre m₁ m₂ → Outcome.Agree weak post (f m₁ m₁) (g m₂ m₂)) :
    Pairs weak pre (machine >>= f) (machine >>= g) post := h

theorem raise (hweak : ∀ m₁ m₂, pre m₁ m₂ → weak m₁ m₂) (cause : Cause) :
    Pairs weak pre (Run.raise cause : Run α) (Run.raise cause) post :=
  fun m₁ m₂ h => .failed ⟨cause, none⟩ (hweak m₁ m₂ h)

theorem unfinished (hweak : ∀ m₁ m₂, pre m₁ m₂ → weak m₁ m₂) :
    Pairs weak pre (Run.unfinished : Run α) Run.unfinished post :=
  fun m₁ m₂ h => .unfinished (hweak m₁ m₂ h)

theorem lift (hweak : ∀ m₁ m₂, pre m₁ m₂ → weak m₁ m₂) (x : Except Cause α) :
    Pairs weak pre (Run.lift x) (Run.lift x) pre := by
  cases x with
  | ok a => exact pure a
  | error cause => exact raise hweak cause

theorem modify {f g : Machine → Machine} (h : ∀ m₁ m₂, pre m₁ m₂ → post (f m₁) (g m₂)) :
    Pairs weak pre (Run.modify f) (Run.modify g) post :=
  fun m₁ m₂ hm => .done () (h m₁ m₂ hm)

theorem onStore {f g : Store → Except Cause Store}
    (h : ∀ m₁ m₂, pre m₁ m₂ →
      (∃ cause, f m₁.store = .error cause ∧ g m₂.store = .error cause ∧ weak m₁ m₂) ∨
      ∃ s₁ s₂, f m₁.store = .ok s₁ ∧ g m₂.store = .ok s₂ ∧
        post { m₁ with store := s₁ } { m₂ with store := s₂ }) :
    Pairs weak pre (Run.onStore f) (Run.onStore g) post := by
  intro m₁ m₂ hm
  unfold Run.onStore
  rcases h m₁ m₂ hm with ⟨cause, hf, hg, hweak⟩ | ⟨s₁, s₂, hf, hg, hpost⟩
  · rw [hf, hg]
    exact .failed ⟨cause, none⟩ hweak
  · rw [hf, hg]
    exact .done () hpost

theorem locating (location : Location) {x y : Run α} (hx : Pairs weak pre x y post) :
    Pairs weak pre (Run.locating location x) (Run.locating location y) post :=
  fun m₁ m₂ h => agree_locating location (hx m₁ m₂ h)

end Pairs

theorem pairs_repeatWhile (hweak : ∀ m₁ m₂, pre m₁ m₂ → weak m₁ m₂) {holds holds' : Run Bool}
    {body body' : Run Flow} (hholds : Pairs weak pre holds holds' pre)
    (hbody : Pairs weak pre body body' pre) (fuel : Nat) :
    Pairs weak pre (repeatWhile holds body fuel) (repeatWhile holds' body' fuel) pre := by
  induction fuel with
  | zero => exact .unfinished hweak
  | succ fuel ih =>
    refine hholds.bind fun again => ?_
    cases again with
    | false => exact .pure _
    | true =>
      refine hbody.bind fun flow => ?_
      cases flow with
      | next => exact ih
      | leave => exact .pure _

theorem pairs_block {exec exec' : Statement → Run Flow}
    (hexec : ∀ s, Pairs weak pre (exec s) (exec' s) pre)
    (hwarn : ∀ rest, Pairs weak pre (warnUnreachable rest) (warnUnreachable rest) pre)
    (statements : List Statement) :
    Pairs weak pre (block exec statements) (block exec' statements) pre := by
  induction statements with
  | nil => exact .pure _
  | cons s rest ih =>
    refine (hexec s).bind fun flow => ?_
    cases flow with
    | next => exact ih
    | leave => exact (hwarn rest).bind fun _ => .pure _

/-- Computations that are paired with any fuel come to an end together. -/
theorem exists_endsIn_iff {x y : Nat → Run α} {m₁ m₂ : Machine}
    (h : ∀ fuel, Outcome.Agree weak post (x fuel m₁) (y fuel m₂)) :
    (∃ o, EndsIn x m₁ o) ↔ ∃ o, EndsIn y m₂ o := by
  constructor
  · rintro ⟨o, hfinished, fuel, rfl⟩
    exact ⟨_, (h fuel).isFinished_eq ▸ hfinished, fuel, rfl⟩
  · rintro ⟨o, hfinished, fuel, rfl⟩
    exact ⟨_, (h fuel).isFinished_eq ▸ hfinished, fuel, rfl⟩

end Run

end ApiScript
