import ApiScript.Proofs.Kept

/-!
# One run after another

A computation leads another one when, begun in related states, the other ends well wherever the
first one does, with the same value and in related states. Nothing is asked where the first one
fails or is unfinished. What leads composes as the computations do.
-/
namespace ApiScript

/-- If the first ends well, so does the second, with the same value and in a related state. -/
def Outcome.Leads {α : Type} (post : Machine → Machine → Prop) (o₁ o₂ : Outcome α) : Prop :=
  ∀ a m₁, o₁ = .done a m₁ → ∃ m₂, o₂ = .done a m₂ ∧ post m₁ m₂

namespace Run

variable {α β : Type} {pre mid post : Machine → Machine → Prop}

def Leads (pre : Machine → Machine → Prop) (x y : Run α) (post : Machine → Machine → Prop) : Prop :=
  ∀ m₁ m₂, pre m₁ m₂ → Outcome.Leads post (x m₁) (y m₂)

namespace Leads

theorem pure (a : α) : Leads pre (Pure.pure a) (Pure.pure a) pre := by
  intro m₁ m₂ hm b m₁' h
  cases h
  exact ⟨m₂, rfl, hm⟩

theorem bind {x y : Run α} {f g : α → Run β} (hx : Leads pre x y mid)
    (hf : ∀ a, Leads mid (f a) (g a) post) : Leads pre (x >>= f) (y >>= g) post := by
  intro m₁ m₂ hm b m₁'' h
  obtain ⟨a, m₁', hx₁, hf₁⟩ := bind_eq_done h
  obtain ⟨m₂', hy₂, hmid⟩ := hx m₁ m₂ hm a m₁' hx₁
  obtain ⟨m₂'', hg₂, hpost⟩ := hf a m₁' m₂' hmid b m₁'' hf₁
  refine ⟨m₂'', ?_, hpost⟩
  rw [bind_apply, hy₂]
  exact hg₂

/-- A computation that looks at the machine first may go on differently on both sides. -/
theorem look {f g : Machine → Run α}
    (h : ∀ m₁ m₂, pre m₁ m₂ → Outcome.Leads post (f m₁ m₁) (g m₂ m₂)) :
    Leads pre (machine >>= f) (machine >>= g) post := h

theorem raise (cause : Cause) (y : Run α) : Leads pre (Run.raise cause) y post := by
  intro m₁ m₂ _ a m₁' h
  cases h

theorem unfinished (y : Run α) : Leads pre Run.unfinished y post := by
  intro m₁ m₂ _ a m₁' h
  cases h

theorem lift (x : Except Cause α) : Leads pre (Run.lift x) (Run.lift x) pre := by
  cases x with
  | ok a => exact pure a
  | error cause => exact raise cause _

theorem modify {f g : Machine → Machine} (h : ∀ m₁ m₂, pre m₁ m₂ → post (f m₁) (g m₂)) :
    Leads pre (Run.modify f) (Run.modify g) post := by
  intro m₁ m₂ hm a m₁' hf
  cases hf
  exact ⟨g m₂, rfl, h m₁ m₂ hm⟩

theorem onStore {f g : Store → Except Cause Store}
    (h : ∀ m₁ m₂ s₁, pre m₁ m₂ → f m₁.store = .ok s₁ →
      ∃ s₂, g m₂.store = .ok s₂ ∧ post { m₁ with store := s₁ } { m₂ with store := s₂ }) :
    Leads pre (Run.onStore f) (Run.onStore g) post := by
  intro m₁ m₂ hm a m₁' hf
  obtain ⟨s₁, hs₁, rfl⟩ := onStore_eq_done hf
  obtain ⟨s₂, hs₂, hpost⟩ := h m₁ m₂ s₁ hm hs₁
  refine ⟨{ m₂ with store := s₂ }, ?_, hpost⟩
  rw [Run.onStore, hs₂]

theorem locating (location : Location) {x y : Run α} (hx : Leads pre x y post) :
    Leads pre (Run.locating location x) (Run.locating location y) post := by
  intro m₁ m₂ hm a m₁' h
  obtain ⟨m₂', hy, hpost⟩ := hx m₁ m₂ hm a m₁' (locating_eq_done h)
  refine ⟨m₂', ?_, hpost⟩
  rw [Run.locating, hy]

theorem andNext {x y : Run Unit} (hx : Leads pre x y post) :
    Leads pre (Run.andNext x) (Run.andNext y) post :=
  hx.bind fun _ => .pure Flow.next

end Leads

theorem leads_block {exec exec' : Statement → Run Flow} {statements : List Statement}
    (hexec : ∀ s ∈ statements, Leads pre (exec s) (exec' s) pre)
    (hwarn : ∀ rest, Leads pre (warnUnreachable rest) (warnUnreachable rest) pre) :
    Leads pre (block exec statements) (block exec' statements) pre := by
  induction statements with
  | nil => exact .pure _
  | cons s rest ih =>
    obtain ⟨hs, hrest⟩ := List.forall_mem_cons.1 hexec
    refine hs.bind fun flow => ?_
    cases flow with
    | next => exact ih hrest
    | leave => exact (hwarn rest).bind fun _ => .pure _

theorem leads_repeatWhile {holds holds' : Run Bool} {body body' : Run Flow}
    (hholds : Leads pre holds holds' pre) (hbody : Leads pre body body' pre) (fuel : Nat) :
    Leads pre (repeatWhile holds body fuel) (repeatWhile holds' body' fuel) pre := by
  induction fuel with
  | zero => exact .unfinished _
  | succ fuel ih =>
    refine hholds.bind fun again => ?_
    cases again with
    | false => exact .pure _
    | true =>
      refine hbody.bind fun flow => ?_
      cases flow with
      | next => exact ih
      | leave => exact .pure _

end Run

end ApiScript
