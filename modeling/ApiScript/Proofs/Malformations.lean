import ApiScript.Proofs.FormReading

/-!
# Malformed lines

Whatever form the first token of a line chooses, a line that misses its form is malformed. Only
`use` has a refusal of its own, for a mode that is not known.
-/
namespace ApiScript

namespace Reader

variable {α β : Type}

def OrMalformed : Except Cause α → Prop
  | .ok _ => True
  | .error cause => ∃ how, cause = .malformed how

def Malforms (x : Reader α) : Prop := ∀ tokens, OrMalformed (x tokens)

theorem OrMalformed.refuse (how : Malformation) :
    OrMalformed (Reader.refuse how : Except Cause α) := ⟨how, rfl⟩

theorem OrMalformed.bind {x : Except Cause α} {f : α → Except Cause β} (hx : OrMalformed x)
    (hf : ∀ a, OrMalformed (f a)) : OrMalformed (x >>= f) := by
  cases x with
  | error cause => exact hx
  | ok a => exact hf a

namespace Malforms

theorem pure (a : α) : Malforms (Pure.pure a : Reader α) := fun _ => trivial

theorem bind {x : Reader α} {f : α → Reader β} (hx : Malforms x) (hf : ∀ a, Malforms (f a)) :
    Malforms (x >>= f) := fun tokens => (hx tokens).bind fun p => hf p.1 p.2

theorem lift {x : Except Cause α} (hx : OrMalformed x) : Malforms (liftM x : Reader α) :=
  fun _ => hx.bind fun _ => trivial

theorem map {x : Reader α} (hx : Malforms x) (f : α → β) : Malforms (f <$> x) :=
  hx.bind fun a => pure (f a)

end Malforms

end Reader

end ApiScript
