import ApiScript.Proofs.LocalChanges

/-!
# What a statement keeps

A statement that ends well leaves everything outside the innermost frame as it was, apart from
values that it may have returned on top of others. This holds for blocks and loops as soon as it
holds for the statements inside them.
-/
namespace ApiScript

open Relation (ReflTransGen)

namespace Store

def recordsBelow (level : Nat) (records : List ScopeRecord) : List ScopeRecord :=
  records.filter fun r => decide (r.frame < level)

theorem recordsBelow_filter {level : Nat} {records : List ScopeRecord} {p : ScopeRecord → Bool}
    (hp : ∀ r : ScopeRecord, r.frame < level → p r = true) :
    recordsBelow level (records.filter p) = recordsBelow level records := by
  rw [recordsBelow, recordsBelow, List.filter_filter]
  apply List.filter_congr
  intro r _
  by_cases hr : r.frame < level
  · simp [hr, hp r hr]
  · simp [hr]

theorem recordsBelow_cons {level : Nat} {r : ScopeRecord} {records : List ScopeRecord}
    (hr : level ≤ r.frame) : recordsBelow level (r :: records) = recordsBelow level records := by
  have hnot : ¬ r.frame < level := by omega
  simp [recordsBelow, hnot]

/-- What a store holds outside its innermost frame, of which only the place is kept. -/
def outside (s : Store) : Store :=
  { frames := s.frames.modifyHead fun _ => ∅
    signatures := s.signatures
    records := recordsBelow (s.frames.length - 1) s.records }

theorem outside_cons (frame : Frame) (outer : List Frame) (requests : Table Request)
    (signatures : Table (List String)) (records : List ScopeRecord) :
    outside ⟨frame :: outer, requests, signatures, records⟩ =
      ⟨∅ :: outer, ∅, signatures, recordsBelow outer.length records⟩ := rfl

theorem outside_declare {s t : Store} {name : String} {value : Value} {depth : Nat}
    {constant : Bool} {status : Option Nat}
    (h : s.declare name value depth constant status = .ok t) : t.outside = s.outside := by
  obtain ⟨frames, requests, signatures, records⟩ := s
  cases frames with
  | nil => cases h
  | cons frame outer =>
    cases hget : frame.get? name with
    | none =>
      simp only [declare, hget] at h
      cases h
      have hrecord : outer.length ≤ (⟨name, depth, outer.length⟩ : ScopeRecord).frame :=
        Nat.le_refl _
      rw [outside_cons, outside_cons, recordsBelow_cons hrecord]
    | some old =>
      simp only [declare, hget] at h
      split at h
      · cases h
      · cases h
        rfl

theorem outside_eraseSymbol (s : Store) (name : String) :
    (s.eraseSymbol name).outside = s.outside := by
  obtain ⟨frames, requests, signatures, records⟩ := s
  cases frames with
  | nil => rfl
  | cons frame outer =>
    simp only [eraseSymbol]
    split
    · rw [outside_cons, outside_cons, recordsBelow_filter]
      intro r hr
      simp [Nat.ne_of_lt hr]
    · rfl

theorem outside_cleanup (s : Store) (depth : Nat) : (s.cleanup depth).outside = s.outside := by
  obtain ⟨frames, requests, signatures, records⟩ := s
  cases frames with
  | nil => rfl
  | cons frame outer =>
    simp only [cleanup]
    rw [outside_cons, outside_cons, recordsBelow_filter]
    intro r hr
    simp [ScopeRecord.isDeeper, Nat.ne_of_lt hr]

theorem outside_registerRequest {s t : Store} {id : String} {request : Request}
    (h : s.registerRequest id request = .ok t) : t.outside = s.outside := by
  unfold registerRequest at h
  split at h
  · cases h
  · cases h
    rfl

theorem outside_eraseRequest (s : Store) (id : String) :
    (s.eraseRequest id).outside = s.outside := rfl

theorem outside_pushFrame (s : Store) :
    s.pushFrame.outside =
      ⟨∅ :: s.frames, ∅, s.signatures, recordsBelow s.frames.length s.records⟩ := rfl

/-- Whatever happened in a frame of its own, dropping the frame gives back what was outside. -/
theorem popFrame_of_outside_eq {s t u : Store} (houtside : t.outside = s.pushFrame.outside)
    (hpop : t.popFrame = .ok u) :
    u.frames = s.frames ∧ u.records = recordsBelow s.frames.length s.records ∧
      u.signatures = s.signatures := by
  obtain ⟨frames, requests, signatures, records⟩ := t
  cases frames with
  | nil => cases hpop
  | cons frame outer =>
    cases hpop
    rw [outside_pushFrame, outside_cons] at houtside
    obtain ⟨hframes, -, hsignatures, hrecords⟩ := Store.mk.inj houtside
    have houter : outer = s.frames := (List.cons.inj hframes).2
    exact ⟨houter, hrecords, hsignatures⟩

end Store

structure Kept (m m' : Machine) : Prop where
  store : m'.store.outside = m.store.outside
  builtins : m'.builtins = m.builtins
  depth : m'.depth = m.depth
  scope : m'.scope = m.scope
  callers : m'.callers = m.callers
  returns : m'.returns = m.returns
  returned : m.returned <:+ m'.returned

namespace Kept

theorem refl (m : Machine) : Kept m m := ⟨rfl, rfl, rfl, rfl, rfl, rfl, List.suffix_refl _⟩

theorem trans {m₁ m₂ m₃ : Machine} (h : Kept m₁ m₂) (h' : Kept m₂ m₃) : Kept m₁ m₃ where
  store := h'.store.trans h.store
  builtins := h'.builtins.trans h.builtins
  depth := h'.depth.trans h.depth
  scope := h'.scope.trans h.scope
  callers := h'.callers.trans h.callers
  returns := h'.returns.trans h.returns
  returned := h.returned.trans h'.returned

theorem of_store {m : Machine} {store : Store} (h : store.outside = m.store.outside) :
    Kept m { m with store } :=
  ⟨h, rfl, rfl, rfl, rfl, rfl, List.suffix_refl _⟩

end Kept

theorem LocalChange.kept {m m' : Machine} (h : LocalChange m m') : Kept m m' := by
  cases h with
  | declare h => exact .of_store (Store.outside_declare h)
  | eraseSymbol name => exact .of_store (Store.outside_eraseSymbol m.store name)
  | registerRequest h => exact .of_store (Store.outside_registerRequest h)
  | eraseRequest id => exact .of_store (Store.outside_eraseRequest m.store id)
  | returnValue value => exact ⟨rfl, rfl, rfl, rfl, rfl, rfl, List.suffix_cons _ _⟩
  | note h =>
    rw [h]
    exact ⟨rfl, rfl, rfl, rfl, rfl, rfl, List.suffix_refl _⟩

theorem LocalChange.kept_of_reflTransGen {m m' : Machine} (h : ReflTransGen LocalChange m m') :
    Kept m m' := by
  induction h with
  | refl => exact .refl m
  | tail _ hlast ih => exact ih.trans hlast.kept

namespace Run

variable {α β : Type}

theorem bind_eq_done {x : Run α} {f : α → Run β} {m m' : Machine} {b : β}
    (h : (x >>= f) m = .done b m') : ∃ a m₁, x m = .done a m₁ ∧ f a m₁ = .done b m' := by
  rw [bind_apply] at h
  cases hx : x m with
  | done a m₁ =>
    rw [hx] at h
    exact ⟨a, m₁, rfl, h⟩
  | failed fault m₁ =>
    rw [hx] at h
    cases h
  | unfinished m₁ =>
    rw [hx] at h
    cases h

theorem onStore_eq_done {f : Store → Except Cause Store} {m m' : Machine}
    (h : onStore f m = .done () m') : ∃ store, f m.store = .ok store ∧ m' = { m with store } := by
  unfold onStore at h
  cases hf : f m.store with
  | ok store =>
    rw [hf] at h
    cases h
    exact ⟨store, rfl, rfl⟩
  | error cause =>
    rw [hf] at h
    cases h

theorem locating_eq_done {location : Location} {x : Run α} {m m' : Machine} {a : α}
    (h : locating location x m = .done a m') : x m = .done a m' := by
  unfold locating at h
  cases hx : x m with
  | done b m₁ =>
    rw [hx] at h
    exact h
  | failed fault m₁ =>
    rw [hx] at h
    cases h
  | unfinished m₁ =>
    rw [hx] at h
    cases h

theorem lift_eq_done {x : Except Cause α} {m m' : Machine} {a : α}
    (h : lift x m = .done a m') : m' = m := by
  cases x with
  | ok b =>
    cases h
    rfl
  | error cause => cases h

theorem andNext_eq_done {x : Run Unit} {m m' : Machine} {flow : Flow}
    (h : andNext x m = .done flow m') : x m = .done () m' := by
  obtain ⟨_, m₁, hx, hpure⟩ := bind_eq_done h
  cases hpure
  exact hx

theorem execute_eq_done {fetcher : Fetcher} {program : Program} {fuel : Nat} {s : Statement}
    {m m' : Machine} {flow : Flow} (h : execute fetcher program fuel s m = .done flow m') :
    ∃ rest, perform fetcher program (execute fetcher program rest) rest s
      { m with location := s.location, executed := m.executed + 1 } = .done flow m' := by
  cases fuel with
  | zero => cases h
  | succ rest =>
    obtain ⟨_, m₁, hbegin, h⟩ := bind_eq_done h
    cases hbegin
    exact ⟨rest, locating_eq_done h⟩

/-- A computation that makes no changes leaves the machine. -/
theorem Makes.eq_of_done {x : Run α} (hx : Makes (fun _ _ => False) x) {m m' : Machine}
    {a : α} (h : x m = .done a m') : m' = m := by
  have hm := hx m
  rw [h] at hm
  cases hm with
  | refl => rfl
  | tail _ hfalse => exact hfalse.elim

def Keeps (x : Run α) : Prop := ∀ m a m', x m = .done a m' → Kept m m'

theorem Makes.keeps {x : Run α} (hx : Makes LocalChange x) : Keeps x := by
  intro m a m' h
  have hm := hx m
  rw [h] at hm
  exact LocalChange.kept_of_reflTransGen hm

theorem Keeps.bind {x : Run α} {f : α → Run β} (hx : Keeps x) (hf : ∀ a, Keeps (f a)) :
    Keeps (x >>= f) := by
  intro m b m' h
  obtain ⟨a, m₁, hx₁, hf₁⟩ := bind_eq_done h
  exact (hx m a m₁ hx₁).trans (hf a m₁ b m' hf₁)

theorem Keeps.locating (location : Location) {x : Run α} (hx : Keeps x) :
    Keeps (Run.locating location x) := fun m a m' h => hx m a m' (locating_eq_done h)

variable {exec : Statement → Run Flow}

theorem keeps_block (hexec : ∀ s, Keeps (exec s)) (statements : List Statement) :
    Keeps (block exec statements) := by
  induction statements with
  | nil => exact (Makes.pure _).keeps
  | cons s rest ih =>
    refine (hexec s).bind fun flow => ?_
    cases flow with
    | next => exact ih
    | leave => exact ((makes_warnUnreachable rest).bind fun _ => .pure _).keeps

theorem keeps_repeatWhile {holds : Run Bool} {body : Run Flow} (hholds : Keeps holds)
    (hbody : Keeps body) (fuel : Nat) : Keeps (repeatWhile holds body fuel) := by
  induction fuel with
  | zero => exact Makes.unfinished.keeps
  | succ fuel ih =>
    refine hholds.bind fun again => ?_
    cases again with
    | false => exact (Makes.pure _).keeps
    | true =>
      refine hbody.bind fun flow => ?_
      cases flow with
      | next => exact ih
      | leave => exact (Makes.pure _).keeps

theorem kept_purgeScope (m : Machine) : Kept m (purgeScope m) := by
  unfold purgeScope
  split
  · exact .of_store (Store.outside_cleanup m.store m.depth)
  · exact .refl m

theorem nested_eq_done {x : Run Flow} {m m' : Machine} {flow : Flow}
    (h : nested x m = .done flow m') :
    ∃ m₁, x { m with depth := m.depth + 1 } = .done flow m₁ ∧
      m' = purgeScope { m₁ with depth := m₁.depth - 1 } := by
  obtain ⟨_, m₀, henter, h⟩ := bind_eq_done h
  cases henter
  obtain ⟨flow₁, m₁, hinside, h⟩ := bind_eq_done h
  obtain ⟨_, m₂, hleave, h⟩ := bind_eq_done h
  cases hleave
  cases h
  exact ⟨m₁, hinside, rfl⟩

/-- What is kept one block deeper is kept around the block. -/
theorem keeps_nested {x : Run Flow} (hx : Keeps x) : Keeps (nested x) := by
  intro m flow m' h
  obtain ⟨m₁, hinside, rfl⟩ := nested_eq_done h
  have hdeeper : Kept { m with depth := m.depth + 1 } m₁ := hx _ _ _ hinside
  have hdepth : m₁.depth - 1 = m.depth := by
    have hentered : m₁.depth = m.depth + 1 := hdeeper.depth
    omega
  have hback : Kept m { m₁ with depth := m₁.depth - 1 } := { hdeeper with depth := hdepth }
  exact hback.trans (kept_purgeScope _)

theorem keeps_branch (hexec : ∀ s, Keeps (exec s)) (condition : Condition)
    (body alt : List Statement) : Keeps (branch exec condition body alt) :=
  keeps_nested ((makes_test condition).keeps.bind fun _ => keeps_block hexec _)

theorem keeps_loop (hexec : ∀ s, Keeps (exec s)) (fuel : Nat) (condition : Condition)
    (body : List Statement) : Keeps (loop exec fuel condition body) :=
  keeps_nested (keeps_repeatWhile (makes_test condition).keeps (keeps_block hexec body) fuel)

end Run

end ApiScript
