import ApiScript.Proofs.PlainStore
import Mathlib.Data.List.Forall2

/-!
# A store in no order

A loose store keeps the pending requests and the symbols of each frame in lists, and after every
operation these lists may be rearranged at will. Binding a name takes away what was bound to it, and
nothing but that keeps a name from being listed twice. Whatever the arrangements, a loose store
holds what a plain store holds after the same operations, each binding once.
-/
namespace ApiScript

structure LooseStore where
  /-- The innermost frame first. -/
  frames : List (List (String × Symbol)) := []
  requests : List (String × Request) := []

namespace LooseStore

def discard {α : Type} (name : String) (entries : List (String × α)) : List (String × α) :=
  entries.filter fun e => e.1 != name

def put {α : Type} (name : String) (value : α) (entries : List (String × α)) :
    List (String × α) :=
  (name, value) :: discard name entries

def declare (l : LooseStore) (name : String) (symbol : Symbol) : LooseStore :=
  match l.frames with
  | [] => l
  | frame :: outer =>
    match Table.lookup name frame with
    | none => { l with frames := put name symbol frame :: outer }
    | some old =>
      if old.constant then l
      else { l with frames := put name { symbol with depth := old.depth } frame :: outer }

/-- What an operation leaves. Signatures are not kept, as no dump shows them. -/
def perform (l : LooseStore) : Operation → LooseStore
  | .push => { l with frames := [] :: l.frames }
  | .pop => { l with frames := l.frames.tail }
  | .declare name value depth constant status => l.declare name ⟨value, depth, constant, status⟩
  | .present name true => { l with frames := l.frames.modifyHead (discard name) }
  | .cleanup depth =>
    { l with frames := l.frames.modifyHead (List.filter fun e => e.2.depth ≤ depth) }
  | .registerRequest id request =>
    if (Table.lookup id l.requests).isSome then l
    else { l with requests := put id request l.requests }
  | .pending id true => { l with requests := discard id l.requests }
  | _ => l

def symbols (l : LooseStore) : List (String × Symbol) := l.frames.headD []

def ids (l : LooseStore) : List String := l.requests.map Prod.fst

def dump (l : LooseStore) : List String := Store.listing l.ids l.symbols

end LooseStore

namespace Table

variable {α : Type} {t : Table α} {entries entries' : List (String × α)}

/-- The entries are the bindings of the table, each once and in any order. -/
structure Enumerates (t : Table α) (entries : List (String × α)) : Prop where
  nodup : (entries.map Prod.fst).Nodup
  mem_iff (name : String) (value : α) : (name, value) ∈ entries ↔ t.get? name = some value

theorem enumerates_entries (t : Table α) : t.Enumerates t.entries :=
  ⟨t.nodup_names, fun _ _ => get?_eq_some_iff_mem.symm⟩

theorem enumerates_empty : (∅ : Table α).Enumerates [] := enumerates_entries ∅

namespace Enumerates

theorem perm (h : t.Enumerates entries) (hperm : entries.Perm entries') :
    t.Enumerates entries' :=
  ⟨(hperm.map Prod.fst).nodup_iff.1 h.nodup, fun name value =>
    hperm.mem_iff.symm.trans (h.mem_iff name value)⟩

theorem lookup_eq (h : t.Enumerates entries) (name : String) :
    lookup name entries = t.get? name := by
  apply Option.ext
  intro value
  rw [lookup_eq_some_iff_mem h.nodup, h.mem_iff]

theorem mem_names_iff (h : t.Enumerates entries) (name : String) :
    name ∈ entries.map Prod.fst ↔ t.contains name = true := by
  rw [contains_eq_true_iff, List.mem_map]
  constructor
  · rintro ⟨⟨_, value⟩, hmem, rfl⟩
    exact ⟨value, (h.mem_iff _ _).1 hmem⟩
  · rintro ⟨value, hget⟩
    exact ⟨(name, value), (h.mem_iff _ _).2 hget, rfl⟩

theorem filter (h : t.Enumerates entries) (p : α → Bool) :
    (t.filter p).Enumerates (entries.filter fun e => p e.2) where
  nodup := h.nodup.sublist (List.filter_sublist.map Prod.fst)
  mem_iff name value := by
    rw [List.mem_filter, h.mem_iff, get?_filter, Option.filter_eq_some_iff]

theorem discard (h : t.Enumerates entries) (name : String) :
    (t.erase name).Enumerates (LooseStore.discard name entries) where
  nodup := h.nodup.sublist (List.filter_sublist.map Prod.fst)
  mem_iff other value := by
    rw [LooseStore.discard, List.mem_filter, h.mem_iff, get?_erase]
    by_cases hother : other = name <;> simp [hother]

theorem put (h : t.Enumerates entries) (name : String) (value : α) :
    (t.insert name value).Enumerates (LooseStore.put name value entries) where
  nodup := by
    refine List.nodup_cons.2 ⟨?_, (h.discard name).nodup⟩
    simp [LooseStore.discard]
  mem_iff other found := by
    rw [LooseStore.put, List.mem_cons, (h.discard name).mem_iff, get?_erase, get?_insert]
    by_cases hother : other = name
    · simp [hother, eq_comm]
    · simp [hother]

end Enumerates

theorem forall₂_enumerates_perm {tables : List (Table α)} {lists lists' : List (List (String × α))}
    (h : List.Forall₂ Enumerates tables lists) (hperm : List.Forall₂ List.Perm lists lists') :
    List.Forall₂ Enumerates tables lists' := by
  induction h generalizing lists' with
  | nil =>
    cases hperm
    exact .nil
  | cons htable _ ih =>
    cases hperm with
    | cons hentries hrest => exact .cons (htable.perm hentries) (ih hrest)

end Table

namespace LooseStore

variable {l l' : LooseStore} {p : PlainStore} {ops : List Operation}

structure Rearranges (l l' : LooseStore) : Prop where
  frames : List.Forall₂ List.Perm l.frames l'.frames
  requests : l.requests.Perm l'.requests

theorem Rearranges.refl (l : LooseStore) : l.Rearranges l :=
  ⟨List.forall₂_same.2 fun frame _ => .refl frame, .refl l.requests⟩

/-- Some operations, with a new arrangement after each. -/
inductive Performs : LooseStore → List Operation → LooseStore → Prop
  | nil (l : LooseStore) : Performs l [] l
  | cons {l l' l'' : LooseStore} {op : Operation} {ops : List Operation} :
    (l.perform op).Rearranges l' → Performs l' ops l'' → Performs l (op :: ops) l''

structure Holds (l : LooseStore) (p : PlainStore) : Prop where
  frames : List.Forall₂ Table.Enumerates p.frames l.frames
  requests : p.requests.Enumerates l.requests

namespace Holds

theorem modifyHead {f : Frame → Frame} {g : List (String × Symbol) → List (String × Symbol)}
    (h : l.Holds p) (hfg : ∀ frame entries, Table.Enumerates frame entries →
      (f frame).Enumerates (g entries)) :
    ({ l with frames := l.frames.modifyHead g } : LooseStore).Holds
      { p with frames := p.frames.modifyHead f } := by
  obtain ⟨frames, requests, signatures⟩ := p
  obtain ⟨frames', requests'⟩ := l
  obtain ⟨hframes, hrequests⟩ := h
  refine ⟨?_, hrequests⟩
  cases hframes with
  | nil => exact .nil
  | cons hframe houter => exact .cons (hfg _ _ hframe) houter

theorem declare (h : l.Holds p) (name : String) (symbol : Symbol) :
    (l.declare name symbol).Holds (p.declare name symbol).2 := by
  obtain ⟨frames, requests, signatures⟩ := p
  obtain ⟨frames', requests'⟩ := l
  obtain ⟨hframes, hrequests⟩ := h
  cases hframes with
  | nil => exact ⟨.nil, hrequests⟩
  | @cons frame entries outer outer' hframe houter =>
    have hlookup := hframe.lookup_eq name
    cases hget : frame.get? name with
    | none =>
      simp only [LooseStore.declare, PlainStore.declare, hlookup, hget]
      exact ⟨.cons (hframe.put name symbol) houter, hrequests⟩
    | some old =>
      simp only [LooseStore.declare, PlainStore.declare, hlookup, hget]
      split
      · exact ⟨.cons hframe houter, hrequests⟩
      · exact ⟨.cons (hframe.put name _) houter, hrequests⟩

/-- An operation takes what a loose store holds and what a plain store holds to the same. -/
theorem perform (h : l.Holds p) (op : Operation) : (l.perform op).Holds (p.perform op).2 := by
  cases op with
  | push => exact ⟨.cons Table.enumerates_empty h.frames, h.requests⟩
  | pop =>
    obtain ⟨frames, requests, signatures⟩ := p
    obtain ⟨frames', requests'⟩ := l
    obtain ⟨hframes, hrequests⟩ := h
    cases hframes with
    | nil => exact ⟨.nil, hrequests⟩
    | cons hframe houter => exact ⟨houter, hrequests⟩
  | declare name value depth constant status =>
    exact h.declare name ⟨value, depth, constant, status⟩
  | lookup name => exact h
  | present name remove =>
    cases remove with
    | false => exact h
    | true => exact h.modifyHead fun frame entries hframe => hframe.discard name
  | cleanup depth => exact h.modifyHead fun frame entries hframe => hframe.filter _
  | registerRequest id request =>
    have hlookup : (Table.lookup id l.requests).isSome = p.requests.contains id :=
      congrArg Option.isSome (h.requests.lookup_eq id)
    rw [LooseStore.perform, PlainStore.perform, hlookup]
    by_cases hid : p.requests.contains id = true
    · rw [if_pos hid, if_pos hid]
      exact h
    · rw [if_neg hid, if_neg hid]
      exact ⟨h.frames, h.requests.put id request⟩
  | request id => exact h
  | pending id remove =>
    cases remove with
    | false => exact h
    | true => exact ⟨h.frames, h.requests.discard id⟩
  | registerSignature name params =>
    simp only [LooseStore.perform, PlainStore.perform]
    split <;> exact ⟨h.frames, h.requests⟩
  | signature name => exact h

theorem rearrange (h : l.Holds p) (hl : l.Rearranges l') : l'.Holds p :=
  ⟨Table.forall₂_enumerates_perm h.frames hl.frames, h.requests.perm hl.requests⟩

theorem performs (h : l.Holds p) (hops : Performs l ops l') : l'.Holds (p.performAll ops) := by
  induction hops generalizing p with
  | nil l => exact h
  | cons hrearranges _ ih => exact ih ((h.perform _).rearrange hrearranges)

end Holds

theorem holds_empty : ({} : LooseStore).Holds {} := ⟨.nil, Table.enumerates_empty⟩

end LooseStore

end ApiScript
