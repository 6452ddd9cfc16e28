import ApiScript.Proofs.ScopeRecords

/-!
# Frames above a base depth

A function counts the depths of its symbols from the depth that it was called at. A store hosts a
frame when its innermost frame is this one with all depths raised by a base, and has the records for
it. What an operation does to a hosted frame does not depend on the base, nor on the frames below.
-/
namespace ApiScript

namespace Table

variable {α β : Type}

theorem lookup_map (f : α → β) (name : String) (entries : List (String × α)) :
    lookup name (entries.map fun e => (e.1, f e.2)) = (lookup name entries).map f := by
  induction entries with
  | nil => rfl
  | cons entry rest ih =>
    by_cases h : name = entry.1
    · simp [lookup, h]
    · simp [lookup, h, ih]

def map (f : α → β) (t : Table α) : Table β :=
  ⟨t.entries.map fun e => (e.1, f e.2), t.ordered.map _ fun _ _ h => h⟩

@[simp]
theorem get?_map (f : α → β) (t : Table α) (name : String) :
    (t.map f).get? name = (t.get? name).map f :=
  lookup_map f name t.entries

@[simp]
theorem contains_map (f : α → β) (t : Table α) (name : String) :
    (t.map f).contains name = t.contains name := by
  simp [contains]

theorem map_insert (f : α → β) (t : Table α) (name : String) (value : α) :
    (t.map f).insert name (f value) = (t.insert name value).map f := by
  apply ext_get?
  intro other
  rw [get?_insert, get?_map, get?_map, get?_insert]
  split <;> rfl

theorem map_erase (f : α → β) (t : Table α) (name : String) :
    (t.map f).erase name = (t.erase name).map f := by
  apply ext_get?
  intro other
  rw [get?_erase, get?_map, get?_map, get?_erase]
  split <;> rfl

theorem map_filter (f : α → β) (p : β → Bool) (t : Table α) :
    (t.map f).filter p = (t.filter fun a => p (f a)).map f := by
  apply ext_get?
  intro other
  rw [get?_filter, get?_map, get?_map, get?_filter]
  cases t.get? other with
  | none => rfl
  | some a => by_cases h : p (f a) = true <;> simp [Option.filter, h]

end Table

def Symbol.above (base : Nat) (symbol : Symbol) : Symbol :=
  { symbol with depth := base + symbol.depth }

/-- Binds a name in a frame. What is bound already keeps its depth, and a constant its value. -/
def Frame.write (frame : Frame) (name : String) (symbol : Symbol) : Except Cause Frame :=
  match frame.get? name with
  | none => .ok (frame.insert name symbol)
  | some old =>
    if old.constant then .error (.constantModified name)
    else .ok (frame.insert name { symbol with depth := old.depth })

/-- The innermost frame is the given one above a base, and each of its symbols is recorded. -/
inductive Hosts (base : Nat) (frame : Frame) : List Frame → List ScopeRecord → Prop
  | mk (outer : List Frame) (records : List ScopeRecord)
    (h : ∀ name symbol, frame.get? name = some symbol →
      (⟨name, base + symbol.depth, outer.length⟩ : ScopeRecord) ∈ records) :
    Hosts base frame (frame.map (Symbol.above base) :: outer) records

namespace Hosts

variable {base : Nat} {frame : Frame} {s : Store}

theorem empty (base : Nat) (frames : List Frame) (records : List ScopeRecord) :
    Hosts base ∅ (∅ :: frames) records := by
  have hempty : (∅ : Frame).map (Symbol.above base) = ∅ := rfl
  rw [← hempty]
  refine .mk frames records ?_
  intro name symbol hget
  cases hget

theorem lookup (h : Hosts base frame s.frames s.records) (name : String) :
    s.lookup name =
      (({ frames := [frame], requests := s.requests } : Store).lookup name).map
        (Symbol.above base) := by
  obtain ⟨frames, requests, signatures, records⟩ := s
  cases h with
  | mk outer records h =>
    by_cases hid : requests.contains name = true
    · simp [Store.lookup, hid, Except.map]
    · cases hget : frame.get? name with
      | none => simp [Store.lookup, hid, hget, Except.map]
      | some symbol => simp [Store.lookup, hid, hget, Except.map]

theorem declares (h : Hosts base frame s.frames s.records) (name : String) :
    s.declares name = frame.contains name := by
  obtain ⟨frames, requests, signatures, records⟩ := s
  cases h with
  | mk outer records h => simp [Store.declares]

theorem declare_error {name : String} {symbol : Symbol} {cause : Cause}
    (h : Hosts base frame s.frames s.records) (hwrite : frame.write name symbol = .error cause) :
    s.declare name symbol.value (base + symbol.depth) symbol.constant symbol.status =
      .error cause := by
  obtain ⟨frames, requests, signatures, records⟩ := s
  cases h with
  | mk outer records h =>
    unfold Frame.write at hwrite
    cases hget : frame.get? name with
    | none =>
      rw [hget] at hwrite
      cases hwrite
    | some old =>
      rw [hget] at hwrite
      dsimp only at hwrite
      split at hwrite
      · next hconstant =>
        cases hwrite
        simp [Store.declare, hget, Symbol.above, hconstant]
      · cases hwrite

/-- Writing in the innermost frame writes in the hosted one. -/
theorem declare_ok {name : String} {symbol : Symbol} {frame' : Frame}
    (h : Hosts base frame s.frames s.records) (hwrite : frame.write name symbol = .ok frame') :
    ∃ frames records,
      s.declare name symbol.value (base + symbol.depth) symbol.constant symbol.status =
        .ok { s with frames, records } ∧ Hosts base frame' frames records := by
  obtain ⟨frames, requests, signatures, records⟩ := s
  cases h with
  | mk outer records hrecorded =>
    unfold Frame.write at hwrite
    cases hget : frame.get? name with
    | none =>
      rw [hget] at hwrite
      cases hwrite
      refine ⟨_, ⟨name, base + symbol.depth, outer.length⟩ :: records, ?_, .mk outer _ ?_⟩
      · rw [← Table.map_insert]
        simp [Store.declare, hget, Symbol.above]
      · intro other found hother
        rw [Table.get?_insert] at hother
        split at hother
        · next heq =>
          cases hother
          rw [heq]
          exact List.mem_cons_self
        · exact List.mem_cons_of_mem _ (hrecorded other found hother)
    | some old =>
      rw [hget] at hwrite
      dsimp only at hwrite
      split at hwrite
      · cases hwrite
      · next hconstant =>
        cases hwrite
        refine ⟨_, records, ?_, .mk outer _ ?_⟩
        · rw [← Table.map_insert]
          simp [Store.declare, hget, Symbol.above, hconstant]
        · intro other found hother
          rw [Table.get?_insert] at hother
          split at hother
          · next heq =>
            cases hother
            rw [heq]
            exact hrecorded name old hget
          · exact hrecorded other found hother

theorem eraseSymbol (h : Hosts base frame s.frames s.records) (name : String) :
    ∃ frames records, s.eraseSymbol name = { s with frames, records } ∧
      Hosts base (frame.erase name) frames records := by
  obtain ⟨frames, requests, signatures, records⟩ := s
  cases h with
  | mk outer records hrecorded =>
    by_cases hname : frame.contains name = true
    · refine ⟨_, records.filter fun r => r.frame != outer.length || r.name != name, ?_,
        .mk outer _ ?_⟩
      · rw [← Table.map_erase]
        simp [Store.eraseSymbol, hname]
      · intro other found hother
        rw [Table.get?_erase] at hother
        split at hother
        · cases hother
        · next hne =>
          refine List.mem_filter.2 ⟨hrecorded other found hother, ?_⟩
          simp [hne]
    · have hsame := Table.erase_eq_self_of_contains_eq_false (Bool.not_eq_true _ ▸ hname)
      refine ⟨_, records, ?_, .mk outer _ ?_⟩
      · rw [hsame]
        simp [Store.eraseSymbol, hname]
      · rw [hsame]
        exact hrecorded

theorem covered (h : Hosts base frame s.frames s.records) : s.Covered := by
  obtain ⟨frames, requests, signatures, records⟩ := s
  cases h with
  | mk outer records hrecorded =>
    intro top below hframes name symbol hget
    cases hframes
    rw [Table.get?_map, Option.map_eq_some_iff] at hget
    obtain ⟨hosted, hfound, rfl⟩ := hget
    exact hrecorded name hosted hfound

/-- A symbol lies deeper than a depth in the store exactly when it does in the hosted frame. -/
theorem cleanup (h : Hosts base frame s.frames s.records) (depth : Nat) :
    ∃ frames records, s.cleanup (base + depth) = { s with frames, records } ∧
      Hosts base (frame.filter fun symbol => decide (symbol.depth ≤ depth)) frames records := by
  have hframes := Store.frames_cleanup h.covered (base + depth)
  obtain ⟨frames, requests, signatures, records⟩ := s
  cases h with
  | mk outer records hrecorded =>
    have hsame : (fun symbol : Symbol => decide ((symbol.above base).depth ≤ base + depth)) =
        fun symbol => decide (symbol.depth ≤ depth) := by
      funext symbol
      simp [Symbol.above]
    refine ⟨_, records.filter fun r => !r.isDeeper outer.length (base + depth), ?_,
      .mk outer _ ?_⟩
    · rw [List.modifyHead_cons, Table.map_filter, hsame] at hframes
      simp only [Store.cleanup, List.cons.injEq] at hframes ⊢
      rw [hframes.1]
    · intro name symbol hget
      rw [Table.get?_filter, Option.filter_eq_some_iff] at hget
      obtain ⟨hfound, hshallow⟩ := hget
      refine List.mem_filter.2 ⟨hrecorded name symbol hfound, ?_⟩
      simpa [ScopeRecord.isDeeper] using hshallow

end Hosts

end ApiScript
