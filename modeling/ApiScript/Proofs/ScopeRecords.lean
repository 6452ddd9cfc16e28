import ApiScript.Store

/-!
# Scope records

The symbols of the frames call for one record each. A store is recorded when its records are these,
in any order. Every operation keeps a store recorded, and in a recorded store leaving a block drops
exactly the symbols of the innermost frame that lie deeper.
-/
namespace ApiScript

namespace Table

variable {α : Type}

theorem lookup_eq_none_iff {name : String} {entries : List (String × α)} :
    lookup name entries = none ↔ ∀ e ∈ entries, name ≠ e.1 := by
  induction entries with
  | nil => simp [lookup]
  | cons entry rest ih =>
    by_cases h : name = entry.1
    · simp [lookup, h]
    · simp [lookup, h, ih]

def filter (p : α → Bool) (t : Table α) : Table α :=
  ⟨t.entries.filter (fun e => p e.2), t.ordered.filter _⟩

theorem lookup_filter (p : α → Bool) {entries : List (String × α)}
    (h : entries.Pairwise fun a b => a.1 < b.1) (name : String) :
    lookup name (entries.filter fun e => p e.2) = (lookup name entries).filter p := by
  induction entries with
  | nil => rfl
  | cons entry rest ih =>
    obtain ⟨hhead, hrest⟩ := List.pairwise_cons.1 h
    rw [List.filter_cons]
    by_cases hp : p entry.2 = true
    · rw [if_pos hp, lookup, lookup, ih hrest]
      by_cases hn : name = entry.1 <;> simp [Option.filter, hn, hp]
    · rw [if_neg hp, lookup, ih hrest]
      by_cases hn : name = entry.1
      · rw [if_pos hn, hn, lookup_eq_none_of_forall_lt hhead]
        simp [Option.filter, hp]
      · rw [if_neg hn]

@[simp]
theorem get?_filter (p : α → Bool) (t : Table α) (name : String) :
    (t.filter p).get? name = (t.get? name).filter p :=
  lookup_filter p t.ordered name

theorem lookup_eq_some_iff_mem {entries : List (String × α)} (h : (entries.map Prod.fst).Nodup)
    {name : String} {value : α} :
    lookup name entries = some value ↔ (name, value) ∈ entries := by
  induction entries with
  | nil => simp [lookup]
  | cons entry rest ih =>
    obtain ⟨hhead, hrest⟩ := List.nodup_cons.1 h
    by_cases hn : name = entry.1
    · have hnot : (name, value) ∉ rest := fun hmem =>
        hhead (List.mem_map.2 ⟨_, hmem, hn⟩)
      rw [lookup, if_pos hn, List.mem_cons, or_iff_left hnot, Option.some.injEq, Prod.ext_iff]
      exact ⟨fun h => ⟨hn, h.symm⟩, fun h => h.2.symm⟩
    · rw [lookup, if_neg hn, ih hrest, List.mem_cons, or_iff_right]
      exact fun h => hn (congrArg Prod.fst h)

theorem nodup_names (t : Table α) : t.names.Nodup := by
  refine List.pairwise_map.2 (t.ordered.imp ?_)
  intro a b hlt heq
  rw [heq] at hlt
  exact String.lt_irrefl _ hlt

theorem get?_eq_some_iff_mem {t : Table α} {name : String} {value : α} :
    t.get? name = some value ↔ (name, value) ∈ t.entries :=
  lookup_eq_some_iff_mem t.nodup_names

theorem erase_eq_self_of_contains_eq_false {t : Table α} {name : String}
    (h : t.contains name = false) : t.erase name = t := by
  apply ext_get?
  intro other
  rw [get?_erase]
  split
  · next heq =>
    rw [contains, Option.isSome_eq_false_iff, Option.isNone_iff_eq_none] at h
    rw [heq, h]
  · rfl

theorem insertEntry_perm {name : String} (value : α) {entries : List (String × α)}
    (h : lookup name entries = none) :
    (insertEntry name value entries).Perm ((name, value) :: entries) := by
  induction entries with
  | nil => exact .refl _
  | cons entry rest ih =>
    have hne : name ≠ entry.1 := lookup_eq_none_iff.1 h entry List.mem_cons_self
    rw [lookup, if_neg hne] at h
    rw [insertEntry, if_neg hne]
    split
    · exact .refl _
    · exact ((ih h).cons entry).trans (.swap _ _ _)

/-- Writing over a binding changes the value that is listed with the name and nothing else. -/
theorem map_insertEntry_of_lookup {β : Type} {f : String × α → β} {name : String} {value old : α}
    {entries : List (String × α)} (hordered : entries.Pairwise fun a b => a.1 < b.1)
    (h : lookup name entries = some old) (hf : f (name, value) = f (name, old)) :
    (insertEntry name value entries).map f = entries.map f := by
  induction entries with
  | nil => simp [lookup] at h
  | cons entry rest ih =>
    obtain ⟨hhead, hrest⟩ := List.pairwise_cons.1 hordered
    by_cases hn : name = entry.1
    · have hold : entry = (name, old) := by
        rw [lookup, if_pos hn, Option.some.injEq] at h
        exact Prod.ext hn.symm h
      have hlt : ¬ name < entry.1 := by simp [hn]
      rw [insertEntry, if_neg hlt, if_pos hn, List.map_cons, List.map_cons, hf, hold]
    · rw [lookup, if_neg hn] at h
      have hlt : ¬ name < entry.1 := by
        intro hlt
        have hnone := lookup_eq_none_of_forall_lt fun e he => String.lt_trans hlt (hhead e he)
        rw [hnone] at h
        cases h
      rw [insertEntry, if_neg hlt, if_neg hn, List.map_cons, List.map_cons, ih hrest h]

end Table

namespace Store

def frameRecords (level : Nat) (frame : Frame) : List ScopeRecord :=
  frame.entries.map fun entry => ⟨entry.1, entry.2.depth, level⟩

def symbolRecords : List Frame → List ScopeRecord
  | [] => []
  | frame :: outer => frameRecords outer.length frame ++ symbolRecords outer

/-- There is one record for each symbol of each frame, and no other record. -/
def Recorded (s : Store) : Prop := s.records.Perm (symbolRecords s.frames)

theorem frame_of_mem_frameRecords {level : Nat} {frame : Frame} {r : ScopeRecord}
    (h : r ∈ frameRecords level frame) : r.frame = level := by
  obtain ⟨entry, -, rfl⟩ := List.mem_map.1 h
  rfl

theorem frame_lt_of_mem_symbolRecords {frames : List Frame} {r : ScopeRecord}
    (h : r ∈ symbolRecords frames) : r.frame < frames.length := by
  induction frames with
  | nil => simp [symbolRecords] at h
  | cons frame outer ih =>
    rcases List.mem_append.1 h with h | h
    · rw [frame_of_mem_frameRecords h]
      exact Nat.lt_succ_self _
    · exact Nat.lt_succ_of_lt (ih h)

theorem frameRecords_insert_perm (level : Nat) {frame : Frame} {name : String} (symbol : Symbol)
    (h : frame.get? name = none) :
    (frameRecords level (frame.insert name symbol)).Perm
      (⟨name, symbol.depth, level⟩ :: frameRecords level frame) :=
  (Table.insertEntry_perm symbol h).map _

theorem frameRecords_insert_eq (level : Nat) {frame : Frame} {name : String} {symbol old : Symbol}
    (h : frame.get? name = some old) (hdepth : symbol.depth = old.depth) :
    frameRecords level (frame.insert name symbol) = frameRecords level frame :=
  Table.map_insertEntry_of_lookup frame.ordered h (by rw [hdepth])

theorem frameRecords_erase (level : Nat) (frame : Frame) (name : String) :
    frameRecords level (frame.erase name) =
      (frameRecords level frame).filter fun r => r.name != name := by
  rw [frameRecords, frameRecords, List.filter_map]
  rfl

theorem frameRecords_filter (level : Nat) (frame : Frame) (p : Symbol → Bool)
    (q : ScopeRecord → Bool) (hq : ∀ name symbol, q ⟨name, symbol.depth, level⟩ = p symbol) :
    frameRecords level (frame.filter p) = (frameRecords level frame).filter q := by
  rw [frameRecords, frameRecords, List.filter_map]
  congr 1
  exact List.filter_congr fun entry _ => (hq entry.1 entry.2).symm

/-- A test that all records of the outer frames pass leaves them. -/
theorem filter_symbolRecords {frames : List Frame} {q : ScopeRecord → Bool}
    (hq : ∀ r : ScopeRecord, r.frame < frames.length → q r = true) :
    (symbolRecords frames).filter q = symbolRecords frames :=
  List.filter_eq_self.2 fun r hr => hq r (frame_lt_of_mem_symbolRecords hr)

theorem filter_frameRecords_eq_nil {level : Nat} {frame : Frame} {q : ScopeRecord → Bool}
    (hq : ∀ r : ScopeRecord, r.frame = level → q r = false) :
    (frameRecords level frame).filter q = [] :=
  List.filter_eq_nil_iff.2 fun r hr => by simp [hq r (frame_of_mem_frameRecords hr)]

theorem recorded_empty : ({} : Store).Recorded := .refl _

theorem Recorded.pushFrame {s : Store} (h : s.Recorded) : s.pushFrame.Recorded := h

theorem Recorded.popFrame {s t : Store} (h : s.Recorded) (hpop : s.popFrame = .ok t) :
    t.Recorded := by
  obtain ⟨frames, requests, signatures, records⟩ := s
  cases frames with
  | nil => cases hpop
  | cons frame outer =>
    cases hpop
    have hall := h.filter fun r => decide (r.frame < outer.length)
    rwa [symbolRecords, List.filter_append,
      filter_frameRecords_eq_nil fun r hr => by simp [hr],
      filter_symbolRecords fun r hr => by simp [hr], List.nil_append] at hall

theorem Recorded.declare {s t : Store} {name : String} {value : Value} {depth : Nat}
    {constant : Bool} {status : Option Nat} (h : s.Recorded)
    (hdeclare : s.declare name value depth constant status = .ok t) : t.Recorded := by
  obtain ⟨frames, requests, signatures, records⟩ := s
  cases frames with
  | nil => cases hdeclare
  | cons frame outer =>
    cases hget : frame.get? name with
    | none =>
      simp only [Store.declare, hget] at hdeclare
      cases hdeclare
      have hfresh := frameRecords_insert_perm outer.length ⟨value, depth, constant, status⟩ hget
      exact (h.cons _).trans (hfresh.symm.append_right _)
    | some old =>
      simp only [Store.declare, hget] at hdeclare
      split at hdeclare
      · cases hdeclare
      · cases hdeclare
        have hsame : frameRecords outer.length
            (frame.insert name ⟨value, old.depth, constant, status⟩) =
              frameRecords outer.length frame :=
          frameRecords_insert_eq outer.length hget rfl
        rw [Recorded, symbolRecords, hsame]
        exact h

theorem Recorded.eraseSymbol {s : Store} (h : s.Recorded) (name : String) :
    (s.eraseSymbol name).Recorded := by
  obtain ⟨frames, requests, signatures, records⟩ := s
  cases frames with
  | nil => exact h
  | cons frame outer =>
    simp only [Store.eraseSymbol]
    split
    · have hall := h.filter fun r => r.frame != outer.length || r.name != name
      rw [symbolRecords, List.filter_append,
        filter_symbolRecords fun r hr => by simp [Nat.ne_of_lt hr]] at hall
      rw [Recorded, symbolRecords, frameRecords_erase]
      refine hall.trans (.append_right _ (.of_eq (List.filter_congr fun r hr => ?_)))
      simp [frame_of_mem_frameRecords hr]
    · exact h

def Covered (s : Store) : Prop :=
  ∀ frame outer, s.frames = frame :: outer → ∀ name symbol, frame.get? name = some symbol →
    (⟨name, symbol.depth, outer.length⟩ : ScopeRecord) ∈ s.records

theorem Recorded.covered {s : Store} (h : s.Recorded) : s.Covered := by
  intro frame outer hframes name symbol hget
  rw [Recorded, hframes] at h
  refine h.mem_iff.2 (List.mem_append_left _ (List.mem_map.2 ⟨(name, symbol), ?_, rfl⟩))
  exact Table.get?_eq_some_iff_mem.1 hget

theorem get?_dropDeeper (depth : Nat) (frame : Frame) (r : ScopeRecord) (name : String) :
    (dropDeeper depth frame r).get? name =
      (frame.get? name).filter fun symbol =>
        !(r.name == name && decide (depth < symbol.depth)) := by
  unfold dropDeeper
  by_cases hname : r.name = name
  · subst hname
    cases hget : frame.get? r.name with
    | none => simp [hget]
    | some symbol =>
      by_cases hdeep : depth < symbol.depth
      · simp [Option.filter, hdeep]
      · simp [Option.filter, hdeep, hget]
  · cases hget : frame.get? r.name with
    | none => cases frame.get? name <;> simp [Option.filter, hname]
    | some symbol =>
      by_cases hdeep : depth < symbol.depth
      · cases hother : frame.get? name <;> simp [Option.filter, hdeep, hname, Ne.symm hname, hother]
      · cases hother : frame.get? name <;> simp [Option.filter, hdeep, hname, hother]

/-- Dropping by records one after another drops a deeper symbol that one of them names. -/
theorem get?_foldl_dropDeeper (depth : Nat) (frame : Frame) (records : List ScopeRecord)
    (name : String) :
    (records.foldl (dropDeeper depth) frame).get? name =
      (frame.get? name).filter fun symbol =>
        !(records.any (fun r => r.name == name) && decide (depth < symbol.depth)) := by
  induction records generalizing frame with
  | nil => cases hget : frame.get? name <;> simp [Option.filter, hget]
  | cons r rest ih =>
    rw [List.foldl_cons, ih, get?_dropDeeper, List.any_cons]
    cases frame.get? name with
    | none => rfl
    | some symbol =>
      by_cases hname : r.name = name <;> by_cases hdeep : depth < symbol.depth <;>
        simp [Option.filter, hname, hdeep]

/-- Leaving a block keeps the symbols of the innermost frame up to a depth, and all outer ones. -/
theorem frames_cleanup {s : Store} (h : s.Covered) (depth : Nat) :
    (s.cleanup depth).frames =
      s.frames.modifyHead (Table.filter fun symbol => decide (symbol.depth ≤ depth)) := by
  obtain ⟨frames, requests, signatures, records⟩ := s
  cases frames with
  | nil => rfl
  | cons frame outer =>
    simp only [cleanup, List.modifyHead_cons]
    congr 1
    apply Table.ext_get?
    intro name
    rw [get?_foldl_dropDeeper, Table.get?_filter]
    cases hget : frame.get? name with
    | none => rfl
    | some symbol =>
      by_cases hdeep : depth < symbol.depth
      · have hrecord := h frame outer rfl name symbol hget
        have hany : (records.filter fun r => r.isDeeper outer.length depth).any
            (fun r => r.name == name) = true := by
          refine List.any_eq_true.2 ⟨_, List.mem_filter.2 ⟨hrecord, ?_⟩, by simp⟩
          simpa [ScopeRecord.isDeeper] using hdeep
        simp [Option.filter, hany, hdeep]
      · simp [Option.filter, hdeep, Nat.not_lt.1 hdeep]

theorem Recorded.cleanup {s : Store} (h : s.Recorded) (depth : Nat) :
    (s.cleanup depth).Recorded := by
  have hframes := frames_cleanup h.covered depth
  obtain ⟨frames, requests, signatures, records⟩ := s
  cases frames with
  | nil => exact h
  | cons frame outer =>
    have hall := h.filter fun r => !r.isDeeper outer.length depth
    rw [symbolRecords, List.filter_append,
      filter_symbolRecords fun r hr => by simp [ScopeRecord.isDeeper, Nat.ne_of_lt hr],
      ← frameRecords_filter outer.length frame (fun symbol => decide (symbol.depth ≤ depth)) _
        fun name symbol => by rw [Bool.eq_iff_iff]; simp [ScopeRecord.isDeeper]] at hall
    rw [Recorded, hframes]
    exact hall

end Store

end ApiScript
