/-!
# Tables

A table binds names to values and lists its entries in increasing order of the names. The list is
determined by the bindings, so tables with the same bindings are equal.
-/
namespace ApiScript

structure Table (α : Type) where
  entries : List (String × α)
  ordered : entries.Pairwise fun a b => a.1 < b.1
  deriving DecidableEq

namespace Table

variable {α : Type}

def empty : Table α := ⟨[], .nil⟩

instance : EmptyCollection (Table α) := ⟨empty⟩

instance : Inhabited (Table α) := ⟨empty⟩

def lookup (name : String) : List (String × α) → Option α
  | [] => none
  | entry :: rest => if name = entry.1 then some entry.2 else lookup name rest

def get? (t : Table α) (name : String) : Option α := lookup name t.entries

def contains (t : Table α) (name : String) : Bool := (t.get? name).isSome

def names (t : Table α) : List String := t.entries.map Prod.fst

def insertEntry (name : String) (value : α) : List (String × α) → List (String × α)
  | [] => [(name, value)]
  | entry :: rest =>
    if name < entry.1 then (name, value) :: entry :: rest
    else if name = entry.1 then (name, value) :: rest
    else entry :: insertEntry name value rest

theorem lt_of_not_lt_of_ne {a b : String} (h : ¬ a < b) (hne : a ≠ b) : b < a := by
  by_cases hba : b < a
  · exact hba
  · exact absurd (String.le_antisymm (String.not_lt.1 hba) (String.not_lt.1 h)) hne

theorem mem_insertEntry {name : String} {value : α} {entries : List (String × α)}
    {e : String × α} (h : e ∈ insertEntry name value entries) :
    e = (name, value) ∨ e ∈ entries := by
  induction entries with
  | nil => simpa [insertEntry] using h
  | cons entry rest ih =>
    unfold insertEntry at h
    split at h
    · simpa using h
    · split at h
      · rcases List.mem_cons.1 h with h | h
        · exact .inl h
        · exact .inr (List.mem_cons_of_mem _ h)
      · rcases List.mem_cons.1 h with h | h
        · exact .inr (h ▸ List.mem_cons_self)
        · exact (ih h).imp id (List.mem_cons_of_mem _)

theorem ordered_insertEntry (name : String) (value : α) {entries : List (String × α)}
    (h : entries.Pairwise fun a b => a.1 < b.1) :
    (insertEntry name value entries).Pairwise fun a b => a.1 < b.1 := by
  induction entries with
  | nil => simp [insertEntry]
  | cons entry rest ih =>
    obtain ⟨hhead, hrest⟩ := List.pairwise_cons.1 h
    unfold insertEntry
    split
    · rename_i hlt
      refine List.pairwise_cons.2 ⟨?_, h⟩
      intro e he
      rcases List.mem_cons.1 he with rfl | he
      · exact hlt
      · exact String.lt_trans hlt (hhead e he)
    · rename_i hlt
      split
      · rename_i heq
        exact List.pairwise_cons.2 ⟨fun e he => heq ▸ hhead e he, hrest⟩
      · rename_i hne
        refine List.pairwise_cons.2 ⟨?_, ih hrest⟩
        intro e he
        rcases mem_insertEntry he with rfl | he
        · exact lt_of_not_lt_of_ne hlt hne
        · exact hhead e he

def insert (t : Table α) (name : String) (value : α) : Table α :=
  ⟨insertEntry name value t.entries, ordered_insertEntry name value t.ordered⟩

def erase (t : Table α) (name : String) : Table α :=
  ⟨t.entries.filter (fun e => e.1 != name), t.ordered.filter _⟩

def ofList (bindings : List (String × α)) : Table α :=
  bindings.foldl (fun t b => t.insert b.1 b.2) empty

@[simp]
theorem get?_empty (name : String) : (empty : Table α).get? name = none := rfl

theorem lookup_insertEntry (name : String) (value : α) (entries : List (String × α))
    (other : String) :
    lookup other (insertEntry name value entries) =
      if other = name then some value else lookup other entries := by
  induction entries with
  | nil => rfl
  | cons entry rest ih =>
    unfold insertEntry
    split
    · rfl
    · split
      · rename_i heq
        by_cases h : other = name
        · simp [lookup, h]
        · simp [lookup, h, ← heq]
      · rename_i hne
        by_cases h : other = name
        · subst h
          simp [lookup, ih, hne]
        · simp [lookup, ih, h]

@[simp]
theorem get?_insert (t : Table α) (name : String) (value : α) (other : String) :
    (t.insert name value).get? other = if other = name then some value else t.get? other :=
  lookup_insertEntry name value t.entries other

theorem lookup_filter_ne (name : String) (entries : List (String × α)) (other : String) :
    lookup other (entries.filter fun e => e.1 != name) =
      if other = name then none else lookup other entries := by
  induction entries with
  | nil => simp [lookup]
  | cons entry rest ih =>
    by_cases hentry : entry.1 = name
    · rw [List.filter_cons_of_neg (by simpa using hentry), ih]
      by_cases h : other = name
      · simp [h]
      · simp [lookup, h, hentry]
    · rw [List.filter_cons_of_pos (by simpa using hentry), lookup, ih]
      by_cases h : other = name
      · simp [h, Ne.symm hentry]
      · simp [lookup, h]

@[simp]
theorem get?_erase (t : Table α) (name other : String) :
    (t.erase name).get? other = if other = name then none else t.get? other :=
  lookup_filter_ne name t.entries other

theorem contains_eq_true_iff {t : Table α} {name : String} :
    t.contains name = true ↔ ∃ value, t.get? name = some value := by
  rw [contains, Option.isSome_iff_exists]

theorem lookup_eq_none_of_forall_lt {entries : List (String × α)} {name : String}
    (h : ∀ e ∈ entries, name < e.1) : lookup name entries = none := by
  induction entries with
  | nil => rfl
  | cons entry rest ih =>
    have hne : name ≠ entry.1 := by
      intro heq
      exact String.lt_irrefl name (heq ▸ h entry List.mem_cons_self)
    rw [lookup, if_neg hne, ih fun e he => h e (List.mem_cons_of_mem _ he)]

/-- The first of some ordered entries is bound by other ordered entries only as their first. -/
theorem head_le_of_lookup_eq {a b : String × α} {l r : List (String × α)}
    (hbr : ∀ e ∈ r, b.1 < e.1) (h : lookup a.1 (a :: l) = lookup a.1 (b :: r)) :
    ¬ a.1 < b.1 := by
  intro hlt
  have hnone : lookup a.1 (b :: r) = none := by
    apply lookup_eq_none_of_forall_lt
    intro e he
    rcases List.mem_cons.1 he with rfl | he
    · exact hlt
    · exact String.lt_trans hlt (hbr e he)
  rw [hnone] at h
  simp [lookup] at h

/-- In order, the entries are determined by what they bind. -/
theorem entries_eq_of_lookup_eq {l r : List (String × α)}
    (hl : l.Pairwise fun a b => a.1 < b.1) (hr : r.Pairwise fun a b => a.1 < b.1)
    (h : ∀ name, lookup name l = lookup name r) : l = r := by
  induction l generalizing r with
  | nil =>
    cases r with
    | nil => rfl
    | cons b r => simpa [lookup] using h b.1
  | cons a l ih =>
    cases r with
    | nil => simpa [lookup] using h a.1
    | cons b r =>
      obtain ⟨hal, hl'⟩ := List.pairwise_cons.1 hl
      obtain ⟨hbr, hr'⟩ := List.pairwise_cons.1 hr
      have hname : a.1 = b.1 :=
        String.le_antisymm (String.not_lt.1 (head_le_of_lookup_eq hal (h b.1).symm))
          (String.not_lt.1 (head_le_of_lookup_eq hbr (h a.1)))
      have hvalue : a.2 = b.2 := by simpa [lookup, hname] using h a.1
      obtain rfl : a = b := Prod.ext hname hvalue
      congr 1
      refine ih hl' hr' fun name => ?_
      by_cases hn : name = a.1
      · rw [hn, lookup_eq_none_of_forall_lt hal, lookup_eq_none_of_forall_lt hbr]
      · simpa [lookup, hn] using h name

theorem ext_get? {t u : Table α} (h : ∀ name, t.get? name = u.get? name) : t = u := by
  obtain ⟨l, hl⟩ := t
  obtain ⟨r, hr⟩ := u
  obtain rfl : l = r := entries_eq_of_lookup_eq hl hr h
  rfl

end Table

end ApiScript
