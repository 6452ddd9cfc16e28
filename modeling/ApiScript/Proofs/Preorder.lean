import ApiScript.Proofs.BlockGrammar

/-!
# The preorder of statements

The listing of a program without depths and places: each statement before those of its body, and
these before those of its other branch. What stands inside a statement of the preorder stands in the
preorder too.
-/
namespace ApiScript.Statement

def preorder (ss : List Statement) : List Statement :=
  (listingAll 0 .top ss).map Listed.statement

mutual

theorem map_statement_listing (depth : Nat) (place : Place) (s : Statement) :
    (s.listing depth place).map Listed.statement = (s.listing 0 .top).map Listed.statement := by
  obtain ⟨i, l, body, alt⟩ := s
  simp only [listing, List.map_cons, List.map_append]
  rw [map_statement_listingAll (depth + 1) .body body, map_statement_listingAll (0 + 1) .body body,
    map_statement_listingAll (depth + 1) .alt alt, map_statement_listingAll (0 + 1) .alt alt]

theorem map_statement_listingAll (depth : Nat) (place : Place) (ss : List Statement) :
    (listingAll depth place ss).map Listed.statement = preorder ss := by
  cases ss with
  | nil => rfl
  | cons s rest =>
    rw [preorder, listingAll, listingAll, List.map_append, List.map_append,
      map_statement_listing depth place s, map_statement_listingAll depth place rest, preorder]

end

@[simp]
theorem preorder_nil : preorder [] = [] := rfl

theorem preorder_cons (s : Statement) (rest : List Statement) :
    preorder (s :: rest) = s :: (preorder s.body ++ preorder s.alt ++ preorder rest) := by
  obtain ⟨i, l, body, alt⟩ := s
  rw [preorder, listingAll, List.map_append, listing, List.map_cons, List.map_append,
    map_statement_listingAll, map_statement_listingAll, map_statement_listingAll]
  rfl

@[simp]
theorem preorder_append (first second : List Statement) :
    preorder (first ++ second) = preorder first ++ preorder second := by
  induction first with
  | nil => rfl
  | cons s rest ih => simp [preorder_cons, ih]

@[simp]
theorem preorder_leaf (i : Instruction) (l : Location) : preorder [leaf i l] = [leaf i l] := rfl

theorem mem_preorder_self {s : Statement} {ss : List Statement} (h : s ∈ ss) : s ∈ preorder ss := by
  obtain ⟨before, after, rfl⟩ := List.append_of_mem h
  simp [preorder_cons]

theorem mem_preorder_iff {t : Statement} {ss : List Statement} :
    t ∈ preorder ss ↔ ∃ s ∈ ss, t ∈ preorder [s] := by
  induction ss with
  | nil => simp
  | cons s rest ih =>
    have hcons : preorder (s :: rest) = preorder [s] ++ preorder rest :=
      preorder_append [s] rest
    simp [hcons, ih]

def children (s : Statement) : List Statement := s.body ++ s.alt

theorem mem_preorder_cons {t s : Statement} {rest : List Statement} :
    t ∈ preorder (s :: rest) ↔
      t = s ∨ t ∈ preorder s.body ∨ t ∈ preorder s.alt ∨ t ∈ preorder rest := by
  simp [preorder_cons]

/-- The preorder holds whatever the preorder of one of its statements holds. -/
theorem mem_preorder_trans {t s : Statement} :
    (ss : List Statement) → s ∈ preorder ss → t ∈ preorder [s] → t ∈ preorder ss
  | [], hs, _ => by simp at hs
  | ⟨i, l, body, alt⟩ :: rest, hs, ht => by
    rw [mem_preorder_cons] at hs ⊢
    rcases hs with rfl | hs | hs | hs
    · rcases mem_preorder_cons.1 ht with ht | ht | ht | ht
      · exact .inl ht
      · exact .inr (.inl ht)
      · exact .inr (.inr (.inl ht))
      · cases ht
    · exact .inr (.inl (mem_preorder_trans body hs ht))
    · exact .inr (.inr (.inl (mem_preorder_trans alt hs ht)))
    · exact .inr (.inr (.inr (mem_preorder_trans rest hs ht)))

/-- The preorder holds whatever stands directly inside one of its statements. -/
theorem mem_preorder_of_mem_children {t s : Statement} (ss : List Statement)
    (hs : s ∈ preorder ss) (ht : t ∈ s.children) : t ∈ preorder ss := by
  refine mem_preorder_trans ss hs (mem_preorder_cons.2 (.inr ?_))
  rcases List.mem_append.1 ht with ht | ht
  · exact .inl (mem_preorder_self ht)
  · exact .inr (.inl (mem_preorder_self ht))

def Every (p : Instruction → Prop) (s : Statement) : Prop := ∀ t ∈ preorder [s], p t.instruction

namespace Every

variable {p : Instruction → Prop} {s t : Statement}

theorem instruction (h : s.Every p) : p s.instruction := h s (mem_preorder_self List.mem_cons_self)

theorem child (h : s.Every p) (ht : t ∈ s.children) : t.Every p := by
  intro u hu
  refine h u (mem_preorder_cons.2 (.inr ?_))
  rcases List.mem_append.1 ht with ht | ht
  · exact .inl (mem_preorder_iff.2 ⟨t, ht, hu⟩)
  · exact .inr (.inl (mem_preorder_iff.2 ⟨t, ht, hu⟩))

/-- What holds of a whole program holds of the body of each function. -/
theorem of_function {program : Program} (h : ∀ u ∈ preorder program.statements, p u.instruction)
    {name : String} {function : Statement} (hfunction : program.function? name = some function)
    (ht : t ∈ function.body) : t.Every p := by
  have hevery : function.Every p := fun u hu =>
    h u (mem_preorder_iff.2 ⟨function, List.mem_of_find?_eq_some hfunction, hu⟩)
  exact hevery.child (List.mem_append_left _ ht)

end Every

end ApiScript.Statement
