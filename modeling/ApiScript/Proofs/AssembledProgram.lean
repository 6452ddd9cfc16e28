import ApiScript.Proofs.AssemblyGrammar
import ApiScript.Proofs.OpenStack
import ApiScript.Proofs.Slips

/-!
# Assembled programs

A program that a fresh machine assembles is a list of functions with names of their own, and its
statements are as a line says them. The machine knows the parameters of these functions and of no
others, so the table of signatures and the program never disagree on what is defined.
-/
namespace ApiScript

open Statement Grammar

theorem SourceLine.exists_read? {line : SourceLine} {i : Instruction}
    (h : line.instruction? = .ok (some i)) : ∃ raw, Instruction.read? raw = .ok (some i) := by
  unfold instruction? at h
  split at h
  · cases h
  · cases h
  next keyword rest _ =>
  split at h
  · cases h
  split at h
  · cases h
  · cases h
  next found hread =>
  cases h
  exact ⟨keyword :: rest, hread⟩

namespace Assembly

variable {builtin : String → Bool} {a b : Assembly} {p : Placed}

/-- Only a definition, and that of a new name, changes what an assembly knows. -/
theorem Advances.signatures_cases (h : Advances builtin a p b) :
    (∃ signature, p.instruction = .define signature ∧
      a.signatures.contains signature.name = false ∧
      b.signatures = a.signatures.insert signature.name signature.params) ∨
    (∀ signature, p.instruction ≠ .define signature) ∧ b.signatures = a.signatures := by
  cases h with
  | @define signature _ _ _ hnew => exact .inl ⟨signature, rfl, hnew, rfl⟩
  | @simple i l hin hsimple =>
    refine .inr ⟨?_, signatures_attach a _⟩
    rintro signature rfl
    cases hsimple
  | branch => exact .inr ⟨nofun, rfl⟩
  | loop => exact .inr ⟨nofun, rfl⟩
  | otherwise hin hswitch =>
    refine .inr ⟨nofun, ?_⟩
    obtain ⟨top, outer, -, -, -, ⟨-, rfl⟩ | ⟨c, -, rfl⟩⟩ := switch_cases hswitch <;> rfl
  | close hin hclose => exact .inr ⟨nofun, signatures_close hclose⟩

/-- An instruction adds itself as a statement, or the branch that follows an `else`. -/
theorem Advances.added_cases (h : Advances builtin a p b) :
    p.added = some p ∨ definedNames [p] = [] ∧ (p.added = none ∨
      ∃ chained c l, Instruction.read? chained = .ok (some (.branch c)) ∧
        p.added = some ⟨.branch c, l⟩) := by
  cases h with
  | define => exact .inl rfl
  | simple _ hsimple => exact .inl (added_eq_self (isBoundary_of_isSimple hsimple) _)
  | branch => exact .inl rfl
  | loop => exact .inl rfl
  | close => exact .inr ⟨rfl, .inl rfl⟩
  | @otherwise chained l _ hin hswitch =>
    refine .inr ⟨rfl, ?_⟩
    obtain ⟨top, outer, -, -, -, ⟨rfl, -⟩ | ⟨c, hopens, -⟩⟩ := switch_cases hswitch
    · exact .inl rfl
    · exact .inr ⟨chained, c, l, hopens.2, added_otherwise hopens l⟩

theorem Advances.definedNames_added (h : Advances builtin a p b) :
    definedNames p.added.toList = definedNames [p] := by
  rcases h.added_cases with hself | ⟨hnone, hadded | ⟨chained, c, l, -, hadded⟩⟩
  · rw [hself, Option.toList_some]
  · rw [hadded, hnone]
    rfl
  · rw [hadded, hnone]
    rfl

theorem Advances.read_added (h : Advances builtin a p b)
    (hp : ∃ raw, Instruction.read? raw = .ok (some p.instruction)) :
    ∀ q ∈ p.added.toList, ∃ raw, Instruction.read? raw = .ok (some q.instruction) := by
  intro q hq
  rw [Option.mem_toList] at hq
  rcases h.added_cases with hself | ⟨-, hadded | ⟨chained, c, l, hread, hadded⟩⟩
  · rw [hself] at hq
    cases hq
    exact hp
  · rw [hadded] at hq
    cases hq
  · rw [hadded] at hq
    cases hq
    exact ⟨chained, hread⟩

structure Registered (builtin : String → Bool) (a : Assembly) : Prop where
  orderly : a.Orderly
  read : ∀ p ∈ a.heads, ∃ raw, Instruction.read? raw = .ok (some p.instruction)
  named : Named builtin a.heads a
  signed : ∀ p ∈ a.heads, ∀ signature, p.instruction = .define signature →
    a.signatures.get? signature.name = some signature.params

theorem registered_empty (builtin : String → Bool) : Registered builtin {} where
  orderly := orderly_empty ∅ 0
  read p hp := absurd hp (not_mem_heads_empty p)
  named := named_empty
  signed p hp := absurd hp (not_mem_heads_empty p)

theorem Registered.countLine (h : Registered builtin a) :
    Registered builtin { a with line := a.line + 1 } where
  orderly := ⟨h.orderly.finished, h.orderly.stacked, h.orderly.inside⟩
  read := h.read
  named := ⟨h.named.nodup, h.named.free, h.named.known⟩
  signed := h.signed

theorem Registered.advance (h : Registered builtin a)
    (hp : ∃ raw, Instruction.read? raw = .ok (some p.instruction))
    (hstep : Advances builtin a p b) : Registered builtin b := by
  obtain ⟨horderly, hheads, -⟩ := h.orderly.advance hstep
  have hnames : definedNames b.heads = definedNames (a.heads ++ [p]) := by
    rw [hheads, definedNames_append, definedNames_append, hstep.definedNames_added]
  have hnamed := h.named.step hstep
  refine ⟨horderly, ?_, ⟨hnames ▸ hnamed.nodup, hnames ▸ hnamed.free, hnames ▸ hnamed.known⟩, ?_⟩
  · rw [hheads]
    intro q hq
    exact (List.mem_append.1 hq).elim (h.read q) (hstep.read_added hp q)
  · rw [hheads]
    intro q hq signature hsignature
    rcases hstep.signatures_cases with ⟨new, hnew, hfresh, hb⟩ | ⟨hnone, hb⟩
    · have hself : p.added = some p := added_eq_self (by rw [hnew]; rfl) p.location
      rw [hself, Option.toList_some] at hq
      rw [hb, Table.get?_insert]
      rcases List.mem_append.1 hq with hq | hq
      · -- the name was known before, so it is not the new one
        have hold := h.signed q hq signature hsignature
        have hne : signature.name ≠ new.name := by
          intro heq
          simp [Table.contains, ← heq, hold] at hfresh
        rw [if_neg hne, hold]
      · rw [List.mem_singleton.1 hq, hnew] at hsignature
        cases hsignature
        exact if_pos rfl
    · rw [hb]
      rcases List.mem_append.1 hq with hq | hq
      · exact h.signed q hq signature hsignature
      · rcases hstep.added_cases with hself | ⟨-, hadded | ⟨chained, c, l, -, hadded⟩⟩
        · rw [hself, Option.toList_some] at hq
          exact absurd (List.mem_singleton.1 hq ▸ hsignature) (hnone signature)
        · simp [hadded] at hq
        · rw [hadded, Option.toList_some] at hq
          rw [List.mem_singleton.1 hq] at hsignature
          cases hsignature

theorem Registered.appendAll {lines : List SourceLine} (h : Registered builtin a)
    (happend : a.appendAll builtin lines = (b, none)) : Registered builtin b := by
  induction lines generalizing a with
  | nil =>
    cases happend
    exact h
  | cons line rest ih =>
    rw [Assembly.appendAll] at happend
    split at happend
    · next c hline =>
      refine ih ?_ happend
      obtain ⟨entry, hentry, hc⟩ := appendLine_eq_iff.1 hline
      cases entry with
      | none =>
        subst hc
        exact h.countLine
      | some i =>
        exact h.countLine.advance (SourceLine.exists_read? hentry) (advances_of_advance hc)
    · cases happend

end Assembly

namespace Statement

def name? (s : Statement) : Option String :=
  match s.instruction with
  | .define signature => some signature.name
  | _ => none

theorem name?_of_define {s : Statement} {signature : Signature}
    (h : s.instruction = .define signature) : s.name? = some signature.name := by
  simp [name?, h]

theorem name?_eq_some_iff {s : Statement} {name : String} :
    s.name? = some name ↔
      ∃ signature, s.instruction = .define signature ∧ signature.name = name := by
  unfold name?
  cases s.instruction <;> simp

theorem Inner.name?_eq_none {s : Statement} (h : s.Inner) : s.name? = none := by
  cases h with
  | @simple i l hsimple =>
    cases i with
    | define signature => cases hsimple
    | _ => rfl
  | loop => rfl
  | branch => rfl

theorem definedNames_heads (ss : List Statement) :
    definedNames (heads ss) = (preorder ss).filterMap name? := by
  rw [definedNames, heads, List.filterMap_map]
  rfl

/-- Functions hold no definitions inside, so a list of them defines one name each. -/
theorem definedNames_heads_of_functions {ss : List Statement} (h : ∀ s ∈ ss, s.Function) :
    definedNames (heads ss) = ss.filterMap name? := by
  rw [definedNames_heads]
  induction ss with
  | nil => rfl
  | cons s rest ih =>
    obtain ⟨hs, hrest⟩ := List.forall_mem_cons.1 h
    have hinside {inner : List Statement} (hinner : ∀ t ∈ inner, t ∈ s.children) :
        (preorder inner).filterMap name? = [] := by
      apply List.filterMap_eq_nil_iff.2
      intro t ht
      obtain ⟨child, hchild, ht⟩ := mem_preorder_iff.1 ht
      have hmem := mem_preorder_iff.2 ⟨child, hinner child hchild, ht⟩
      exact (inner_of_mem_preorder_children (.inl hs) hmem).name?_eq_none
    rw [preorder_cons, List.filterMap_cons, List.filterMap_append, List.filterMap_append,
      hinside fun t => List.mem_append_left _, hinside fun t => List.mem_append_right _, ih hrest,
      List.filterMap_cons]
    rfl

end Statement

namespace Program

theorem defines_iff {name : String} {s : Statement} :
    defines name s = true ↔ s.name? = some name := by
  unfold defines name?
  cases s.instruction <;> simp

/-- Names that differ lead back to the functions that have them. -/
theorem find?_defines_of_nodup {ss : List Statement} (h : (ss.filterMap name?).Nodup)
    {s : Statement} (hs : s ∈ ss) {name : String} (hname : s.name? = some name) :
    ss.find? (defines name) = some s := by
  induction ss with
  | nil => cases hs
  | cons first rest ih =>
    by_cases hfirst : first.name? = some name
    · rw [List.find?_cons_of_pos (defines_iff.2 hfirst)]
      rcases List.mem_cons.1 hs with rfl | hs
      · rfl
      · rw [List.filterMap_cons_some hfirst, List.nodup_cons] at h
        exact absurd (List.mem_filterMap.2 ⟨s, hs, hname⟩) h.1
    · rw [List.find?_cons_of_neg (mt defines_iff.1 hfirst)]
      rcases List.mem_cons.1 hs with rfl | hs
      · exact absurd hname hfirst
      · refine ih ?_ hs
        have hsublist : (rest.filterMap name?).Sublist ((first :: rest).filterMap name?) :=
          (List.sublist_cons_self first rest).filterMap name?
        exact h.sublist hsublist

def IsRead (program : Program) : Prop :=
  ∀ s ∈ preorder program.statements, ∃ raw, Instruction.read? raw = .ok (some s.instruction)

def Declares (program : Program) (signature : Signature) : Prop :=
  ∃ s ∈ preorder program.statements, s.instruction = .define signature

end Program

structure Assembled (program : Program) (m : Machine) : Prop where
  fresh : ∃ input signatures, m = { input, store := { signatures } }
  functions : ∀ s ∈ program.statements, s.Function
  read : program.IsRead
  nodup : (definedNames (heads program.statements)).Nodup
  free : ∀ name ∈ definedNames (heads program.statements), m.isBuiltin name = false
  known : ∀ name, m.store.signatures.contains name = true ↔
    name ∈ definedNames (heads program.statements)
  signed : ∀ signature, program.Declares signature →
    m.store.signatures.get? signature.name = some signature.params

theorem assembled_of_assemble {input : List InputLine} {sources : List (String × String)}
    {program : Program} {m : Machine}
    (h : ({ input } : Machine).assemble sources = (.ok program, m)) : Assembled program m := by
  have hstart : ({ input } : Machine).startAssembly.appendSources
      ({ input } : Machine).isBuiltin sources =
        ({} : Assembly).appendAll Builtin.standard.contains (SourceLine.ofSources sources) :=
    Assembly.appendSources_eq_appendAll {} sources
  rw [Machine.assemble, hstart] at h
  split at h
  · cases h
  next a happend =>
  obtain ⟨hfinish, rfl⟩ := Prod.mk.inj h
  have hregistered := (Assembly.registered_empty Builtin.standard.contains).appendAll happend
  unfold Assembly.finish at hfinish
  split at hfinish
  · next hopen =>
    cases hfinish
    have hheads : a.heads = heads a.finished := by simp [Assembly.heads, Assembly.roots, hopen]
    have hhead (s : Statement) (hs : s ∈ preorder a.finished) : s.head ∈ a.heads :=
      hheads ▸ List.mem_map_of_mem hs
    refine ⟨⟨input, a.signatures, rfl⟩, hregistered.orderly.finished, ?_,
      hheads ▸ hregistered.named.nodup, hheads ▸ hregistered.named.free,
      hheads ▸ hregistered.named.known, ?_⟩
    · exact fun s hs => hregistered.read s.head (hhead s hs)
    · rintro signature ⟨s, hs, hsignature⟩
      exact hregistered.signed s.head (hhead s hs) signature hsignature
  · cases hfinish

namespace Assembled

variable {program : Program} {m : Machine}

theorem mem_definedNames (name : String) : name ∈ definedNames (heads program.statements) ↔
    ∃ signature, program.Declares signature ∧ signature.name = name := by
  simp only [definedNames_heads, List.mem_filterMap, name?_eq_some_iff, Program.Declares]
  constructor
  · rintro ⟨s, hs, signature, hsignature, hname⟩
    exact ⟨signature, ⟨s, hs, hsignature⟩, hname⟩
  · rintro ⟨signature, ⟨s, hs, hsignature⟩, hname⟩
    exact ⟨s, hs, signature, hsignature, hname⟩

theorem mem_of_define (h : Assembled program m) {s : Statement}
    (hs : s ∈ preorder program.statements) {signature : Signature}
    (hsignature : s.instruction = .define signature) : s ∈ program.statements := by
  obtain ⟨root, hroot, hs⟩ := mem_preorder_iff.1 hs
  by_cases hself : s = root
  · exact hself ▸ hroot
  · have hinner : s.Inner := by
      refine inner_of_mem_preorder_children (.inl (h.functions root hroot)) ?_
      simpa [mem_preorder_cons, hself, children] using hs
    have hname := hinner.name?_eq_none
    rw [name?_of_define hsignature] at hname
    cases hname

/-- A definition is found by its name. -/
theorem function?_of_define (h : Assembled program m) {s : Statement}
    (hs : s ∈ preorder program.statements) {signature : Signature}
    (hsignature : s.instruction = .define signature) :
    program.function? signature.name = some s := by
  have hnodup := h.nodup
  rw [definedNames_heads_of_functions h.functions] at hnodup
  exact Program.find?_defines_of_nodup hnodup (h.mem_of_define hs hsignature)
    (name?_of_define hsignature)

/-- Definitions of one name are one definition. -/
theorem declares_unique (h : Assembled program m) {first second : Signature}
    (hfirst : program.Declares first) (hsecond : program.Declares second)
    (hname : first.name = second.name) : first = second := by
  obtain ⟨s, hs, hsfirst⟩ := hfirst
  obtain ⟨t, ht, htsecond⟩ := hsecond
  have hfound := h.function?_of_define hs hsfirst
  rw [hname, h.function?_of_define ht htsecond] at hfound
  cases hfound
  rw [hsfirst] at htsecond
  cases htsecond
  rfl

theorem signature_of_declares (h : Assembled program m) {n : Machine}
    (hn : n.store.signatures = m.store.signatures) {signature : Signature}
    (hdeclares : program.Declares signature) :
    n.store.signature signature.name = .ok signature.params := by
  rw [Store.signature, hn, h.signed signature hdeclares]

theorem signature_of_not_declares (h : Assembled program m) {n : Machine}
    (hn : n.store.signatures = m.store.signatures) {name : String}
    (hnot : ∀ signature, program.Declares signature → signature.name ≠ name) :
    n.store.signature name = .error (.undeclaredFunction name) := by
  have hunknown : m.store.signatures.contains name ≠ true := by
    rw [Ne, h.known, mem_definedNames]
    rintro ⟨signature, hdeclares, hname⟩
    exact hnot signature hdeclares hname
  cases hget : m.store.signatures.get? name with
  | none => rw [Store.signature, hn, hget]
  | some params => exact absurd (Table.contains_eq_true_iff.2 ⟨params, hget⟩) hunknown

/-- A call is refused if its function is not defined, has another number of parameters, or would
have too many callers. -/
theorem refusal?_eq (h : Assembled program m) {n : Machine}
    (hn : n.store.signatures = m.store.signatures) (name : String) (count : Nat) :
    (∃ signature, program.Declares signature ∧ signature.name = name ∧
      program.refusal? n name count =
        if signature.params.length ≠ count then some (.argumentCount name)
        else if maxCallDepth ≤ n.callers.length then some (.callDepth maxCallDepth) else none) ∨
    (∀ signature, program.Declares signature → signature.name ≠ name) ∧
      program.refusal? n name count = some (.undeclaredFunction name) := by
  by_cases hdeclared : ∃ signature, program.Declares signature ∧ signature.name = name
  · obtain ⟨signature, hdeclares, rfl⟩ := hdeclared
    refine .inl ⟨signature, hdeclares, rfl, ?_⟩
    have hsignature := h.signature_of_declares hn hdeclares
    obtain ⟨s, hs, hdefine⟩ := hdeclares
    simp only [Program.refusal?, hsignature, h.function?_of_define hs hdefine]
  · have hnot : ∀ signature, program.Declares signature → signature.name ≠ name :=
      fun signature hdeclares hname => hdeclared ⟨signature, hdeclares, hname⟩
    exact .inr ⟨hnot, by simp only [Program.refusal?, h.signature_of_not_declares hn hnot]⟩

/-- Inside the functions of an assembled program no boundary is left to execute. -/
theorem inner_of_function? (h : Assembled program m) {name : String} {function s : Statement}
    (hfunction : program.function? name = some function) (hs : s ∈ preorder function.body) :
    s.Inner := by
  have hmem : function ∈ program.statements := List.mem_of_find?_eq_some hfunction
  refine inner_of_mem_preorder_children (.inl (h.functions function hmem)) ?_
  simp [children, hs]

end Assembled

end ApiScript
