import ApiScript.Proofs.AssembledProgram
import ApiScript.Proofs.AssemblyGrammar
import Mathlib.Tactic.Choose

/-!
# Scripts as lists of definitions

The lines of a script that assembles can be cut into parts, each of which is a complete definition
with the blank lines and comments around it. The parts may stand in any order: the lines then
assemble too, to the same functions in that order, but for the numbers of their lines.
-/
namespace ApiScript

open Grammar

namespace Statement

variable {f g : Location → Location}

mutual

theorem relocate_relocate (s : Statement) : (s.relocate f).relocate g = s.relocate (g ∘ f) := by
  obtain ⟨i, l, body, alt⟩ := s
  rw [relocate, relocate, relocate, relocateAll_relocateAll body, relocateAll_relocateAll alt]
  rfl

theorem relocateAll_relocateAll (ss : List Statement) :
    relocateAll g (relocateAll f ss) = relocateAll (g ∘ f) ss := by
  cases ss with
  | nil => rfl
  | cons s rest =>
    rw [relocateAll, relocateAll, relocateAll, relocate_relocate s, relocateAll_relocateAll rest]

end

end Statement

namespace Grammar

-- the grammar does not look at locations, so a derivation may be moved as a whole
mutual

theorem Item.relocate (f : Location → Location) {lines : List Placed} {s : Statement} :
    Item lines s → Item (lines.map (Placed.relocate f)) (s.relocate f)
  | .simple h => .simple h
  | .loop h => by
    rw [List.map_cons, List.map_append]
    exact .loop (h.relocate f)
  | .chain h htail => by
    rw [List.map_cons, List.map_append]
    exact .chain (h.relocate f) (htail.relocate f)

theorem Block.relocate (f : Location → Location) {lines : List Placed} {ss : List Statement} :
    Block lines ss → Block (lines.map (Placed.relocate f)) (Statement.relocateAll f ss)
  | .nil => .nil
  | .cons h hrest => by
    rw [List.map_append]
    exact .cons (h.relocate f) (hrest.relocate f)

theorem Tail.relocate (f : Location → Location) {lines : List Placed} {alt : List Statement} :
    Tail lines alt → Tail (lines.map (Placed.relocate f)) (Statement.relocateAll f alt)
  | .close => .close
  | .otherwise h => by
    rw [List.map_cons, List.map_append]
    exact .otherwise (h.relocate f)
  | .chained hopens h htail => by
    rw [List.map_cons, List.map_append]
    exact .chained hopens (h.relocate f) (htail.relocate f)

end

theorem Definition.relocate (f : Location → Location) {lines : List Placed} {s : Statement}
    (h : Definition lines s) : Definition (lines.map (Placed.relocate f)) (s.relocate f) := by
  cases h with
  | mk hblock =>
    rw [List.map_cons, List.map_append]
    exact .mk (hblock.relocate f)

end Grammar

namespace SourceLine

variable {lines rest : List SourceLine} {parts : List (List SourceLine)}

/-- Lines that follow another number of lines have their instructions elsewhere. -/
theorem map_relocate_placed {f : Location → Location} {n k : Nat}
    (hf : ∀ i file, f ⟨n + i, file⟩ = ⟨k + i, file⟩) (lines : List SourceLine) :
    (placed n lines).map (Placed.relocate f) = placed k lines := by
  induction lines generalizing n k with
  | nil => rfl
  | cons line rest ih =>
    have hrest := ih (n := n + 1) (k := k + 1) fun i file => by
      rw [Nat.add_assoc, hf, Nat.add_assoc]
    unfold placed
    split
    · next i _ =>
      rw [List.map_cons, hrest]
      exact congrArg (fun l => ⟨i, l⟩ :: placed (k + 1) rest) (hf 1 line.file)
    · exact hrest

theorem map_relocate_placed_zero (n : Nat) (lines : List SourceLine) :
    (placed 0 lines).map (Placed.relocate fun l => ⟨n + l.line, l.file⟩) = placed n lines :=
  map_relocate_placed (fun i file => by rw [Nat.zero_add]) lines

theorem placed_zero_eq (n : Nat) (lines : List SourceLine) :
    placed 0 lines = (placed n lines).map (Placed.relocate fun l => ⟨l.line - n, l.file⟩) :=
  (map_relocate_placed
    (fun i file => by rw [Nat.add_sub_cancel_left, Nat.zero_add]) lines).symm

theorem placed_eq_nil (h : placed 0 lines = []) (n : Nat) : placed n lines = [] := by
  rw [← map_relocate_placed_zero, h]
  rfl

theorem placed_cons_blank {line : SourceLine} (h : ¬ ∃ i, line.instruction? = .ok (some i))
    (n : Nat) (rest : List SourceLine) : placed n (line :: rest) = placed (n + 1) rest := by
  rw [placed]
  split
  · next i hi => exact absurd ⟨i, hi⟩ h
  · rfl

/-- Where the instructions of some lines are split, the lines can be split. -/
theorem exists_append_of_placed {n : Nat} {ps qs : List Placed} (h : placed n lines = ps ++ qs) :
    ∃ first second, lines = first ++ second ∧ placed n first = ps ∧
      placed (n + first.length) second = qs := by
  induction lines generalizing n ps with
  | nil =>
    obtain ⟨rfl, rfl⟩ := List.append_eq_nil_iff.1 h.symm
    exact ⟨[], [], rfl, rfl, rfl⟩
  | cons line rest ih =>
    cases ps with
    | nil => exact ⟨[], line :: rest, rfl, rfl, h⟩
    | cons p ps =>
      have hcount (first : List SourceLine) :
          n + (line :: first).length = n + 1 + first.length := by
        rw [List.length_cons]
        omega
      by_cases hline : ∃ i, line.instruction? = .ok (some i)
      · obtain ⟨i, hi⟩ := hline
        rw [placed_cons_instruction hi, List.cons_append] at h
        obtain ⟨rfl, hrest⟩ := List.cons.inj h
        obtain ⟨first, second, rfl, hfirst, hsecond⟩ := ih hrest
        refine ⟨line :: first, second, rfl, ?_, ?_⟩
        · rw [placed_cons_instruction hi, hfirst]
        · rw [hcount, hsecond]
      · -- a line without an instruction goes with the instructions after it
        rw [placed_cons_blank hline] at h
        obtain ⟨first, second, rfl, hfirst, hsecond⟩ := ih h
        refine ⟨line :: first, second, rfl, ?_, ?_⟩
        · rw [placed_cons_blank hline, hfirst]
        · rw [hcount, hsecond]

/-- The lines cut into definitions, with the blank lines and comments that are left. -/
structure Cut (lines : List SourceLine) (parts : List (List SourceLine)) (rest : List SourceLine) :
    Prop where
  lines_eq : lines = parts.flatten ++ rest
  definition : ∀ part ∈ parts, ∃ s, Definition (placed 0 part) s
  blank : placed 0 rest = []

theorem exists_cut_of_definitions {n : Nat} {ss : List Statement}
    (h : Definitions (placed n lines) ss) : ∃ parts rest, Cut lines parts rest := by
  generalize hplaced : placed n lines = ps at h
  induction h generalizing n lines with
  | nil =>
    refine ⟨[], lines, rfl, List.forall_mem_nil _, ?_⟩
    rw [placed_zero_eq n, hplaced]
    rfl
  | cons hfirst _ ih =>
    obtain ⟨first, second, rfl, rfl, hsecond⟩ := exists_append_of_placed hplaced
    obtain ⟨parts, rest, hcut⟩ := ih hsecond
    refine ⟨first :: parts, rest, ?_, ?_, hcut.blank⟩
    · rw [hcut.lines_eq, List.flatten_cons, List.append_assoc]
    · rw [List.forall_mem_cons]
      refine ⟨?_, hcut.definition⟩
      rw [placed_zero_eq n]
      exact ⟨_, hfirst.relocate _⟩

/-- Definitions one after the other derive their functions, whatever their numbers are. -/
theorem exists_definitions {tree : List SourceLine → Statement}
    (h : ∀ part ∈ parts, Definition (placed 0 part) (tree part)) (n : Nat) :
    ∃ ss, Definitions (placed n parts.flatten) ss ∧
      Statement.relocateAll Location.unnumbered ss =
        parts.map fun part => (tree part).relocate Location.unnumbered := by
  induction parts generalizing n with
  | nil => exact ⟨[], .nil, rfl⟩
  | cons part parts ih =>
    rw [List.forall_mem_cons] at h
    obtain ⟨ss, hss, htrees⟩ := ih h.2 (n + part.length)
    have hmoved := h.1.relocate fun l => ⟨n + l.line, l.file⟩
    rw [map_relocate_placed_zero] at hmoved
    refine ⟨(tree part).relocate (fun l => ⟨n + l.line, l.file⟩) :: ss, ?_, ?_⟩
    · rw [List.flatten_cons, placed_append]
      exact .cons hmoved hss
    · rw [Statement.relocateAll, htrees, Statement.relocate_relocate, List.map_cons]
      rfl

def defined? (line : SourceLine) : Option String :=
  match line.instruction? with
  | .ok (some (.define signature)) => some signature.name
  | _ => none

theorem definedNames_placed (n : Nat) (lines : List SourceLine) :
    definedNames (placed n lines) = lines.filterMap defined? := by
  induction lines generalizing n with
  | nil => rfl
  | cons line rest ih =>
    rw [List.filterMap_cons]
    cases hline : line.instruction? with
    | ok entry =>
      cases entry with
      | some i =>
        rw [placed_cons_instruction hline, ← ih (n + 1)]
        cases i <;> simp [defined?, hline, definedNames]
      | none => simp [placed, defined?, hline, ih]
    | error cause => simp [placed, defined?, hline, ih]

open Assembly

/-- Lines that assemble to one function are a definition. -/
theorem exists_definition_of_assembleLines {builtin : String → Bool} {part : List SourceLine}
    (h : (assembleLines builtin part).toOption.map (fun p => p.statements.length) = some 1) :
    ∃ s, Definition (placed 0 part) s := by
  obtain ⟨⟨statements⟩, hprogram, hlength⟩ := Option.map_eq_some_iff.1 h
  obtain ⟨s, rfl⟩ := List.length_eq_one_iff.1 hlength
  have hderived := (assembleLines_eq_ok_iff.1 (toOption_eq_some_iff.1 hprogram)).2.1
  generalize placed 0 part = ps at hderived ⊢
  cases hderived with
  | cons hs hrest =>
    cases hrest
    rw [List.append_nil]
    exact ⟨s, hs⟩

/-- Lines that are cut into definitions assemble in every order of these, to the same functions but
for the numbers of their lines. -/
theorem Cut.exists_assembleLines {builtin : String → Bool} {program : Program}
    {parts₂ : List (List SourceLine)} (h : Cut lines parts rest) (hperm : parts.Perm parts₂)
    (hprogram : assembleLines builtin lines = .ok program) :
    ∃ program₂, assembleLines builtin (parts₂.flatten ++ rest) = .ok program₂ ∧
      program.unnumbered.statements.Perm program₂.unnumbered.statements := by
  obtain ⟨hread, -, hnodup, hfree⟩ := assembleLines_eq_ok_iff.1 hprogram
  have hlines : lines.Perm (parts₂.flatten ++ rest) := by
    rw [h.lines_eq]
    exact hperm.flatten.append_right rest
  have hnames : (definedNames (placed 0 lines)).Perm
      (definedNames (placed 0 (parts₂.flatten ++ rest))) := by
    rw [definedNames_placed, definedNames_placed]
    exact hlines.filterMap _
  have hblank (parts : List (List SourceLine)) :
      placed 0 (parts.flatten ++ rest) = placed 0 parts.flatten := by
    rw [placed_append, placed_eq_nil h.blank, List.append_nil]
  have : Nonempty Statement := ⟨.leaf .close ⟨0, ""⟩⟩
  choose! tree htree using h.definition
  have htree₂ : ∀ part ∈ parts₂, Definition (placed 0 part) (tree part) :=
    fun part hpart => htree part (hperm.mem_iff.2 hpart)
  obtain ⟨ss, hss, htrees⟩ := exists_definitions htree 0
  obtain ⟨ss₂, hss₂, htrees₂⟩ := exists_definitions htree₂ 0
  have hfirst : assembleLines builtin lines = .ok ⟨ss⟩ := by
    refine assembleLines_eq_ok_iff.2 ⟨hread, ?_, hnodup, hfree⟩
    rw [h.lines_eq, hblank]
    exact hss
  have hsecond : assembleLines builtin (parts₂.flatten ++ rest) = .ok ⟨ss₂⟩ := by
    refine assembleLines_eq_ok_iff.2 ⟨fun line hline => hread line (hlines.mem_iff.2 hline), ?_,
      hnames.nodup_iff.1 hnodup, fun name hname => hfree name (hnames.mem_iff.2 hname)⟩
    rw [hblank]
    exact hss₂
  obtain rfl : ⟨ss⟩ = program := Except.ok.inj (hfirst.symm.trans hprogram)
  refine ⟨⟨ss₂⟩, hsecond, ?_⟩
  change (Statement.relocateAll Location.unnumbered ss).Perm
    (Statement.relocateAll Location.unnumbered ss₂)
  rw [htrees, htrees₂]
  exact hperm.map _

end SourceLine

end ApiScript
