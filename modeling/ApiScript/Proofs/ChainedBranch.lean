import ApiScript.Proofs.OpenBlocks

/-!
# Chained branches

An `else if` with its block and tail does to an assembly what an `else`, an `if` with the same block
and tail and one more `end` do. Programs that differ in this way only assemble to the same tree, up
to the numbers of the lines.
-/
namespace ApiScript

namespace Grammar

open Assembly

variable {builtin : String → Bool}

theorem turns_of_advance {a b : Assembly} {chained : List String} {l : Location}
    (h : a.advance builtin ⟨.otherwise chained, l⟩ = some b) :
    a.insideFunction = true ∧
      ∃ top outer, a.openBlocks = top :: outer ∧ top.isBranch = true ∧ top.side = .body := by
  cases advances_of_advance h with
  | otherwise hin hswitch =>
    obtain ⟨top, outer, hopen, hbranch, hside, -⟩ := switch_cases hswitch
    exact ⟨hin, top, outer, hopen, hbranch, hside⟩
  | simple hin hsimple => cases hsimple

section Branch

variable {a : Assembly} {top : OpenBlock} {outer : List OpenBlock} {c : Condition}
  {lines tail : List Placed} {body alt : List Statement}

theorem feed_otherwise_opens {chained : List String} (hin : a.insideFunction = true)
    (hbranch : top.isBranch = true) (hside : top.side = .body) (hopens : Opens chained c)
    (hbody : Block lines body) (htail : Tail tail alt) (l : Location) :
    (a.withOpen (top :: outer)).feed builtin (⟨.otherwise chained, l⟩ :: (lines ++ tail)) =
      accepted (a.settle
        (OpenBlock.attach { top with side := .alt } ⟨.branch c, l, body, alt⟩) outer) := by
  rw [feed_cons, advance_otherwise hin, switch_opens hbranch hside hopens, accepted_none,
    Option.bind_some, feed_append, hbody.feed hin, OpenBlock.attachAll_body, Option.bind_some]
  exact (htail.feed hin _ _ _ true _).trans (congrArg accepted settle_chained)

theorem feed_otherwise_branch (hin : a.insideFunction = true) (hbranch : top.isBranch = true)
    (hside : top.side = .body) (hbody : Block lines body) (htail : Tail tail alt)
    (l l₀ l₁ : Location) :
    (a.withOpen (top :: outer)).feed builtin
        (⟨.otherwise [], l₀⟩ :: ((⟨.branch c, l⟩ :: (lines ++ tail)) ++ [⟨.close, l₁⟩])) =
      accepted (a.settle
        (OpenBlock.attach { top with side := .alt } ⟨.branch c, l, body, alt⟩) outer) := by
  rw [feed_cons, advance_otherwise hin, switch_nil hbranch hside, accepted_none, Option.bind_some,
    feed_append, (Item.chain hbody htail).feed hin, Option.bind_some, feed_singleton,
    advance_close hin]

end Branch

/-- A chained branch is placed as a branch that is alone on the other side. -/
theorem feed_chained {chained : List String} {c : Condition} {lines tail : List Placed}
    {body alt : List Statement} (hopens : Opens chained c) (hbody : Block lines body)
    (htail : Tail tail alt) (a : Assembly) (l l₀ l₁ : Location) :
    a.feed builtin (⟨.otherwise chained, l⟩ :: (lines ++ tail)) =
      a.feed builtin
        (⟨.otherwise [], l₀⟩ :: ((⟨.branch c, l⟩ :: (lines ++ tail)) ++ [⟨.close, l₁⟩])) := by
  by_cases hturn : a.insideFunction = true ∧
      ∃ top outer, a.openBlocks = top :: outer ∧ top.isBranch = true ∧ top.side = .body
  · obtain ⟨hin, top, outer, hopen, hbranch, hside⟩ := hturn
    rw [← withOpen_self (a := a), hopen, feed_otherwise_opens hin hbranch hside hopens hbody htail,
      feed_otherwise_branch hin hbranch hside hbody htail]
  · have hrefused : ∀ chained l, a.advance builtin ⟨.otherwise chained, l⟩ = none := by
      intro chained l
      cases hadvance : a.advance builtin ⟨.otherwise chained, l⟩ with
      | none => rfl
      | some b => exact absurd (turns_of_advance hadvance) hturn
    rw [feed_cons, feed_cons, hrefused, hrefused]
    rfl

end Grammar

namespace Assembly

open SourceLine

variable {builtin : String → Bool} {f : Location → Location}

def finished? (a : Assembly) : Option Program := a.finish.toOption

theorem finished?_relocate (a : Assembly) (line : Nat) :
    (a.relocate f line).finished? = a.finished?.map (Program.relocate f) := by
  obtain ⟨finished, openBlocks, insideFunction, n, signatures⟩ := a
  cases openBlocks <;> rfl

/-- Readable lines assemble to what their instructions leave finished. -/
theorem toOption_assembleLines {lines : List SourceLine} (h : ∀ line ∈ lines, line.Readable) :
    (assembleLines builtin lines).toOption =
      (({} : Assembly).feed builtin (placed 0 lines)).bind finished? := by
  unfold assembleLines
  cases hfeed : ({} : Assembly).feed builtin (placed 0 lines) with
  | none =>
    split
    · next b happend =>
      obtain ⟨-, c, hc, -⟩ := appendAll_eq_iff.1 happend
      rw [hfeed] at hc
      cases hc
    · rfl
  | some c =>
    have happend := appendAll_eq_iff.2 ⟨h, c, hfeed, rfl⟩
    rw [happend]
    rfl

theorem toOption_assembleLines_eq_none {lines : List SourceLine}
    (h : ¬ ∀ line ∈ lines, line.Readable) : (assembleLines builtin lines).toOption = none := by
  unfold assembleLines
  split
  · next b happend => exact absurd (appendAll_eq_iff.1 happend).1 h
  · rfl

/-- Lines whose instructions lead to the same assembly, up to locations, assemble alike. -/
theorem assembleLines_congr {first second : List SourceLine}
    (hread : (∀ line ∈ first, line.Readable) ↔ ∀ line ∈ second, line.Readable)
    (hfeed : (({} : Assembly).feed builtin (placed 0 first)).map (relocate f 0) =
      (({} : Assembly).feed builtin (placed 0 second)).map (relocate f 0)) :
    (assembleLines builtin first).toOption.map (Program.relocate f) =
      (assembleLines builtin second).toOption.map (Program.relocate f) := by
  by_cases h : ∀ line ∈ first, line.Readable
  · have hmap : ∀ x : Option Assembly, (x.bind finished?).map (Program.relocate f) =
        (x.map (relocate f 0)).bind finished? := by
      intro x
      cases x with
      | none => rfl
      | some b => exact (finished?_relocate b 0).symm
    rw [toOption_assembleLines h, toOption_assembleLines (hread.1 h), hmap, hmap, hfeed]
  · have hother : ¬ _ := fun hall => h (hread.2 hall)
    rw [toOption_assembleLines_eq_none h, toOption_assembleLines_eq_none hother]

theorem map_unnumbered_placed (before other : Nat) (lines : List SourceLine) :
    (placed before lines).map (Placed.relocate Location.unnumbered) =
      (placed other lines).map (Placed.relocate Location.unnumbered) := by
  induction lines generalizing before other with
  | nil => rfl
  | cons line rest ih =>
    rw [placed, placed]
    split
    · rw [List.map_cons, List.map_cons, ih (before + 1) (other + 1)]
      rfl
    · exact ih (before + 1) (other + 1)

/-- Writing an `else if` out as an `else`, an `if` and one more `end` changes no tree. -/
theorem assembleLines_chained {before block after : List SourceLine}
    {chain turn branch last : SourceLine} {chained : List String} {c : Condition}
    {lines tail : List Placed} {body alt : List Statement}
    (hchain : chain.instruction? = .ok (some (.otherwise chained))) (hopens : Opens chained c)
    (hturn : turn.instruction? = .ok (some (.otherwise [])))
    (hbranch : branch.instruction? = .ok (some (.branch c))) (hfile : branch.file = chain.file)
    (hlast : last.instruction? = .ok (some .close))
    (hblock : placed (before.length + 1) block = lines ++ tail) (hbody : Grammar.Block lines body)
    (htail : Grammar.Tail tail alt) :
    (assembleLines builtin (before ++ chain :: (block ++ after))).toOption.map
        Program.unnumbered =
      (assembleLines builtin (before ++ turn :: branch :: (block ++ last :: after))).toOption.map
        Program.unnumbered := by
  apply assembleLines_congr
  · have hread : chain.Readable ∧ turn.Readable ∧ branch.Readable ∧ last.Readable :=
      ⟨⟨_, hchain⟩, ⟨_, hturn⟩, ⟨_, hbranch⟩, ⟨_, hlast⟩⟩
    simp only [List.forall_mem_append, List.forall_mem_cons, hread, true_and]
  · let n := before.length
    let l : Location := ⟨n + 1, chain.file⟩
    let l₀ : Location := ⟨n + 1, turn.file⟩
    let l₁ : Location := ⟨n + 1 + 1 + block.length + 1, last.file⟩
    have hfirst : placed 0 (before ++ chain :: (block ++ after)) =
        placed 0 before ++ ((⟨.otherwise chained, l⟩ :: (lines ++ tail)) ++
          placed (n + 1 + block.length) after) := by
      rw [placed_append, Nat.zero_add, placed_cons_instruction hchain, placed_append, hblock]
      rfl
    have hsecond : placed 0 (before ++ turn :: branch :: (block ++ last :: after)) =
        placed 0 before ++ (⟨.otherwise [], l₀⟩ :: ⟨.branch c, ⟨n + 1 + 1, branch.file⟩⟩ ::
          (placed (n + 1 + 1) block ++
            (⟨.close, l₁⟩ :: placed (n + 1 + 1 + block.length + 1) after))) := by
      rw [placed_append, Nat.zero_add, placed_cons_instruction hturn,
        placed_cons_instruction hbranch, placed_append, placed_cons_instruction hlast]
    -- written out at the locations of the first program, the chain leads to the same assembly
    have hwritten : ({} : Assembly).feed builtin
          (placed 0 (before ++ chain :: (block ++ after))) =
        ({} : Assembly).feed builtin (placed 0 before ++
          ((⟨.otherwise [], l₀⟩ :: ((⟨.branch c, l⟩ :: (lines ++ tail)) ++ [⟨.close, l₁⟩])) ++
            placed (n + 1 + block.length) after)) := by
      rw [hfirst, feed_append, feed_append]
      congr 1
      funext b
      rw [feed_append, feed_append, Grammar.feed_chained hopens hbody htail b l l₀ l₁]
    rw [hwritten, hsecond]
    apply feed_congr_relocate rfl
    have hlines : (lines ++ tail).map (Placed.relocate Location.unnumbered) =
        (placed (n + 1 + 1) block).map (Placed.relocate Location.unnumbered) := by
      rw [← hblock]
      exact map_unnumbered_placed _ _ block
    have hafter := map_unnumbered_placed (n + 1 + block.length) (n + 1 + 1 + block.length + 1) after
    have hturned : Placed.relocate Location.unnumbered ⟨.branch c, l⟩ =
        Placed.relocate Location.unnumbered ⟨.branch c, ⟨n + 1 + 1, branch.file⟩⟩ := by
      simp [Placed.relocate, Location.unnumbered, l, hfile]
    simp only [List.map_append, List.map_cons, List.cons_append, List.append_assoc,
      List.nil_append, hafter, hturned] at hlines ⊢
    rw [← List.append_assoc, hlines]

end Assembly

end ApiScript
