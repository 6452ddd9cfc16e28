import ApiScript.Proofs.Feeding

/-!
# Changing locations

Assembling never looks at the locations of statements. Lines that differ in their locations only
are placed or refused alike, and leave assemblies that differ in locations only.
-/
namespace ApiScript

namespace Statement

mutual

def relocate (f : Location → Location) : Statement → Statement
  | ⟨instruction, location, body, alt⟩ =>
    ⟨instruction, f location, relocateAll f body, relocateAll f alt⟩

def relocateAll (f : Location → Location) : List Statement → List Statement
  | [] => []
  | s :: rest => s.relocate f :: relocateAll f rest

end

variable {f : Location → Location}

theorem relocateAll_eq_map (ss : List Statement) : relocateAll f ss = ss.map (relocate f) := by
  induction ss with
  | nil => rfl
  | cons s rest ih => rw [relocateAll, ih, List.map_cons]

@[simp]
theorem relocateAll_append (ss ts : List Statement) :
    relocateAll f (ss ++ ts) = relocateAll f ss ++ relocateAll f ts := by
  induction ss with
  | nil => rfl
  | cons s rest ih => rw [List.cons_append, relocateAll, ih, relocateAll, List.cons_append]

@[simp]
theorem relocate_leaf (i : Instruction) (l : Location) :
    (leaf i l).relocate f = leaf i (f l) := rfl

@[simp]
theorem instruction_relocate (s : Statement) : (s.relocate f).instruction = s.instruction := by
  cases s
  rfl

theorem location_relocate (s : Statement) : (s.relocate f).location = f s.location := by
  cases s
  rfl

mutual

theorem relocate_id (s : Statement) : s.relocate id = s := by
  obtain ⟨i, l, body, alt⟩ := s
  rw [relocate, relocateAll_id body, relocateAll_id alt, id_eq]

theorem relocateAll_id (ss : List Statement) : relocateAll id ss = ss := by
  cases ss with
  | nil => rfl
  | cons s rest => rw [relocateAll, relocate_id s, relocateAll_id rest]

end

end Statement

def Location.unnumbered (l : Location) : Location := { l with line := 0 }

def Program.relocate (f : Location → Location) (p : Program) : Program :=
  ⟨Statement.relocateAll f p.statements⟩

def Program.unnumbered (p : Program) : Program := p.relocate Location.unnumbered

def Placed.relocate (f : Location → Location) (p : Placed) : Placed :=
  ⟨p.instruction, f p.location⟩

namespace OpenBlock

def relocate (f : Location → Location) (b : OpenBlock) : OpenBlock :=
  { b with statement := b.statement.relocate f }

variable {f : Location → Location}

@[simp]
theorem isFunction_relocate (b : OpenBlock) : (b.relocate f).isFunction = b.isFunction := by
  simp [isFunction, relocate]

@[simp]
theorem isBranch_relocate (b : OpenBlock) : (b.relocate f).isBranch = b.isBranch := by
  simp [isBranch, relocate]

theorem attach_relocate (b : OpenBlock) (s : Statement) :
    (b.relocate f).attach (s.relocate f) = (b.attach s).relocate f := by
  obtain ⟨⟨i, l, body, alt⟩, side, closesParent⟩ := b
  cases side <;> simp [attach, relocate, Statement.relocate, Statement.relocateAll]

end OpenBlock

namespace Assembly

variable {builtin : String → Bool} {f : Location → Location}

/-- The assembly with each location changed, as if a number of lines were added so far. -/
def relocate (f : Location → Location) (line : Nat) (a : Assembly) : Assembly :=
  { a with
    finished := Statement.relocateAll f a.finished
    openBlocks := a.openBlocks.map (OpenBlock.relocate f)
    line }

def relocateStep (f : Location → Location) (line : Nat) (r : Step) : Step :=
  (r.1.relocate f line, r.2)

theorem accepted_relocateStep (line : Nat) (r : Step) :
    accepted (relocateStep f line r) = (accepted r).map (relocate f line) := by
  obtain ⟨a, cause⟩ := r
  cases cause <;> rfl

theorem push_relocate (a : Assembly) (line : Nat) (i : Instruction) (l : Location)
    (closesParent : Bool) :
    (a.relocate f line).push i (f l) closesParent = (a.push i l closesParent).relocate f line := by
  simp [push, relocate, OpenBlock.relocate]

theorem attach_relocate (a : Assembly) (line : Nat) (s : Statement) :
    (a.relocate f line).attach (s.relocate f) = (a.attach s).relocate f line := by
  obtain ⟨finished, openBlocks, insideFunction, n, signatures⟩ := a
  cases openBlocks with
  | nil => simp [attach, relocate, Statement.relocateAll]
  | cons top outer => simp [attach, relocate, OpenBlock.attach_relocate]

theorem settle_relocate (a : Assembly) (line : Nat) (block : OpenBlock) (outer : List OpenBlock) :
    (a.relocate f line).settle (block.relocate f) (outer.map (OpenBlock.relocate f)) =
      relocateStep f line (a.settle block outer) := by
  induction outer generalizing a block with
  | nil =>
    simp [settle, relocateStep, relocate, OpenBlock.relocate, Statement.relocateAll,
      OpenBlock.isFunction]
  | cons parent outer ih =>
    have hattach : (parent.relocate f).attach (block.relocate f).statement =
        (parent.attach block.statement).relocate f :=
      OpenBlock.attach_relocate parent block.statement
    have hcloses : (block.relocate f).closesParent = block.closesParent := rfl
    rw [List.map_cons, settle, settle, hattach, hcloses, OpenBlock.isFunction_relocate]
    split
    · exact ih { a with insideFunction := a.insideFunction && !block.isFunction } _
    · rfl

theorem close_relocate (a : Assembly) (line : Nat) :
    (a.relocate f line).close = relocateStep f line a.close := by
  obtain ⟨finished, openBlocks, insideFunction, n, signatures⟩ := a
  cases openBlocks with
  | nil => rfl
  | cons block outer =>
    exact settle_relocate ⟨finished, block :: outer, insideFunction, n, signatures⟩ line block outer

theorem switch_relocate (a : Assembly) (line : Nat) (chained : List String) (l : Location) :
    (a.relocate f line).switch chained (f l) = relocateStep f line (a.switch chained l) := by
  obtain ⟨finished, openBlocks, insideFunction, n, signatures⟩ := a
  cases openBlocks with
  | nil => rfl
  | cons top outer =>
    have hside : (top.relocate f).side = top.side := rfl
    simp only [switch, relocate, List.map_cons, OpenBlock.isBranch_relocate, hside]
    split
    · cases chained with
      | nil => rfl
      | cons first rest =>
        by_cases hfirst : TokenKind.classify first = .keyword .branch
        · simp only [hfirst, if_true]
          cases Instruction.read? (first :: rest) with
          | error cause => rfl
          | ok found => cases found <;> rfl
        · simp only [hfirst, if_false]
          rfl
    · rfl

theorem openFunction_relocate (a : Assembly) (line : Nat) (signature : Signature) (l : Location) :
    (a.relocate f line).openFunction builtin signature (f l) =
      relocateStep f line (a.openFunction builtin signature l) := by
  unfold openFunction
  have hin : (a.relocate f line).insideFunction = a.insideFunction := rfl
  have hsignatures : (a.relocate f line).signatures = a.signatures := rfl
  rw [hin, hsignatures, push_relocate]
  split
  · rfl
  · split <;> rfl

theorem place_relocate (a : Assembly) (line : Nat) (keyword : String) (i : Instruction)
    (l : Location) :
    (a.relocate f line).place builtin keyword i (f l) =
      relocateStep f line (a.place builtin keyword i l) := by
  have hin : (a.relocate f line).insideFunction = a.insideFunction := rfl
  have hattach := attach_relocate (f := f) a line (.leaf i l)
  have hpush := push_relocate (f := f) a line i l false
  rw [Statement.relocate_leaf] at hattach
  cases i with
  | define signature => exact openFunction_relocate a line signature l
  | otherwise chained =>
    simp only [place, hin]
    split
    · exact switch_relocate a line chained l
    · rfl
  | close =>
    simp only [place, hin]
    split
    · exact close_relocate a line
    · rfl
  | _ =>
    simp only [place, hin, Instruction.opensBlock, hattach, hpush]
    split <;> rfl

theorem advance_relocate (a : Assembly) (line : Nat) (p : Placed) :
    (a.relocate f line).advance builtin (p.relocate f) =
      (a.advance builtin p).map (relocate f line) := by
  rw [advance, advance, ← accepted_relocateStep]
  exact congrArg accepted (place_relocate a line p.instruction.keyword p.instruction p.location)

theorem feed_relocate (a : Assembly) (line : Nat) (ps : List Placed) :
    (a.relocate f line).feed builtin (ps.map (Placed.relocate f)) =
      (a.feed builtin ps).map (relocate f line) := by
  induction ps generalizing a with
  | nil => rfl
  | cons p rest ih =>
    rw [List.map_cons, feed_cons, feed_cons, advance_relocate]
    cases a.advance builtin p with
    | none => rfl
    | some b => exact ih b

/-- Lines that differ in their locations only lead to assemblies that do. -/
theorem feed_congr_relocate {a b : Assembly} {line : Nat} {ps qs : List Placed}
    (ha : a.relocate f line = b.relocate f line)
    (hps : ps.map (Placed.relocate f) = qs.map (Placed.relocate f)) :
    (a.feed builtin ps).map (relocate f line) = (b.feed builtin qs).map (relocate f line) := by
  rw [← feed_relocate, ← feed_relocate, ha, hps]

theorem relocate_id (a : Assembly) (line : Nat) : a.relocate id line = { a with line } := by
  have hblocks : a.openBlocks.map (OpenBlock.relocate id) = a.openBlocks := by
    refine (List.map_congr_left fun b _ => ?_).trans (List.map_id _)
    exact congrArg (fun s => { b with statement := s }) b.statement.relocate_id
  simp [relocate, Statement.relocateAll_id, hblocks]

/-- The number of lines added so far does not bear on what is placed. -/
theorem feed_line (a : Assembly) (line : Nat) (ps : List Placed) :
    feed builtin { a with line } ps = (a.feed builtin ps).map fun b => { b with line } := by
  have hps : ps.map (Placed.relocate id) = ps := List.map_id ps
  have h : (a.relocate id line).feed builtin (ps.map (Placed.relocate id)) =
      (a.feed builtin ps).map (relocate id line) := feed_relocate a line ps
  rw [hps, relocate_id] at h
  rw [h]
  exact congrArg (Option.map · _) (funext fun b => relocate_id b line)

theorem advance_line (a : Assembly) (line : Nat) (p : Placed) :
    advance builtin { a with line } p = (a.advance builtin p).map fun b => { b with line } := by
  have h := @feed_line builtin a line [p]
  rwa [feed_singleton, feed_singleton] at h

theorem appendLine_eq_iff_feed {a b : Assembly} {line : SourceLine} :
    a.appendLine builtin line.text line.file = (b, none) ↔
      line.Readable ∧
        ∃ c, a.feed builtin (SourceLine.placed a.line [line]) = some c ∧
          b = { c with line := a.line + 1 } := by
  rw [appendLine_eq_iff]
  cases hread : line.instruction? with
  | error cause => simp [SourceLine.Readable, hread]
  | ok entry =>
    cases entry with
    | none => simp [SourceLine.Readable, SourceLine.placed, hread]
    | some i =>
      rw [SourceLine.placed_cons_instruction hread, SourceLine.placed, feed_singleton]
      have hreadable : line.Readable := ⟨some i, hread⟩
      constructor
      · rintro ⟨entry, hentry, h⟩
        cases hentry
        simp only [advance_line, Option.map_eq_some_iff] at h
        obtain ⟨c, hc, hb⟩ := h
        exact ⟨hreadable, c, hc, hb.symm⟩
      · rintro ⟨-, c, hc, rfl⟩
        refine ⟨some i, rfl, ?_⟩
        simp only [advance_line, hc, Option.map_some]

theorem appendAll_cons_eq_iff {a b : Assembly} {line : SourceLine} {rest : List SourceLine} :
    a.appendAll builtin (line :: rest) = (b, none) ↔
      ∃ c, a.appendLine builtin line.text line.file = (c, none) ∧
        c.appendAll builtin rest = (b, none) := by
  rw [appendAll]
  split
  · next c hline => simp [hline]
  · next c fault hline => simp [hline]

/-- Lines are added without a refusal exactly if each can be read and their instructions can be
placed. -/
theorem appendAll_eq_iff {a b : Assembly} {lines : List SourceLine} :
    a.appendAll builtin lines = (b, none) ↔
      (∀ line ∈ lines, line.Readable) ∧
        ∃ c, a.feed builtin (SourceLine.placed a.line lines) = some c ∧
          b = { c with line := a.line + lines.length } := by
  induction lines generalizing a with
  | nil => simp [appendAll, SourceLine.placed, eq_comm]
  | cons line rest ih =>
    have hplaced : SourceLine.placed a.line (line :: rest) =
        SourceLine.placed a.line [line] ++ SourceLine.placed (a.line + 1) rest :=
      SourceLine.placed_append a.line [line] rest
    rw [appendAll_cons_eq_iff, hplaced, feed_append, List.forall_mem_cons]
    constructor
    · rintro ⟨c, hline, hrest⟩
      obtain ⟨hread, d, hd, rfl⟩ := appendLine_eq_iff_feed.1 hline
      obtain ⟨hreads, e, he, rfl⟩ := ih.1 hrest
      rw [feed_line] at he
      obtain ⟨e', he', rfl⟩ := Option.map_eq_some_iff.1 he
      refine ⟨⟨hread, hreads⟩, e', ?_, ?_⟩
      · rw [hd]
        exact he'
      · simp only [List.length_cons]
        congr 1
        omega
    · rintro ⟨⟨hread, hreads⟩, e, he, rfl⟩
      obtain ⟨d, hd, he⟩ := Option.bind_eq_some_iff.1 he
      refine ⟨{ d with line := a.line + 1 }, appendLine_eq_iff_feed.2 ⟨hread, d, hd, rfl⟩, ?_⟩
      refine ih.2 ⟨hreads, { e with line := a.line + 1 }, ?_, ?_⟩
      · rw [feed_line, he]
        rfl
      · simp only [List.length_cons]
        congr 1
        omega

end Assembly

end ApiScript
