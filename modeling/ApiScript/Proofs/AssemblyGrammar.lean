import ApiScript.Proofs.ChainedBranch

/-!
# Assembling accepts the block grammar

A list of lines assembles exactly if every line can be read, the instructions derive a list of
definitions, and the names defined are new. The program is the tree of that derivation. An `else if`
is short for an `else` that holds one branch and closes with it.
-/
namespace ApiScript

namespace Assembly

variable {builtin : String → Bool} {a b : Assembly}

theorem signatures_settle (a : Assembly) (block : OpenBlock) (outer : List OpenBlock) :
    (a.settle block outer).1.signatures = a.signatures := by
  induction outer generalizing a block with
  | nil => rfl
  | cons parent outer ih =>
    rw [settle]
    split
    · exact ih { a with insideFunction := a.insideFunction && !block.isFunction } _
    · rfl

theorem signatures_close (h : accepted a.close = some b) : b.signatures = a.signatures := by
  have hclose : a.close = (b, none) := accepted_eq_some_iff.1 h
  rw [close] at hclose
  split at hclose
  · cases hclose
  · next block outer _ =>
    have hsettle := signatures_settle a block outer
    rwa [hclose] at hsettle

theorem signatures_attach (a : Assembly) (s : Statement) :
    (a.attach s).signatures = a.signatures := by
  unfold attach
  split <;> rfl

end Assembly

namespace Grammar

open Assembly SourceLine

variable {builtin : String → Bool}

structure Named (builtin : String → Bool) (lines : List Placed) (a : Assembly) : Prop where
  nodup : (definedNames lines).Nodup
  free : ∀ name ∈ definedNames lines, builtin name = false
  known : ∀ name, a.signatures.contains name = true ↔ name ∈ definedNames lines

theorem named_empty : Named builtin [] {} := by
  refine ⟨List.nodup_nil, nofun, fun name => ?_⟩
  exact iff_of_false Bool.false_ne_true List.not_mem_nil

theorem Named.of_signatures {lines : List Placed} {a b : Assembly} {p : Placed}
    (h : Named builtin lines a) (hp : definedNames [p] = [])
    (hb : b.signatures = a.signatures) : Named builtin (lines ++ [p]) b := by
  have hnames : definedNames (lines ++ [p]) = definedNames lines := by
    rw [definedNames_append, hp, List.append_nil]
  constructor
  · rw [hnames]
    exact h.nodup
  · rw [hnames]
    exact h.free
  · rw [hnames, hb]
    exact h.known

theorem Named.define {lines : List Placed} {a b : Assembly} {signature : Signature} {l : Location}
    (h : Named builtin lines a) (hbuiltin : builtin signature.name = false)
    (hnew : a.signatures.contains signature.name = false)
    (hb : b.signatures = a.signatures.insert signature.name signature.params) :
    Named builtin (lines ++ [⟨.define signature, l⟩]) b := by
  have hnames : definedNames (lines ++ [⟨.define signature, l⟩]) =
      definedNames lines ++ [signature.name] := definedNames_append _ _
  have hfresh : signature.name ∉ definedNames lines := by
    rw [← h.known, hnew]
    exact Bool.false_ne_true
  constructor
  · rw [hnames, List.nodup_append]
    refine ⟨h.nodup, by simp, ?_⟩
    intro name hname other hother heq
    rw [List.mem_singleton.1 hother] at heq
    exact hfresh (heq ▸ hname)
  · rw [hnames]
    intro name hname
    rcases List.mem_append.1 hname with hname | hname
    · exact h.free name hname
    · rw [List.mem_singleton.1 hname]
      exact hbuiltin
  · intro name
    rw [hnames, hb, List.mem_append, List.mem_singleton, ← h.known name]
    by_cases hname : name = signature.name <;> simp [Table.contains, hname]

theorem Named.step {lines : List Placed} {a b : Assembly} {p : Placed}
    (h : Named builtin lines a) (hstep : Advances builtin a p b) :
    Named builtin (lines ++ [p]) b := by
  cases hstep with
  | define hout hbuiltin hnew => exact h.define hbuiltin hnew rfl
  | @simple i l hin hsimple =>
    exact h.of_signatures (Item.simple hsimple).definedNames_eq_nil (signatures_attach a _)
  | branch hin => exact h.of_signatures rfl rfl
  | loop hin => exact h.of_signatures rfl rfl
  | otherwise hin hswitch =>
    refine h.of_signatures rfl ?_
    obtain ⟨top, outer, -, -, -, ⟨-, rfl⟩ | ⟨c, -, rfl⟩⟩ := switch_cases hswitch <;> rfl
  | close hin hclose => exact h.of_signatures rfl (signatures_close hclose)

/-- Whatever is placed on top of a partial derivation extends it. -/
theorem shape_of_feed {before lines : List Placed} {a b : Assembly} (hshape : Shape before a)
    (hnamed : Named builtin before a) (h : a.feed builtin lines = some b) :
    Shape (before ++ lines) b ∧ Named builtin (before ++ lines) b := by
  induction lines generalizing before a with
  | nil =>
    cases h
    rw [List.append_nil]
    exact ⟨hshape, hnamed⟩
  | cons p rest ih =>
    rw [feed_cons] at h
    obtain ⟨c, hc, hrest⟩ := Option.bind_eq_some_iff.1 h
    have hstep := advances_of_advance hc
    rw [List.append_cons]
    exact ih (hshape.step hstep) (hnamed.step hstep) hrest

/-- The instructions that can all be placed and leave no block open are those that derive
definitions of new names. -/
theorem feed_eq_finished_iff {lines : List Placed} {ss : List Statement} :
    (∃ b, ({} : Assembly).feed builtin lines = some b ∧ b.openBlocks = [] ∧ b.finished = ss) ↔
      Definitions lines ss ∧ (definedNames lines).Nodup ∧
        ∀ name ∈ definedNames lines, builtin name = false := by
  constructor
  · rintro ⟨b, hb, hopen, rfl⟩
    obtain ⟨hshape, hnamed⟩ := shape_of_feed (.between .nil rfl rfl) named_empty hb
    refine ⟨?_, hnamed.nodup, hnamed.free⟩
    rw [List.nil_append] at hshape
    cases hshape with
    | between hdone _ _ => exact hdone
    | inside _ hblocks _ =>
      obtain ⟨top, outer, htop⟩ := hblocks.exists_cons
      rw [hopen] at htop
      cases htop
  · rintro ⟨hlines, hnodup, hfree⟩
    obtain ⟨signatures, hfeed⟩ := @Definitions.feed builtin {} _ _ hlines rfl rfl hnodup hfree
      fun name _ => rfl
    exact ⟨_, hfeed, rfl, rfl⟩

theorem toOption_eq_some_iff {x : Except Fault Program} {program : Program} :
    x.toOption = some program ↔ x = .ok program := by
  cases x <;> simp [Except.toOption]

theorem assembleLines_eq_ok_iff {lines : List SourceLine} {program : Program} :
    assembleLines builtin lines = .ok program ↔
      (∀ line ∈ lines, line.Readable) ∧
        Definitions (placed 0 lines) program.statements ∧
        (definedNames (placed 0 lines)).Nodup ∧
        ∀ name ∈ definedNames (placed 0 lines), builtin name = false := by
  rw [← toOption_eq_some_iff, ← feed_eq_finished_iff]
  by_cases hread : ∀ line ∈ lines, line.Readable
  · rw [toOption_assembleLines hread, Option.bind_eq_some_iff, and_iff_right hread]
    refine exists_congr fun b => and_congr_right fun _ => ?_
    obtain ⟨finished, openBlocks, insideFunction, n, signatures⟩ := b
    obtain ⟨statements⟩ := program
    cases openBlocks <;> simp [finished?, finish, Except.toOption]
  · rw [toOption_assembleLines_eq_none hread]
    exact iff_of_false nofun fun h => hread h.1

/-- A new machine assembles files as it assembles their lines. -/
theorem assemble_fresh (input : List InputLine) (sources : List (String × String)) :
    (({ input } : Machine).assemble sources).1 =
      assembleLines Builtin.standard.contains (ofSources sources) := by
  have hstart :
      ({ input } : Machine).startAssembly.appendSources Builtin.standard.contains sources =
        ({} : Assembly).appendAll Builtin.standard.contains (ofSources sources) :=
    appendSources_eq_appendAll {} sources
  have hbuiltin : ({ input } : Machine).isBuiltin = Builtin.standard.contains := rfl
  rw [Machine.assemble, assembleLines, hbuiltin, hstart]
  split
  · next happend => rw [happend]
  · next happend => rw [happend]

/-- Lines assemble exactly if they are readable and derive definitions of new names, to the tree of
that derivation. An `else if` may be written out as an `else` and an `if` that close one after the
other. A new machine assembles files as their lines. -/
theorem assembling_accepts_block_grammar (builtin : String → Bool) :
    (∀ (lines : List SourceLine) (program : Program),
      assembleLines builtin lines = .ok program ↔
        (∀ line ∈ lines, line.Readable) ∧
          Definitions (placed 0 lines) program.statements ∧
          (definedNames (placed 0 lines)).Nodup ∧
          ∀ name ∈ definedNames (placed 0 lines), builtin name = false) ∧
      (∀ (before block after : List SourceLine) (chain turn branch last : SourceLine)
        (chained : List String) (c : Condition) (lines tail : List Placed)
        (body alt : List Statement),
        chain.instruction? = .ok (some (.otherwise chained)) → Opens chained c →
        turn.instruction? = .ok (some (.otherwise [])) →
        branch.instruction? = .ok (some (.branch c)) → branch.file = chain.file →
        last.instruction? = .ok (some .close) →
        placed (before.length + 1) block = lines ++ tail → Block lines body → Tail tail alt →
        (assembleLines builtin (before ++ chain :: (block ++ after))).toOption.map
            Program.unnumbered =
          (assembleLines builtin
            (before ++ turn :: branch :: (block ++ last :: after))).toOption.map
            Program.unnumbered) ∧
      ∀ (input : List InputLine) (sources : List (String × String)),
        (({ input } : Machine).assemble sources).1 =
          assembleLines Builtin.standard.contains (ofSources sources) := by
  refine ⟨fun lines program => assembleLines_eq_ok_iff, ?_, assemble_fresh⟩
  intro before block after chain turn branch last chained c lines tail body alt hchain hopens
    hturn hbranch hfile hlast hblock hbody htail
  exact assembleLines_chained hchain hopens hturn hbranch hfile hlast hblock hbody htail

/-- A script whose branch has three ways, and the same script with the chain written out. -/
theorem assembling_three_way_branch :
    let before := ofSources [("sign.neb", "def Main():\nvar x = 2\nif x < 2\nprint 'less'")]
    let block := ofSources [("sign.neb", "print 'two'\nelse\nprint 'more'\nend")]
    let after := ofSources [("sign.neb", "end")]
    let short := before ++ ⟨"else if x == 2", "sign.neb"⟩ :: (block ++ after)
    let long := before ++ ⟨"else", "sign.neb"⟩ :: ⟨"if x == 2", "sign.neb"⟩ ::
      (block ++ ⟨"end", "sign.neb"⟩ :: after)
    (∃ program, assembleLines Builtin.standard.contains short = .ok program ∧
      Definitions (placed 0 short) program.statements) ∧
      (assembleLines Builtin.standard.contains short).toOption.map Program.unnumbered =
        (assembleLines Builtin.standard.contains long).toOption.map Program.unnumbered := by
  obtain ⟨hgrammar, hchained, -⟩ := assembling_accepts_block_grammar Builtin.standard.contains
  constructor
  · have hsome : (assembleLines Builtin.standard.contains
        (ofSources [("sign.neb", "def Main():\nvar x = 2\nif x < 2\nprint 'less'")] ++
          ⟨"else if x == 2", "sign.neb"⟩ ::
            (ofSources [("sign.neb", "print 'two'\nelse\nprint 'more'\nend")] ++
              ofSources [("sign.neb", "end")]))).toOption.isSome = true := by decide +kernel
    obtain ⟨program, hprogram⟩ := Option.isSome_iff_exists.1 hsome
    have hok := toOption_eq_some_iff.1 hprogram
    exact ⟨program, hok, ((hgrammar _ program).1 hok).2.1⟩
  · exact hchained _ _ _ _ _ _ _ ["if", "x", "=", "=", "2"]
      ⟨false, .compares (.name "x") .equal (.number "2")⟩
      [⟨.print (.literal "two"), ⟨6, "sign.neb"⟩⟩]
      [⟨.otherwise [], ⟨7, "sign.neb"⟩⟩, ⟨.print (.literal "more"), ⟨8, "sign.neb"⟩⟩,
        ⟨.close, ⟨9, "sign.neb"⟩⟩]
      _ _ rfl ⟨rfl, rfl⟩ rfl rfl rfl rfl (by decide +kernel) (.cons (.simple rfl) .nil)
      (.otherwise (.cons (.simple rfl) .nil))

end Grammar

end ApiScript
