import ApiScript.Proofs.Relocation

/-!
# Derived lines can be placed

Lines that derive an item leave the innermost open block with one more statement, and lines that
derive a tail close the innermost branch. So an assembly takes every program that the grammar
derives, and the finished statements are those of the derivation.
-/
namespace ApiScript

theorem Instruction.branch_of_read? {first : String} {rest : List String} {i : Instruction}
    (hfirst : TokenKind.classify first = .keyword .branch)
    (h : read? (first :: rest) = .ok (some i)) : ∃ c, i = .branch c := by
  have hkind : (Token.ofRaw first).kind = .keyword .branch := hfirst
  have hform : Reader.form? (Token.ofRaw first) (rest.map Token.ofRaw) =
      some (Instruction.branch <$> Reader.condition) := by
    simp only [Reader.form?, hkind]
  simp only [read?, hkind, hform] at h
  change Except.map _ (Reader.condition _ >>= fun p => .ok (Instruction.branch p.1, p.2)) = _ at h
  cases hcond : Reader.condition (rest.map Token.ofRaw) with
  | error cause =>
    rw [hcond] at h
    cases h
  | ok p =>
    rw [hcond] at h
    cases h
    exact ⟨p.1, rfl⟩

namespace OpenBlock

def attachAll (b : OpenBlock) (ss : List Statement) : OpenBlock :=
  ss.foldl attach b

theorem attachAll_body (s : Statement) (closesParent : Bool) (ss : List Statement) :
    attachAll ⟨s, .body, closesParent⟩ ss =
      ⟨{ s with body := s.body ++ ss }, .body, closesParent⟩ := by
  induction ss generalizing s with
  | nil => cases s; simp [attachAll]
  | cons first rest ih =>
    rw [attachAll, List.foldl_cons]
    simpa [attach, attachAll] using ih { s with body := s.body ++ [first] }

theorem attachAll_alt (s : Statement) (closesParent : Bool) (ss : List Statement) :
    attachAll ⟨s, .alt, closesParent⟩ ss = ⟨{ s with alt := s.alt ++ ss }, .alt, closesParent⟩ := by
  induction ss generalizing s with
  | nil => cases s; simp [attachAll]
  | cons first rest ih =>
    rw [attachAll, List.foldl_cons]
    simpa [attach, attachAll] using ih { s with alt := s.alt ++ [first] }

end OpenBlock

namespace Assembly

variable {builtin : String → Bool} {a : Assembly}

def withOpen (a : Assembly) (openBlocks : List OpenBlock) : Assembly := { a with openBlocks }

@[simp]
theorem withOpen_withOpen (blocks others : List OpenBlock) :
    (a.withOpen blocks).withOpen others = a.withOpen others := rfl

@[simp]
theorem withOpen_self : a.withOpen a.openBlocks = a := rfl

theorem settle_withOpen (a : Assembly) (blocks : List OpenBlock) (block : OpenBlock)
    (outer : List OpenBlock) : (a.withOpen blocks).settle block outer = a.settle block outer := by
  induction outer generalizing a block with
  | nil => rfl
  | cons parent outer ih =>
    rw [settle, settle]
    split
    · exact ih { a with insideFunction := a.insideFunction && !block.isFunction } _
    · rfl

theorem settle_side (a : Assembly) (s : Statement) (side other : Side) (closesParent : Bool)
    (outer : List OpenBlock) :
    a.settle ⟨s, side, closesParent⟩ outer = a.settle ⟨s, other, closesParent⟩ outer := by
  cases outer <;> rfl

theorem settle_branch {c : Condition} {l : Location} {body alt : List Statement} {side : Side}
    {parent : OpenBlock} {outer : List OpenBlock} :
    a.settle ⟨⟨.branch c, l, body, alt⟩, side, false⟩ (parent :: outer) =
      (a.withOpen (parent.attach ⟨.branch c, l, body, alt⟩ :: outer), none) := by
  simp [settle, OpenBlock.isFunction, withOpen]

theorem settle_chained {c : Condition} {l : Location} {body alt : List Statement} {side : Side}
    {parent : OpenBlock} {outer : List OpenBlock} :
    a.settle ⟨⟨.branch c, l, body, alt⟩, side, true⟩ (parent :: outer) =
      a.settle (parent.attach ⟨.branch c, l, body, alt⟩) outer := by
  simp [settle, OpenBlock.isFunction]

theorem settle_loop {c : Condition} {l : Location} {body alt : List Statement} {side : Side}
    {parent : OpenBlock} {outer : List OpenBlock} :
    a.settle ⟨⟨.loop c, l, body, alt⟩, side, false⟩ (parent :: outer) =
      (a.withOpen (parent.attach ⟨.loop c, l, body, alt⟩ :: outer), none) := by
  simp [settle, OpenBlock.isFunction, withOpen]

section Inside

variable (hin : a.insideFunction = true)
include hin

theorem advance_simple {i : Instruction} {l : Location} (h : i.isSimple = true)
    (top : OpenBlock) (outer : List OpenBlock) :
    (a.withOpen (top :: outer)).advance builtin ⟨i, l⟩ =
      some (a.withOpen (top.attach (.leaf i l) :: outer)) := by
  cases i <;> simp only [Instruction.isSimple, Bool.false_eq_true] at h <;>
    simp [advance, place, withOpen, hin, Instruction.opensBlock, attach]

theorem advance_opening {i : Instruction} {l : Location}
    (h : (∃ c, i = .branch c) ∨ ∃ c, i = .loop c) (blocks : List OpenBlock) :
    (a.withOpen blocks).advance builtin ⟨i, l⟩ =
      some (a.withOpen (⟨.leaf i l, .body, false⟩ :: blocks)) := by
  obtain ⟨c, rfl⟩ | ⟨c, rfl⟩ := h <;>
    simp [advance, place, withOpen, hin, Instruction.opensBlock, push]

theorem advance_otherwise (chained : List String) (l : Location) (blocks : List OpenBlock) :
    (a.withOpen blocks).advance builtin ⟨.otherwise chained, l⟩ =
      accepted ((a.withOpen blocks).switch chained l) := by
  simp [advance, place, withOpen, hin]

theorem advance_close (l : Location) (top : OpenBlock) (outer : List OpenBlock) :
    (a.withOpen (top :: outer)).advance builtin ⟨.close, l⟩ = accepted (a.settle top outer) := by
  have hsettle := settle_withOpen a (top :: outer) top outer
  simp only [advance, place, withOpen, hin, if_true, close] at hsettle ⊢
  rw [hsettle]

end Inside

theorem switch_nil {top : OpenBlock} {outer : List OpenBlock} (hbranch : top.isBranch = true)
    (hside : top.side = .body) (l : Location) :
    (a.withOpen (top :: outer)).switch [] l =
      (a.withOpen ({ top with side := .alt } :: outer), none) := by
  simp [switch, withOpen, hbranch, hside]

theorem switch_opens {top : OpenBlock} {outer : List OpenBlock} (hbranch : top.isBranch = true)
    (hside : top.side = .body) {chained : List String} {c : Condition} (h : Opens chained c)
    (l : Location) :
    (a.withOpen (top :: outer)).switch chained l =
      (a.withOpen (⟨.leaf (.branch c) l, .body, true⟩ :: { top with side := .alt } :: outer),
        none) := by
  obtain ⟨hfirst, hread⟩ := h
  cases chained with
  | nil => cases hfirst
  | cons first rest =>
    have hkind : TokenKind.classify first = .keyword .branch := by simpa using hfirst
    simp [switch, withOpen, hbranch, hside, hkind, hread, push]

theorem advance_define {signature : Signature} {l : Location} (hin : a.insideFunction = false)
    (hopen : a.openBlocks = []) (hbuiltin : builtin signature.name = false)
    (hnew : a.signatures.contains signature.name = false) :
    a.advance builtin ⟨.define signature, l⟩ =
      some { a with
        openBlocks := [⟨.leaf (.define signature) l, .body, false⟩]
        insideFunction := true
        signatures := a.signatures.insert signature.name signature.params } := by
  simp [advance, place, openFunction, push, hin, hopen, hbuiltin, hnew]

theorem settle_define {signature : Signature} {l : Location} {body alt : List Statement}
    {side : Side} :
    a.settle ⟨⟨.define signature, l, body, alt⟩, side, false⟩ [] =
      ({ a with
          finished := a.finished ++ [⟨.define signature, l, body, alt⟩]
          openBlocks := []
          insideFunction := false }, none) := by
  simp [settle, OpenBlock.isFunction]

end Assembly

namespace Grammar

open Assembly

variable {builtin : String → Bool} {a : Assembly}

mutual

theorem Item.feed (hin : a.insideFunction = true) {lines : List Placed} {s : Statement}
    (top : OpenBlock) (outer : List OpenBlock) :
    Item lines s →
      (a.withOpen (top :: outer)).feed builtin lines = some (a.withOpen (top.attach s :: outer))
  | .simple h => by rw [feed_singleton, advance_simple hin h]
  | .loop h => by
    rw [feed_cons, advance_opening hin (.inr ⟨_, rfl⟩), Option.bind_some, feed_append, h.feed hin,
      OpenBlock.attachAll_body, Option.bind_some, feed_singleton, advance_close hin]
    exact congrArg accepted settle_loop
  | .chain h htail => by
    rw [feed_cons, advance_opening hin (.inl ⟨_, rfl⟩), Option.bind_some, feed_append, h.feed hin,
      OpenBlock.attachAll_body, Option.bind_some]
    exact (htail.feed hin _ _ _ false (top :: outer)).trans (congrArg accepted settle_branch)

theorem Block.feed (hin : a.insideFunction = true) {lines : List Placed} {ss : List Statement}
    (top : OpenBlock) (outer : List OpenBlock) :
    Block lines ss →
      (a.withOpen (top :: outer)).feed builtin lines =
        some (a.withOpen (top.attachAll ss :: outer))
  | .nil => rfl
  | .cons h hrest => by
    rw [feed_append, h.feed hin top outer]
    exact hrest.feed hin (top.attach _) outer

theorem Tail.feed (hin : a.insideFunction = true) {lines : List Placed} {alt : List Statement}
    (c : Condition) (l : Location) (body : List Statement) (closesParent : Bool)
    (outer : List OpenBlock) :
    Tail lines alt →
      (a.withOpen (⟨⟨.branch c, l, body, []⟩, .body, closesParent⟩ :: outer)).feed builtin lines =
        accepted (a.settle ⟨⟨.branch c, l, body, alt⟩, .alt, closesParent⟩ outer)
  | .close => by
    rw [feed_singleton, advance_close hin, settle_side]
  | .otherwise h => by
    rw [feed_cons, advance_otherwise hin, switch_nil rfl rfl, accepted_none, Option.bind_some,
      feed_append, h.feed hin, OpenBlock.attachAll_alt, Option.bind_some, feed_singleton,
      advance_close hin]
    rfl
  | .chained hopens h htail => by
    rw [feed_cons, advance_otherwise hin, switch_opens rfl rfl hopens, accepted_none,
      Option.bind_some, feed_append, h.feed hin, OpenBlock.attachAll_body, Option.bind_some]
    exact (htail.feed hin _ _ _ true _).trans (congrArg accepted settle_chained)

end

theorem definedNames_append (first second : List Placed) :
    definedNames (first ++ second) = definedNames first ++ definedNames second :=
  List.filterMap_append

theorem definedNames_definition {signature : Signature} {l l' : Location} {lines : List Placed}
    {body : List Statement} (h : Block lines body) :
    definedNames (⟨.define signature, l⟩ :: (lines ++ [⟨.close, l'⟩])) = [signature.name] := by
  have hcons : definedNames (⟨.define signature, l⟩ :: (lines ++ [⟨.close, l'⟩])) =
      signature.name :: definedNames (lines ++ [⟨.close, l'⟩]) := rfl
  rw [hcons, definedNames_append, h.definedNames_eq_nil]
  rfl

/-- The lines of a new function leave it finished and its signature known. -/
theorem Block.feed_definition {signature : Signature} {l l' : Location} {lines : List Placed}
    {body : List Statement} (h : Block lines body) (hin : a.insideFunction = false)
    (hopen : a.openBlocks = []) (hbuiltin : builtin signature.name = false)
    (hnew : a.signatures.contains signature.name = false) :
    a.feed builtin (⟨.define signature, l⟩ :: (lines ++ [⟨.close, l'⟩])) =
      some { a with
        finished := a.finished ++ [⟨.define signature, l, body, []⟩]
        signatures := a.signatures.insert signature.name signature.params } := by
  let b : Assembly :=
    { a with
      insideFunction := true
      signatures := a.signatures.insert signature.name signature.params }
  have hb : b.insideFunction = true := rfl
  have hbody := @Block.feed builtin b hb lines body ⟨.leaf (.define signature) l, .body, false⟩ [] h
  rw [OpenBlock.attachAll_body] at hbody
  have hclose := @advance_close builtin b hb l'
    ⟨⟨.define signature, l, body, []⟩, .body, false⟩ []
  rw [settle_define, accepted_none] at hclose
  rw [feed_cons, advance_define hin hopen hbuiltin hnew, Option.bind_some, feed_append]
  change ((b.withOpen _).feed builtin lines).bind _ = _
  rw [hbody, Option.bind_some, feed_singleton]
  refine hclose.trans ?_
  simp [b, hin, hopen]

theorem Definitions.feed {lines : List Placed} {ss : List Statement} (h : Definitions lines ss)
    (hin : a.insideFunction = false) (hopen : a.openBlocks = [])
    (hnodup : (definedNames lines).Nodup)
    (hbuiltin : ∀ name ∈ definedNames lines, builtin name = false)
    (hnew : ∀ name ∈ definedNames lines, a.signatures.contains name = false) :
    ∃ signatures, a.feed builtin lines =
      some { a with finished := a.finished ++ ss, signatures } := by
  induction h generalizing a with
  | nil => exact ⟨a.signatures, by simp⟩
  | @cons first rest s ss hfirst hrest ih =>
    obtain @⟨signature, l, l', lines, body, hbody⟩ := hfirst
    rw [definedNames_append, definedNames_definition hbody] at hnodup hbuiltin hnew
    simp only [List.singleton_append, List.nodup_cons, List.forall_mem_cons] at hnodup hbuiltin hnew
    rw [feed_append, hbody.feed_definition hin hopen hbuiltin.1 hnew.1, Option.bind_some]
    have hlater : ∀ name ∈ definedNames rest,
        (a.signatures.insert signature.name signature.params).contains name = false := by
      intro name hname
      have hne : name ≠ signature.name := fun heq => hnodup.1 (heq ▸ hname)
      have hold := hnew.2 name hname
      simpa [Table.contains, hne] using hold
    obtain ⟨signatures, hfeed⟩ := @ih { a with
      finished := a.finished ++ [⟨.define signature, l, body, []⟩]
      signatures := a.signatures.insert signature.name signature.params } hin hopen hnodup.2
      hbuiltin.2 hlater
    refine ⟨signatures, hfeed.trans ?_⟩
    simp

end Grammar

end ApiScript
