import ApiScript.Proofs.OpenBlocks
import ApiScript.Proofs.Preorder
import ApiScript.Proofs.ReadInstructions

/-!
# The stack of open blocks

An assembly is orderly: its finished statements are functions, its open blocks are a function at the
bottom with branches and loops above it, and what lies inside them is already in order. Each step on
an orderly assembly leaves an orderly one, also when it is refused, and the statements in the
assembly, outer ones first, are those there were with at most one more at the end.
-/
namespace ApiScript

namespace Statement

def head (s : Statement) : Placed := ⟨s.instruction, s.location⟩

def heads (ss : List Statement) : List Placed := (preorder ss).map head

@[simp]
theorem heads_nil : heads [] = [] := rfl

theorem heads_cons (s : Statement) (rest : List Statement) :
    heads (s :: rest) = s.head :: (heads s.body ++ heads s.alt ++ heads rest) := by
  simp [heads, preorder_cons]

@[simp]
theorem heads_append (first second : List Statement) :
    heads (first ++ second) = heads first ++ heads second := by
  simp [heads]

inductive Inner : Statement → Prop
  | simple {i : Instruction} {l : Location} : i.isSimple = true → Inner (.leaf i l)
  | loop {c : Condition} {l : Location} {body : List Statement} :
    (∀ s ∈ body, Inner s) → Inner ⟨.loop c, l, body, []⟩
  | branch {c : Condition} {l : Location} {body alt : List Statement} :
    (∀ s ∈ body, Inner s) → (∀ s ∈ alt, Inner s) → Inner ⟨.branch c, l, body, alt⟩

inductive Function : Statement → Prop
  | mk {signature : Signature} {l : Location} {body : List Statement} :
    (∀ s ∈ body, Inner s) → Function ⟨.define signature, l, body, []⟩

theorem Inner.of_mem_preorder {s : Statement} (h : s.Inner) : ∀ t ∈ preorder [s], t.Inner := by
  have inner_of_mem {t : Statement} {ss : List Statement}
      (ih : ∀ s ∈ ss, ∀ t ∈ preorder [s], Inner t) (ht : t ∈ preorder ss) : t.Inner := by
    obtain ⟨s, hs, ht⟩ := mem_preorder_iff.1 ht
    exact ih s hs t ht
  induction h with
  | simple hsimple => simpa using Inner.simple hsimple
  | loop hbody ih =>
    intro t ht
    rcases mem_preorder_cons.1 ht with rfl | ht | ht | ht
    · exact .loop hbody
    · exact inner_of_mem ih ht
    · cases ht
    · cases ht
  | branch hbody halt ihbody ihalt =>
    intro t ht
    rcases mem_preorder_cons.1 ht with rfl | ht | ht | ht
    · exact .branch hbody halt
    · exact inner_of_mem ihbody ht
    · exact inner_of_mem ihalt ht
    · cases ht

/-- Whatever stands inside a statement of a program stands inside a function. -/
theorem inner_of_mem_preorder_children {s t : Statement} (h : s.Function ∨ s.Inner)
    (ht : t ∈ preorder s.children) : t.Inner := by
  obtain ⟨child, hchild, ht⟩ := mem_preorder_iff.1 ht
  refine Inner.of_mem_preorder ?_ t ht
  rcases h with hfunction | hinner
  · cases hfunction with
    | mk hbody => exact hbody child (by simpa [children] using hchild)
  · cases hinner with
    | simple => cases hchild
    | loop hbody => exact hbody child (by simpa [children] using hchild)
    | branch hbody halt => exact (List.mem_append.1 hchild).elim (hbody child) (halt child)

end Statement

/-- The statement that a line adds: none for an `end` or a plain `else`, and the branch that follows
for any other `else`. -/
def Placed.added (p : Placed) : Option Placed :=
  match p.instruction with
  | .close => none
  | .otherwise [] => none
  | .otherwise chained => (Instruction.read? chained).toOption.join.map fun i => ⟨i, p.location⟩
  | _ => some p

open Statement

/-- Blocks of branches and loops around each other, the innermost first, inside a function. The
other branch is empty until a block turns to it, and a branch that closes with the one around it
stands in the other branch of that one. -/
inductive Stacked : List OpenBlock → Prop
  | function {signature : Signature} {l : Location} {body : List Statement} :
    (∀ s ∈ body, Inner s) → Stacked [⟨⟨.define signature, l, body, []⟩, .body, false⟩]
  | loop {c : Condition} {l : Location} {body : List Statement} {outer : List OpenBlock} :
    Stacked outer → (∀ s ∈ body, Inner s) → Stacked (⟨⟨.loop c, l, body, []⟩, .body, false⟩ :: outer)
  | branch {c : Condition} {l : Location} {body alt : List Statement} {side : Side}
    {outer : List OpenBlock} :
    Stacked outer → (∀ s ∈ body, Inner s) → (∀ s ∈ alt, Inner s) → (side = .body → alt = []) →
      Stacked (⟨⟨.branch c, l, body, alt⟩, side, false⟩ :: outer)
  | chained {c : Condition} {l : Location} {body alt : List Statement} {side : Side}
    {parent : OpenBlock} {outer : List OpenBlock} :
    Stacked (parent :: outer) → parent.isBranch = true → parent.side = .alt →
      (∀ s ∈ body, Inner s) → (∀ s ∈ alt, Inner s) → (side = .body → alt = []) →
      Stacked (⟨⟨.branch c, l, body, alt⟩, side, true⟩ :: parent :: outer)

namespace Stacked

variable {top : OpenBlock} {outer : List OpenBlock} {s : Statement}

theorem forall_mem_snoc {body : List Statement} (h : ∀ t ∈ body, Inner t) (hs : s.Inner) :
    ∀ t ∈ body ++ [s], Inner t := by
  simpa [or_imp, forall_and] using ⟨h, hs⟩

/-- A statement that is attached goes to the end of what the innermost block holds. -/
theorem heads_attach (h : Stacked (top :: outer)) (s : Statement) :
    heads [(top.attach s).statement] = heads [top.statement] ++ heads [s] := by
  obtain ⟨⟨i, l, body, alt⟩, side, closesParent⟩ := top
  have halt : side = .body → alt = [] := by
    intro hside
    cases h with
    | function => rfl
    | loop => rfl
    | branch _ _ _ halt => exact halt hside
    | chained _ _ _ _ _ halt => exact halt hside
  cases side with
  | body =>
    obtain rfl := halt rfl
    simp [OpenBlock.attach, heads_cons, head]
  | alt => simp [OpenBlock.attach, heads_cons, head]

theorem attach (h : Stacked (top :: outer)) (hs : s.Inner) : Stacked (top.attach s :: outer) := by
  cases h with
  | function hbody => exact .function (forall_mem_snoc hbody hs)
  | loop hopen hbody => exact .loop hopen (forall_mem_snoc hbody hs)
  | @branch c l body alt side _ hopen hbody halt hempty =>
    cases side with
    | body => exact .branch hopen (forall_mem_snoc hbody hs) halt hempty
    | alt => exact .branch hopen hbody (forall_mem_snoc halt hs) nofun
  | @chained c l body alt side _ _ hopen hbranch hside hbody halt hempty =>
    cases side with
    | body => exact .chained hopen hbranch hside (forall_mem_snoc hbody hs) halt hempty
    | alt => exact .chained hopen hbranch hside hbody (forall_mem_snoc halt hs) nofun

/-- A branch turns to its other side, where nothing stands yet. -/
theorem turn (h : Stacked (top :: outer)) (hbranch : top.isBranch = true) :
    Stacked ({ top with side := .alt } :: outer) := by
  cases h with
  | function => cases hbranch
  | loop => cases hbranch
  | branch hopen hbody halt => exact .branch hopen hbody halt nofun
  | chained hopen hparent hside hbody halt =>
    exact .chained hopen hparent hside hbody halt nofun

theorem statement_of_mem {blocks : List OpenBlock} (h : Stacked blocks) :
    ∀ block ∈ blocks, block.statement.Function ∨ block.statement.Inner := by
  induction h with
  | function hbody => simpa using .inl (.mk hbody)
  | loop hopen hbody ih => exact List.forall_mem_cons.2 ⟨.inr (.loop hbody), ih⟩
  | branch hopen hbody halt _ ih => exact List.forall_mem_cons.2 ⟨.inr (.branch hbody halt), ih⟩
  | chained hopen _ _ hbody halt _ ih =>
    exact List.forall_mem_cons.2 ⟨.inr (.branch hbody halt), ih⟩

end Stacked

namespace Assembly

/-- The finished statements, then those of the open blocks, the outermost first. -/
def roots (a : Assembly) : List Statement :=
  a.finished ++ a.openBlocks.reverse.map OpenBlock.statement

def nodes (a : Assembly) : List Statement := preorder a.roots

def heads (a : Assembly) : List Placed := Statement.heads a.roots

theorem not_mem_heads_empty (p : Placed) : p ∉ ({} : Assembly).heads := List.not_mem_nil

structure Orderly (a : Assembly) : Prop where
  finished : ∀ s ∈ a.finished, s.Function
  stacked : a.openBlocks ≠ [] → Stacked a.openBlocks
  inside : a.insideFunction = true ↔ a.openBlocks ≠ []

variable {builtin : String → Bool} {a b : Assembly}

theorem Orderly.root (h : Orderly a) {s : Statement} (hs : s ∈ a.roots) : s.Function ∨ s.Inner := by
  rcases List.mem_append.1 hs with hs | hs
  · exact .inl (h.finished s hs)
  · obtain ⟨block, hblock, rfl⟩ := List.mem_map.1 hs
    have hmem := List.mem_reverse.1 hblock
    exact (h.stacked (List.ne_nil_of_mem hmem)).statement_of_mem block hmem

/-- Each statement of an orderly assembly is a function or stands inside one. -/
theorem Orderly.node (h : Orderly a) {s : Statement} (hs : s ∈ a.nodes) : s.Function ∨ s.Inner := by
  obtain ⟨root, hroot, hs⟩ := mem_preorder_iff.1 hs
  rcases mem_preorder_cons.1 hs with rfl | hs | hs | hs
  · exact h.root hroot
  · exact .inr (inner_of_mem_preorder_children (h.root hroot) (by simp [children, hs]))
  · exact .inr (inner_of_mem_preorder_children (h.root hroot) (by simp [children, hs]))
  · cases hs

theorem orderly_empty (signatures : Table (List String)) (line : Nat) :
    Orderly { signatures, line } := ⟨nofun, nofun, by simp⟩

theorem heads_withOpen (a : Assembly) (block : OpenBlock) (outer : List OpenBlock) :
    (a.withOpen (block :: outer)).heads =
      (a.withOpen outer).heads ++ Statement.heads [block.statement] := by
  simp [heads, roots, withOpen]

theorem heads_push (a : Assembly) (i : Instruction) (l : Location) (closesParent : Bool) :
    (a.push i l closesParent).heads = a.heads ++ [⟨i, l⟩] := by
  simp [heads, roots, push, heads_cons, head, leaf]

theorem Orderly.exists_cons (h : Orderly a) (hin : a.insideFunction = true) :
    ∃ top outer, a.openBlocks = top :: outer ∧ Stacked (top :: outer) := by
  have hopen := h.inside.1 hin
  obtain ⟨top, outer, htop⟩ := List.exists_cons_of_ne_nil hopen
  exact ⟨top, outer, htop, htop ▸ h.stacked hopen⟩

theorem Orderly.withOpen (h : Orderly a) (hin : a.insideFunction = true) {top : OpenBlock}
    {outer : List OpenBlock} (hstacked : Stacked (top :: outer)) :
    Orderly (a.withOpen (top :: outer)) :=
  ⟨h.finished, fun _ => hstacked, iff_of_true hin (List.cons_ne_nil _ _)⟩

/-- Closing a block of an orderly stack always succeeds, and every statement keeps its place in the
preorder. The closed block is a function, goes into the block around it, or closes that one too. -/
theorem Orderly.settle (h : Orderly a) (hin : a.insideFunction = true) {block : OpenBlock}
    {outer : List OpenBlock} (hstacked : Stacked (block :: outer)) :
    ∃ b, a.settle block outer = (b, none) ∧ b.Orderly ∧
      b.heads = (a.withOpen (block :: outer)).heads ∧ b.line = a.line := by
  induction outer generalizing block with
  | nil =>
    cases hstacked with
    | @function signature l body hbody =>
      have hfinished : ∀ s ∈ a.finished ++ [⟨.define signature, l, body, []⟩], Function s := by
        simpa [or_imp, forall_and] using ⟨h.finished, Function.mk hbody⟩
      refine ⟨_, settle_define, ⟨hfinished, nofun, by simp⟩, ?_, rfl⟩
      simp [heads, roots, Assembly.withOpen]
    | loop hopen => cases hopen
    | branch hopen => cases hopen
  | cons parent outer ih =>
    have hmoved (hparent : Stacked (parent :: outer)) (hinner : block.statement.Inner) :
        Orderly (a.withOpen (parent.attach block.statement :: outer)) ∧
          (a.withOpen (parent.attach block.statement :: outer)).heads =
            (a.withOpen (block :: parent :: outer)).heads := by
      refine ⟨h.withOpen hin (hparent.attach hinner), ?_⟩
      rw [heads_withOpen, heads_withOpen, heads_withOpen, hparent.heads_attach, List.append_assoc]
    cases hstacked with
    | loop hopen hbody =>
      obtain ⟨horderly, hheads⟩ := hmoved hopen (.loop hbody)
      exact ⟨_, settle_loop, horderly, hheads, rfl⟩
    | branch hopen hbody halt =>
      obtain ⟨horderly, hheads⟩ := hmoved hopen (.branch hbody halt)
      exact ⟨_, settle_branch, horderly, hheads, rfl⟩
    | @chained c l body alt _ _ _ hopen _ _ hbody halt =>
      have hinner : Inner ⟨.branch c, l, body, alt⟩ := .branch hbody halt
      obtain ⟨-, hheads⟩ := hmoved hopen hinner
      obtain ⟨b, hb, horderly, hb', hline⟩ := ih (hopen.attach hinner)
      exact ⟨b, settle_chained.trans hb, horderly, hb'.trans hheads, hline⟩

theorem Orderly.close (h : Orderly a) (hin : a.insideFunction = true) :
    ∃ b, a.close = (b, none) ∧ b.Orderly ∧ b.heads = a.heads ∧ b.line = a.line := by
  obtain ⟨top, outer, htop, hstacked⟩ := h.exists_cons hin
  obtain ⟨b, hb, horderly, hheads, hline⟩ := h.settle hin hstacked
  rw [← htop, withOpen_self] at hheads
  refine ⟨b, ?_, horderly, hheads, hline⟩
  rw [Assembly.close, htop]
  exact hb

def Turned (a b : Assembly) : Prop :=
  ∃ top outer, a.openBlocks = top :: outer ∧ top.isBranch = true ∧
    b = a.withOpen ({ top with side := .alt } :: outer)

theorem Orderly.turned (h : Orderly a) (hin : a.insideFunction = true) (hturned : Turned a b) :
    b.Orderly ∧ b.heads = a.heads ∧ b.line = a.line := by
  obtain ⟨top, outer, htop, hbranch, rfl⟩ := hturned
  have hstacked : Stacked (top :: outer) := htop ▸ h.stacked (by simp [htop])
  refine ⟨h.withOpen hin (hstacked.turn hbranch), ?_, rfl⟩
  rw [← @withOpen_self a, htop, withOpen_withOpen, heads_withOpen, heads_withOpen]

theorem Orderly.openBlocks_eq_nil (h : Orderly a) (hout : a.insideFunction = false) :
    a.openBlocks = [] := by
  cases hopen : a.openBlocks with
  | nil => rfl
  | cons top outer =>
    have hin := h.inside.2 (by simp [hopen])
    rw [hout] at hin
    cases hin

/-- A block that is opened inside a function lies on the stack. -/
theorem Orderly.push (h : Orderly a) (hin : a.insideFunction = true) {i : Instruction}
    {l : Location} {closesParent : Bool}
    (hstacked : Stacked (⟨.leaf i l, .body, closesParent⟩ :: a.openBlocks)) :
    (a.push i l closesParent).Orderly ∧ (a.push i l closesParent).heads = a.heads ++ [⟨i, l⟩] :=
  ⟨h.withOpen hin hstacked, heads_push a i l closesParent⟩

theorem added_otherwise {chained : List String} {c : Condition} (h : Opens chained c)
    (l : Location) : (⟨.otherwise chained, l⟩ : Placed).added = some ⟨.branch c, l⟩ := by
  obtain ⟨hfirst, hread⟩ := h
  cases chained with
  | nil => cases hfirst
  | cons first rest => simp [Placed.added, hread, Except.toOption]

theorem added_eq_self {i : Instruction} (h : i.isBoundary = false) (l : Location) :
    (⟨i, l⟩ : Placed).added = some ⟨i, l⟩ := by
  cases i with
  | otherwise chained => cases h
  | close => cases h
  | _ => rfl

theorem isBoundary_of_isSimple {i : Instruction} (h : i.isSimple = true) :
    i.isBoundary = false := by
  cases i with
  | otherwise chained => cases h
  | close => cases h
  | _ => rfl

/-- An instruction that is taken adds a statement unless it is an `end` or a plain `else`. -/
theorem Advances.exists_added {p : Placed} (hstep : Advances builtin a p b)
    (hclose : p.instruction ≠ .close) (helse : p.instruction ≠ .otherwise []) :
    ∃ q, p.added = some q := by
  cases hstep with
  | @otherwise chained l _ hin hswitch =>
    obtain ⟨-, -, -, -, -, ⟨rfl, -⟩ | ⟨c, hopens, -⟩⟩ := switch_cases hswitch
    · exact absurd rfl helse
    · exact ⟨_, added_otherwise hopens l⟩
  | close => exact absurd rfl hclose
  | define => exact ⟨_, added_eq_self rfl _⟩
  | branch => exact ⟨_, added_eq_self rfl _⟩
  | loop => exact ⟨_, added_eq_self rfl _⟩
  | simple _ hsimple => exact ⟨_, added_eq_self (isBoundary_of_isSimple hsimple) _⟩

/-- An instruction that is taken leaves an orderly assembly and adds at most one statement. -/
theorem Orderly.advance {p : Placed} (h : Orderly a) (hstep : Advances builtin a p b) :
    b.Orderly ∧ b.heads = a.heads ++ p.added.toList ∧ b.line = a.line := by
  have hnone : ∀ s ∈ ([] : List Statement), Inner s := fun s hs => absurd hs List.not_mem_nil
  cases hstep with
  | @define signature l hout =>
    refine ⟨⟨h.finished, fun _ => ?_, by simp [Assembly.push]⟩, heads_push a _ l false, rfl⟩
    rw [Assembly.push, h.openBlocks_eq_nil hout]
    exact .function hnone
  | @simple i l hin hsimple =>
    obtain ⟨top, outer, htop, hstacked⟩ := h.exists_cons hin
    have hself : a.withOpen (top :: outer) = a := htop ▸ withOpen_self
    have hattach : a.attach (.leaf i l) = a.withOpen (top.attach (.leaf i l) :: outer) := by
      simp [Assembly.attach, Assembly.withOpen, htop]
    have hadded : (⟨i, l⟩ : Placed).added.toList = Statement.heads [.leaf i l] := by
      rw [added_eq_self (isBoundary_of_isSimple hsimple)]
      rfl
    refine ⟨hattach ▸ h.withOpen hin (hstacked.attach (.simple hsimple)), ?_, ?_⟩
    · rw [hattach, heads_withOpen, hstacked.heads_attach, ← List.append_assoc, ← heads_withOpen,
        hself, hadded]
    · rw [hattach]
      rfl
  | branch hin =>
    have hstacked := h.stacked (h.inside.1 hin)
    obtain ⟨horderly, hheads⟩ := h.push hin (.branch hstacked hnone hnone fun _ => rfl)
    exact ⟨horderly, hheads, rfl⟩
  | loop hin =>
    have hstacked := h.stacked (h.inside.1 hin)
    obtain ⟨horderly, hheads⟩ := h.push hin (.loop hstacked hnone)
    exact ⟨horderly, hheads, rfl⟩
  | @otherwise chained l _ hin hswitch =>
    obtain ⟨top, outer, htop, hbranch, -, hresult⟩ := switch_cases hswitch
    have hturned : Turned a (a.withOpen ({ top with side := .alt } :: outer)) :=
      ⟨top, outer, htop, hbranch, rfl⟩
    obtain ⟨horderly, hheads, hline⟩ := h.turned hin hturned
    obtain ⟨rfl, rfl⟩ | ⟨c, hopens, rfl⟩ := hresult
    · exact ⟨horderly, by simp [hheads, Placed.added], hline⟩
    · have hstacked : Stacked (⟨.leaf (.branch c) l, .body, true⟩ ::
          { top with side := .alt } :: outer) :=
        .chained (horderly.stacked (List.cons_ne_nil _ _)) hbranch rfl hnone hnone fun _ => rfl
      obtain ⟨hpushed, hpushedHeads⟩ := horderly.push hin hstacked
      refine ⟨hpushed, hpushedHeads.trans ?_, rfl⟩
      rw [hheads, added_otherwise hopens]
      rfl
  | close hin hclose =>
    obtain ⟨c, hc, horderly, hheads, hline⟩ := h.close hin
    rw [hc] at hclose
    cases hclose
    exact ⟨horderly, by simp [hheads, Placed.added], hline⟩

end Assembly

end ApiScript
