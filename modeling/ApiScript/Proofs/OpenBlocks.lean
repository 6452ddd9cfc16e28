import ApiScript.Proofs.Derivations

/-!
# Placed lines are derived

The open blocks of an assembly are a derivation that is not finished: each holds what its lines
derive so far. An `end` turns the innermost block, or the whole chain that it belongs to, into an
item of the block around it. So whatever an assembly takes, the grammar derives.
-/
namespace ApiScript

namespace Assembly

variable {builtin : String → Bool} {a b : Assembly}

theorem switch_cases {chained : List String} {l : Location}
    (h : accepted (a.switch chained l) = some b) :
    ∃ top outer, a.openBlocks = top :: outer ∧ top.isBranch = true ∧ top.side = .body ∧
      ((chained = [] ∧ b = a.withOpen ({ top with side := .alt } :: outer)) ∨
        ∃ c, Opens chained c ∧
          b = a.withOpen
            (⟨.leaf (.branch c) l, .body, true⟩ :: { top with side := .alt } :: outer)) := by
  unfold switch at h
  split at h
  · cases h
  · next top outer hopen =>
    split at h
    · next hturn =>
      obtain ⟨hbranch, hside⟩ : top.isBranch = true ∧ top.side = .body := by simpa using hturn
      refine ⟨top, outer, hopen, hbranch, hside, ?_⟩
      cases chained with
      | nil =>
        cases h
        exact .inl ⟨rfl, rfl⟩
      | cons first rest =>
        by_cases hfirst : TokenKind.classify first = .keyword .branch
        · simp only [hfirst, if_true] at h
          cases hread : Instruction.read? (first :: rest) with
          | error cause => simp [hread] at h
          | ok found =>
            cases found with
            | none => simp [hread] at h
            | some i =>
              obtain ⟨c, rfl⟩ := Instruction.branch_of_read? hfirst hread
              simp only [hread, accepted_none, Option.some.injEq] at h
              exact .inr ⟨c, ⟨by simp [hfirst], hread⟩, h.symm⟩
        · simp [hfirst] at h
    · cases h

inductive Advances (builtin : String → Bool) (a : Assembly) : Placed → Assembly → Prop
  | define {signature : Signature} {l : Location} :
    a.insideFunction = false → builtin signature.name = false →
      a.signatures.contains signature.name = false →
      Advances builtin a ⟨.define signature, l⟩
        { a.push (.define signature) l false with
          signatures := a.signatures.insert signature.name signature.params
          insideFunction := true }
  | simple {i : Instruction} {l : Location} :
    a.insideFunction = true → i.isSimple = true →
      Advances builtin a ⟨i, l⟩ (a.attach (.leaf i l))
  | branch {c : Condition} {l : Location} :
    a.insideFunction = true → Advances builtin a ⟨.branch c, l⟩ (a.push (.branch c) l false)
  | loop {c : Condition} {l : Location} :
    a.insideFunction = true → Advances builtin a ⟨.loop c, l⟩ (a.push (.loop c) l false)
  | otherwise {chained : List String} {l : Location} {b : Assembly} :
    a.insideFunction = true → accepted (a.switch chained l) = some b →
      Advances builtin a ⟨.otherwise chained, l⟩ b
  | close {l : Location} {b : Assembly} :
    a.insideFunction = true → accepted a.close = some b → Advances builtin a ⟨.close, l⟩ b

theorem advances_of_advance {p : Placed} (h : a.advance builtin p = some b) :
    Advances builtin a p b := by
  obtain ⟨i, l⟩ := p
  simp only [advance] at h
  cases i with
  | define signature =>
    simp only [place, openFunction] at h
    split at h
    · cases h
    · next hin =>
      split at h
      · cases h
      · next hnew =>
        obtain ⟨hbuiltin, hknown⟩ := Bool.or_eq_false_iff.1 (Bool.not_eq_true _ ▸ hnew)
        cases h
        exact .define (Bool.not_eq_true _ ▸ hin) hbuiltin hknown
  | otherwise chained =>
    simp only [place] at h
    split at h
    · next hin => exact .otherwise hin h
    · cases h
  | close =>
    simp only [place] at h
    split at h
    · next hin => exact .close hin h
    · cases h
  | branch c =>
    simp only [place, Instruction.opensBlock] at h
    split at h
    · next hin =>
      cases h
      exact .branch hin
    · cases h
  | loop c =>
    simp only [place, Instruction.opensBlock] at h
    split at h
    · next hin =>
      cases h
      exact .loop hin
    · cases h
  | _ =>
    simp only [place, Instruction.opensBlock] at h
    split at h
    · next hin =>
      cases h
      exact .simple hin rfl
    · cases h

end Assembly

namespace Grammar

open Assembly

variable {builtin : String → Bool}

inductive Open : List Placed → List OpenBlock → Prop
  | function {signature : Signature} {l : Location} {lines : List Placed}
    {body : List Statement} :
    Block lines body →
      Open (⟨.define signature, l⟩ :: lines) [⟨⟨.define signature, l, body, []⟩, .body, false⟩]
  | loop {c : Condition} {l : Location} {before lines : List Placed} {outer : List OpenBlock}
    {body : List Statement} :
    Open before outer → Block lines body →
      Open (before ++ ⟨.loop c, l⟩ :: lines) (⟨⟨.loop c, l, body, []⟩, .body, false⟩ :: outer)
  | branch {c : Condition} {l : Location} {before lines : List Placed} {outer : List OpenBlock}
    {body : List Statement} :
    Open before outer → Block lines body →
      Open (before ++ ⟨.branch c, l⟩ :: lines) (⟨⟨.branch c, l, body, []⟩, .body, false⟩ :: outer)
  | otherwise {c : Condition} {l l' : Location} {before lines : List Placed}
    {outer : List OpenBlock} {body alt : List Statement} {closesParent : Bool} :
    Open before (⟨⟨.branch c, l, body, []⟩, .body, closesParent⟩ :: outer) → Block lines alt →
      Open (before ++ ⟨.otherwise [], l'⟩ :: lines)
        (⟨⟨.branch c, l, body, alt⟩, .alt, closesParent⟩ :: outer)
  | chained {c c' : Condition} {l l' : Location} {before lines : List Placed}
    {outer : List OpenBlock} {body body' : List Statement} {closesParent : Bool}
    {chained : List String} :
    Open before (⟨⟨.branch c, l, body, []⟩, .body, closesParent⟩ :: outer) → Opens chained c' →
      Block lines body' →
      Open (before ++ ⟨.otherwise chained, l'⟩ :: lines)
        (⟨⟨.branch c', l', body', []⟩, .body, true⟩ ::
          ⟨⟨.branch c, l, body, []⟩, .alt, closesParent⟩ :: outer)

theorem Open.exists_cons {lines : List Placed} {blocks : List OpenBlock} (h : Open lines blocks) :
    ∃ top outer, blocks = top :: outer := by
  cases h <;> exact ⟨_, _, rfl⟩

/-- An item goes to the innermost open block. -/
theorem Open.attach {before lines : List Placed} {top : OpenBlock} {outer : List OpenBlock}
    {s : Statement} (h : Open before (top :: outer)) (hs : Item lines s) :
    Open (before ++ lines) (top.attach s :: outer) := by
  cases h with
  | function hbody => exact .function (hbody.snoc hs)
  | loop hopen hbody =>
    rw [List.append_assoc, List.cons_append]
    exact .loop hopen (hbody.snoc hs)
  | branch hopen hbody =>
    rw [List.append_assoc, List.cons_append]
    exact .branch hopen (hbody.snoc hs)
  | otherwise hopen halt =>
    rw [List.append_assoc, List.cons_append]
    exact .otherwise hopen (halt.snoc hs)
  | chained hopen hopens hbody =>
    rw [List.append_assoc, List.cons_append]
    exact .chained hopen hopens (hbody.snoc hs)

/-- A tail closes the innermost branch, and with it the chain that the branch belongs to. -/
theorem Open.tail {before : List Placed} {blocks : List OpenBlock} (h : Open before blocks)
    {c : Condition} {l : Location} {body : List Statement} {closesParent : Bool}
    {outer : List OpenBlock}
    (hblocks : blocks = ⟨⟨.branch c, l, body, []⟩, .body, closesParent⟩ :: outer)
    {lines : List Placed} {alt : List Statement} (htail : Tail lines alt) (a : Assembly) :
    ∃ rest, a.settle ⟨⟨.branch c, l, body, alt⟩, .alt, closesParent⟩ outer =
      (a.withOpen rest, none) ∧ Open (before ++ lines) rest := by
  induction h generalizing c l body closesParent outer lines alt with
  | function hbody => cases hblocks
  | loop hopen hbody ih => cases hblocks
  | branch hopen hbody ih =>
    cases hblocks
    obtain ⟨parent, others, rfl⟩ := hopen.exists_cons
    refine ⟨_, settle_branch, ?_⟩
    rw [List.append_assoc, List.cons_append]
    exact hopen.attach (.chain hbody htail)
  | otherwise hopen halt ih => cases hblocks
  | chained hopen hopens hbody ih =>
    cases hblocks
    rw [settle_chained, List.append_assoc, List.cons_append]
    exact ih rfl (.chained hopens hbody htail)

theorem Open.eq_of_isBranch {lines : List Placed} {top : OpenBlock} {outer : List OpenBlock}
    (h : Open lines (top :: outer)) (hbranch : top.isBranch = true) (hside : top.side = .body) :
    ∃ c l body closesParent, top = ⟨⟨.branch c, l, body, []⟩, .body, closesParent⟩ := by
  cases h with
  | function hbody => cases hbranch
  | loop hopen hbody => cases hbranch
  | branch hopen hbody => exact ⟨_, _, _, _, rfl⟩
  | otherwise hopen halt => cases hside
  | chained hopen hopens hbody => exact ⟨_, _, _, _, rfl⟩

/-- What the lines placed so far derive: finished functions, and an open one while inside it. -/
inductive Shape : List Placed → Assembly → Prop
  | between {lines : List Placed} {a : Assembly} :
    Definitions lines a.finished → a.openBlocks = [] → a.insideFunction = false → Shape lines a
  | inside {done lines : List Placed} {a : Assembly} :
    Definitions done a.finished → Open lines a.openBlocks → a.insideFunction = true →
      Shape (done ++ lines) a

theorem Open.close_branch {done lines : List Placed} {a b : Assembly} {c : Condition}
    {l l' : Location} {body : List Statement} {closesParent : Bool} {outer : List OpenBlock}
    (hdone : Definitions done a.finished)
    (h : Open lines (⟨⟨.branch c, l, body, []⟩, .body, closesParent⟩ :: outer))
    (hin : a.insideFunction = true)
    (hclose : accepted (a.settle ⟨⟨.branch c, l, body, []⟩, .body, closesParent⟩ outer) = some b) :
    Shape (done ++ (lines ++ [⟨.close, l'⟩])) b := by
  obtain ⟨rest, hsettle, hrest⟩ := h.tail rfl (.close (l := l')) a
  simp only [settle_side a _ .body .alt, hsettle, accepted_none, Option.some.injEq] at hclose
  subst hclose
  exact .inside hdone hrest hin

/-- The `end` of the innermost block closes a function, a loop, or a chain of branches. -/
theorem Open.close {done lines : List Placed} {a b : Assembly} {l' : Location}
    (hdone : Definitions done a.finished) (h : Open lines a.openBlocks)
    (hin : a.insideFunction = true) (hclose : accepted a.close = some b) :
    Shape (done ++ lines ++ [⟨.close, l'⟩]) b := by
  rw [Assembly.close] at hclose
  generalize a.openBlocks = blocks at h hclose
  rw [List.append_assoc]
  have hself := h
  cases h with
  | function hbody =>
    simp only [settle_define, accepted_none, Option.some.injEq] at hclose
    subst hclose
    exact .between (hdone.snoc (.mk hbody)) rfl rfl
  | loop hopen hbody =>
    obtain ⟨parent, others, rfl⟩ := hopen.exists_cons
    simp only [settle_loop, accepted_none, Option.some.injEq] at hclose
    subst hclose
    refine .inside hdone ?_ hin
    rw [List.append_assoc, List.cons_append]
    exact hopen.attach (.loop hbody)
  | branch hopen hbody => exact hself.close_branch hdone hin hclose
  | otherwise hopen halt =>
    obtain ⟨rest, hsettle, hrest⟩ := hopen.tail rfl (.otherwise halt) a
    simp only [hsettle, accepted_none, Option.some.injEq] at hclose
    subst hclose
    refine .inside hdone ?_ hin
    rw [List.append_assoc, List.cons_append]
    exact hrest
  | chained hopen hopens hbody => exact hself.close_branch hdone hin hclose

/-- An `else` turns the innermost branch, and opens the next one of a chain. -/
theorem Open.switch {done lines : List Placed} {a b : Assembly} {chained : List String}
    {l : Location} (hdone : Definitions done a.finished) (h : Open lines a.openBlocks)
    (hin : a.insideFunction = true) (hswitch : accepted (a.switch chained l) = some b) :
    Shape (done ++ lines ++ [⟨.otherwise chained, l⟩]) b := by
  obtain ⟨top, outer, hopen, hbranch, hside, hresult⟩ := switch_cases hswitch
  rw [hopen] at h
  obtain ⟨c, l, body, closesParent, rfl⟩ := h.eq_of_isBranch hbranch hside
  rw [List.append_assoc]
  obtain ⟨rfl, rfl⟩ | ⟨c', hopens, rfl⟩ := hresult
  · exact .inside hdone (.otherwise h .nil) hin
  · exact .inside hdone (.chained h hopens .nil) hin

/-- One placed instruction keeps the shape. -/
theorem Shape.step {lines : List Placed} {a b : Assembly} {p : Placed} (h : Shape lines a)
    (hstep : Advances builtin a p b) : Shape (lines ++ [p]) b := by
  cases h with
  | between hdone hopen hin =>
    cases hstep with
    | @define signature l hout hbuiltin hnew =>
      refine .inside hdone ?_ rfl
      rw [Assembly.push, hopen]
      exact .function .nil
    | simple hin' => simp [hin] at hin'
    | branch hin' => simp [hin] at hin'
    | loop hin' => simp [hin] at hin'
    | otherwise hin' => simp [hin] at hin'
    | close hin' => simp [hin] at hin'
  | @inside done lines _ hdone hopen hin =>
    cases hstep with
    | define hout => simp [hin] at hout
    | @simple i l _ hsimple =>
      obtain ⟨top, outer, htop⟩ := hopen.exists_cons
      rw [List.append_assoc, Assembly.attach, htop]
      rw [htop] at hopen
      exact .inside hdone (hopen.attach (.simple hsimple)) hin
    | branch =>
      rw [List.append_assoc]
      exact .inside hdone (.branch hopen .nil) hin
    | loop =>
      rw [List.append_assoc]
      exact .inside hdone (.loop hopen .nil) hin
    | otherwise _ hswitch => exact hopen.switch hdone hin hswitch
    | close _ hclose => exact hopen.close hdone hin hclose

end Grammar

end ApiScript
