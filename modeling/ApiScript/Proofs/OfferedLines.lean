import ApiScript.Proofs.OpenStack
import ApiScript.Proofs.ReadInstructions

/-!
# Lines offered to an assembly

Lines are offered one after the other, and any of them may be refused. At every moment the statements
that the assembly holds, outer ones first, are the lines that it took, each once and in the order in
which they were offered, and they are nested as statements may be. So an `end` inside a function
always finds a block to close.
-/
namespace ApiScript

def Cause.isRefusedEnd : Cause → Bool
  | .brokenChain => true
  | .unexpectedKeyword keyword => keyword == "end"
  | _ => false

theorem Cause.isRefusedEnd_of_isRefusal {cause : Cause} (h : cause.isRefusal = true) :
    cause.isRefusedEnd = false := by
  cases cause with
  | malformed how => rfl
  | unknownMode => rfl
  | _ => cases h

namespace Assembly

variable {builtin : String → Bool} {a b : Assembly}

def turn (a : Assembly) : Assembly :=
  a.withOpen (a.openBlocks.modifyHead fun top => { top with side := .alt })

/-- An `else` comes to a branch that can turn, with tokens after it that open no other branch. -/
structure Misturns (a : Assembly) (chained : List String) : Prop where
  ne_nil : chained ≠ []
  not_opens : ∀ c, ¬ Opens chained c
  branch : ∃ top outer, a.openBlocks = top :: outer ∧ top.isBranch = true ∧ top.side = .body

theorem Misturns.turned {chained : List String} (h : Misturns a chained) : Turned a a.turn := by
  obtain ⟨top, outer, htop, hbranch, -⟩ := h.branch
  exact ⟨top, outer, htop, hbranch, by rw [turn, htop]; rfl⟩

theorem switch_refused {chained : List String} {l : Location} {cause : Cause}
    (h : a.switch chained l = (b, some cause)) :
    (Misturns a chained ∧ b = a.turn ∨ ¬ Misturns a chained ∧ b = a) ∧
      cause.isRefusedEnd = false := by
  unfold switch at h
  split at h
  · next hnone =>
    cases h
    refine ⟨.inr ⟨?_, rfl⟩, rfl⟩
    rintro ⟨-, -, top, outer, htop, -⟩
    rw [hnone] at htop
    cases htop
  next top outer htop =>
  split at h
  · next hturn =>
    obtain ⟨hbranch, hside⟩ : top.isBranch = true ∧ top.side = .body := by simpa using hturn
    have hturned : a.turn = a.withOpen ({ top with side := .alt } :: outer) := by
      rw [turn, htop]
      rfl
    have hmisturns (hopens : ∀ c, ¬ Opens chained c) (hne : chained ≠ []) : Misturns a chained :=
      ⟨hne, hopens, top, outer, htop, hbranch, hside⟩
    dsimp only at h
    split at h
    · cases h
    next first rest =>
    split at h
    · next hfirst =>
      split at h
      · next cause' hread =>
        cases h
        have hrefusal := Instruction.isRefusal_of_read? hread
        refine ⟨.inl ⟨hmisturns ?_ nofun, hturned.symm⟩, Cause.isRefusedEnd_of_isRefusal hrefusal⟩
        rintro c ⟨-, hbranch⟩
        rw [hread] at hbranch
        cases hbranch
      · next hread =>
        cases h
        refine ⟨.inl ⟨hmisturns ?_ nofun, hturned.symm⟩, ?_⟩
        · rintro c ⟨-, hbranch⟩
          rw [hread] at hbranch
          cases hbranch
        · obtain rfl : first = "if" := by
            simpa [TokenKind.reserved] using TokenKind.mem_reserved_of_keyword hfirst
          rfl
      · cases h
    · next hfirst =>
      cases h
      refine ⟨.inl ⟨hmisturns ?_ nofun, hturned.symm⟩, rfl⟩
      rintro c ⟨hopens, -⟩
      exact hfirst (Option.some.inj hopens)
  · next hturn =>
    cases h
    refine ⟨.inr ⟨?_, rfl⟩, rfl⟩
    rintro ⟨-, -, top, outer, htop', hbranch, hside⟩
    rw [htop] at htop'
    cases htop'
    simp [hbranch, hside] at hturn

/-- A refused instruction leaves the assembly as it was, or with the innermost branch turned if it
is an `else` that opens no other branch there. -/
theorem Orderly.place_refused (h : Orderly a) {keyword : String} {i : Instruction} {l : Location}
    {cause : Cause} (hrefused : a.place builtin keyword i l = (b, some cause)) :
    ((∃ chained, i = .otherwise chained ∧ Misturns a chained) ∧ b = a.turn ∨
      (∀ chained, i = .otherwise chained → ¬ Misturns a chained) ∧ b = a) ∧
      cause.isRefusedEnd = false := by
  unfold place at hrefused
  split at hrefused
  · next signature =>
    unfold openFunction at hrefused
    split at hrefused
    · cases hrefused
      exact ⟨.inr ⟨by simp, rfl⟩, rfl⟩
    · split at hrefused
      · cases hrefused
        exact ⟨.inr ⟨by simp, rfl⟩, rfl⟩
      · cases hrefused
  · split at hrefused
    · next hin =>
      split at hrefused
      · obtain ⟨hleft, hcause⟩ := switch_refused hrefused
        refine ⟨hleft.imp ?_ ?_, hcause⟩
        · rintro ⟨hmisturns, rfl⟩
          exact ⟨⟨_, rfl, hmisturns⟩, rfl⟩
        · rintro ⟨hmisturns, rfl⟩
          exact ⟨fun _ hi => Instruction.otherwise.inj hi ▸ hmisturns, rfl⟩
      · obtain ⟨c, hc, -⟩ := h.close hin
        rw [hc] at hrefused
        cases hrefused
      · split at hrefused
        · cases hrefused
        · cases hrefused
    · next hout =>
      cases hrefused
      refine ⟨.inr ⟨?_, rfl⟩, rfl⟩
      rintro chained - ⟨-, -, top, outer, htop, -⟩
      rw [h.openBlocks_eq_nil (Bool.not_eq_true _ ▸ hout)] at htop
      cases htop

end Assembly

structure Offer where
  builtin : String → Bool
  signatures : Table (List String)
  tokens : List String
  file : String

namespace Offer

def isStatement (o : Offer) : Bool :=
  !(o.tokens.isEmpty || o.tokens.head? == some "#" || o.tokens == ["end"] || o.tokens == ["else"])

/-- What the line says; of an `else` with more after it, what follows. -/
def instruction? (o : Offer) : Option Instruction :=
  match Instruction.read? o.tokens with
  | .ok (some (.otherwise chained)) => (Instruction.read? chained).toOption.join
  | .ok found => found
  | .error _ => none

end Offer

namespace Assembly

variable {a : Assembly}

def take (a : Assembly) (o : Offer) : Assembly × Option Fault :=
  { a with signatures := o.signatures }.append o.builtin o.tokens o.file

theorem classify_eq_hash_iff {raw : String} :
    TokenKind.classify raw = .mark .hash ↔ raw = "#" := by
  constructor
  · intro h
    simpa [TokenKind.reserved] using TokenKind.mem_reserved_of_mark h
  · rintro rfl
    rfl

theorem read?_end_ne_none (rest : List String) : Instruction.read? ("end" :: rest) ≠ .ok none := by
  have hkind : (Token.ofRaw "end").kind = .keyword .close := rfl
  intro h
  simp only [Instruction.read?, hkind, Reader.form?] at h
  cases rest with
  | nil => cases h
  | cons next rest => cases h

/-- A line that is placed is a statement exactly if it adds one, which says what the line says. -/
theorem added_of_read? {o : Offer} {keyword : String} {rest : List String} {i : Instruction}
    (htokens : o.tokens = keyword :: rest) (hhash : keyword ≠ "#")
    (hread : Instruction.read? (keyword :: rest) = .ok (some i)) (l : Location)
    (hadded : i ≠ .close → i ≠ .otherwise [] → ∃ q, (⟨i, l⟩ : Placed).added = some q) :
    if o.isStatement then
      ∃ j, o.instruction? = some j ∧ (⟨i, l⟩ : Placed).added = some ⟨j, l⟩
    else (⟨i, l⟩ : Placed).added = none := by
  have hsays := Instruction.says_of_read? hread
  cases hsays with
  | otherwise =>
    cases rest with
    | nil => simp [Offer.isStatement, htokens, Placed.added]
    | cons first rest =>
      obtain ⟨q, hq⟩ := hadded (by simp) (by simp)
      obtain ⟨j, hj, rfl⟩ := Option.map_eq_some_iff.1 hq
      simp [Offer.isStatement, Offer.instruction?, htokens, hread, hj, hq]
  | close => simp [Offer.isStatement, htokens, Placed.added]
  | stated hstated =>
    have hboundary := hstated.isBoundary
    have hend : ¬ (keyword = "end" ∧ rest = []) := by
      rintro ⟨rfl, rfl⟩
      cases hread
      cases hboundary
    have helse : ¬ (keyword = "else" ∧ rest = []) := by
      rintro ⟨rfl, rfl⟩
      cases hread
      cases hboundary
    have hstatement : o.isStatement = true := by
      rw [Decidable.not_and_iff_or_not] at hend helse
      simpa [Offer.isStatement, htokens, hhash] using ⟨hend, helse⟩
    have hinstruction : o.instruction? = some i := by
      rw [Offer.instruction?, htokens, hread]
      cases i with
      | otherwise chained => cases hboundary
      | _ => rfl
    rw [if_pos hstatement]
    exact ⟨i, hinstruction, added_eq_self hboundary l⟩

/-- A line that is offered to an orderly assembly leaves it orderly. If the line is taken, its own
statement comes last in the preorder. If it is refused, all statements stay, and it was no `end`
without a block. -/
theorem Orderly.take (h : Orderly a) (o : Offer) :
    (a.take o).1.Orderly ∧ (a.take o).1.line = a.line + 1 ∧
      match (a.take o).2 with
      | none =>
        if o.isStatement then
          ∃ i, o.instruction? = some i ∧
            (a.take o).1.heads = a.heads ++ [⟨i, ⟨a.line + 1, o.file⟩⟩]
        else (a.take o).1.heads = a.heads
      | some fault => (a.take o).1.heads = a.heads ∧ fault.cause.isRefusedEnd = false := by
  let a₁ : Assembly := { a with signatures := o.signatures, line := a.line + 1 }
  let l : Location := ⟨a.line + 1, o.file⟩
  have h₁ : a₁.Orderly := ⟨h.finished, h.stacked, h.inside⟩
  have hsame : a₁.heads = a.heads := rfl
  have htake : a.take o = ((a₁.accept o.builtin o.tokens l).1,
      (a₁.accept o.builtin o.tokens l).2.map fun cause => ⟨cause, some l⟩) := rfl
  rw [htake]
  unfold accept
  split
  · next htokens => exact ⟨h₁, rfl, by simp [Offer.isStatement, htokens, hsame]⟩
  next keyword rest htokens =>
  split
  · next hhash =>
    obtain rfl := classify_eq_hash_iff.1 hhash
    exact ⟨h₁, rfl, by simp [Offer.isStatement, htokens, hsame]⟩
  next hhash =>
  rw [htokens]
  split
  · next hread =>
    have hrefusal := Instruction.isRefusal_of_read? hread
    exact ⟨h₁, rfl, hsame, Cause.isRefusedEnd_of_isRefusal hrefusal⟩
  · next hread =>
    have hend : keyword ≠ "end" := by
      rintro rfl
      exact read?_end_ne_none rest hread
    exact ⟨h₁, rfl, hsame, by simpa [Cause.isRefusedEnd] using hend⟩
  next i hread =>
  cases hplace : a₁.place o.builtin keyword i l with
  | mk b cause =>
    cases cause with
    | none =>
      have hstep := advances_of_advance ((place_eq_iff_advance keyword).1 hplace)
      obtain ⟨horderly, hheads, hline⟩ := h₁.advance hstep
      have hadded := added_of_read? htokens (mt classify_eq_hash_iff.2 hhash) hread l
        hstep.exists_added
      refine ⟨horderly, hline, ?_⟩
      dsimp only [Option.map_none]
      split
      · next hstatement =>
        rw [if_pos hstatement] at hadded
        obtain ⟨j, hj, hadded⟩ := hadded
        exact ⟨j, hj, by rw [hheads, hadded, hsame]; rfl⟩
      · next hstatement =>
        rw [if_neg hstatement] at hadded
        rw [hheads, hadded, hsame]
        simp
    | some cause =>
      obtain ⟨⟨⟨chained, -, hmisturns⟩, rfl⟩ | ⟨-, rfl⟩, hcause⟩ := h₁.place_refused hplace
      · obtain ⟨top, outer, htop, -⟩ := hmisturns.branch
        have hin : a₁.insideFunction = true := h₁.inside.2 (by simp [htop])
        obtain ⟨horderly, hheads, hline⟩ := h₁.turned hin hmisturns.turned
        exact ⟨horderly, hline, hheads, hcause⟩
      · exact ⟨h₁, rfl, hsame, hcause⟩

end Assembly

/-- A branch that closes the block around it stands in the other branch of that block. -/
def ChainedInBranches (blocks : List OpenBlock) : Prop :=
  ∀ inner block outer, blocks = inner ++ block :: outer → block.closesParent = true →
    ∃ parent rest, outer = parent :: rest ∧ parent.isBranch = true ∧ parent.side = .alt

structure Assembly.WellNested (a : Assembly) : Prop where
  /-- Branches and loops are open inside a function. -/
  stack : a.openBlocks = [] ∨ ∃ inner function, a.openBlocks = inner ++ [function] ∧
    function.isFunction = true ∧ ∀ block ∈ inner, (∃ c, block.statement.instruction = .branch c) ∨
      ∃ c, block.statement.instruction = .loop c
  inside : a.insideFunction = true ↔ a.openBlocks ≠ []
  chained : ChainedInBranches a.openBlocks
  boundary : ∀ s ∈ a.nodes, s.instruction.isBoundary = false
  functions : ∀ s ∈ a.roots, ∀ t ∈ Statement.preorder s.children, ∀ signature,
    t.instruction ≠ .define signature
  body : ∀ s ∈ a.nodes, s.body ≠ [] → s.instruction.opensBlock = true
  alt : ∀ s ∈ a.nodes, s.alt ≠ [] → ∃ c, s.instruction = .branch c

theorem Stacked.exists_function {blocks : List OpenBlock} (h : Stacked blocks) :
    ∃ inner function, blocks = inner ++ [function] ∧ function.isFunction = true ∧
      ∀ block ∈ inner, (∃ c, block.statement.instruction = .branch c) ∨
        ∃ c, block.statement.instruction = .loop c := by
  induction h with
  | function => exact ⟨[], _, rfl, rfl, nofun⟩
  | @loop c l body outer _ _ ih =>
    obtain ⟨inner, function, rfl, hfunction, hinner⟩ := ih
    exact ⟨_ :: inner, function, rfl, hfunction, List.forall_mem_cons.2 ⟨.inr ⟨c, rfl⟩, hinner⟩⟩
  | @branch c l body alt side outer _ _ _ _ ih =>
    obtain ⟨inner, function, rfl, hfunction, hinner⟩ := ih
    exact ⟨_ :: inner, function, rfl, hfunction, List.forall_mem_cons.2 ⟨.inl ⟨c, rfl⟩, hinner⟩⟩
  | @chained c l body alt side parent outer _ _ _ _ _ _ ih =>
    obtain ⟨inner, function, houter, hfunction, hinner⟩ := ih
    rw [houter]
    exact ⟨_ :: inner, function, rfl, hfunction, List.forall_mem_cons.2 ⟨.inl ⟨c, rfl⟩, hinner⟩⟩

theorem ChainedInBranches.cons {top : OpenBlock} {blocks : List OpenBlock}
    (htop : top.closesParent = true →
      ∃ parent rest, blocks = parent :: rest ∧ parent.isBranch = true ∧ parent.side = .alt)
    (h : ChainedInBranches blocks) : ChainedInBranches (top :: blocks) := by
  intro inner block outer hblocks hcloses
  obtain ⟨rfl, hhere⟩ | ⟨inner, rfl, hbelow⟩ := List.cons_eq_append_iff.1 hblocks
  · cases hhere
    exact htop hcloses
  · exact h inner block outer hbelow hcloses

theorem Stacked.chainedInBranches {blocks : List OpenBlock} (h : Stacked blocks) :
    ChainedInBranches blocks := by
  induction h with
  | function => exact .cons nofun (by simp [ChainedInBranches])
  | loop _ _ ih => exact ih.cons nofun
  | branch _ _ _ _ ih => exact ih.cons nofun
  | chained _ hbranch hside _ _ _ ih => exact ih.cons fun _ => ⟨_, _, rfl, hbranch, hside⟩

namespace Assembly

variable {a : Assembly}

theorem Orderly.wellNested (h : Orderly a) : WellNested a where
  stack := by
    by_cases hopen : a.openBlocks = []
    · exact .inl hopen
    · exact .inr (h.stacked hopen).exists_function
  inside := h.inside
  chained := by
    intro inner block outer hblocks hcloses
    have hopen : a.openBlocks ≠ [] := by simp [hblocks]
    exact (h.stacked hopen).chainedInBranches inner block outer hblocks hcloses
  boundary := by
    intro s hs
    rcases h.node hs with hfunction | hinner
    · cases hfunction with
      | mk => rfl
    · cases hinner with
      | simple hsimple => exact isBoundary_of_isSimple hsimple
      | loop => rfl
      | branch => rfl
  functions := by
    rintro s hs t ht signature hdefine
    cases Statement.inner_of_mem_preorder_children (h.root hs) ht with
    | simple hsimple =>
      cases hdefine
      cases hsimple
    | loop => cases hdefine
    | branch => cases hdefine
  body := by
    intro s hs hbody
    rcases h.node hs with hfunction | hinner
    · cases hfunction with
      | mk => rfl
    · cases hinner with
      | simple => exact absurd rfl hbody
      | loop => rfl
      | branch => rfl
  alt := by
    intro s hs halt
    rcases h.node hs with hfunction | hinner
    · cases hfunction with
      | mk => exact absurd rfl halt
    · cases hinner with
      | simple => exact absurd rfl halt
      | loop => exact absurd rfl halt
      | branch => exact ⟨_, rfl⟩

end Assembly

structure TakenLine where
  position : Nat
  offer : Offer

def TakenLine.head? (line : TakenLine) : Option Placed :=
  line.offer.instruction?.map fun i => ⟨i, ⟨line.position, line.offer.file⟩⟩

structure Intake where
  assembly : Assembly := {}
  offered : Nat := 0
  taken : List TakenLine := []

namespace Intake

def offer (k : Intake) (o : Offer) : Intake where
  assembly := (k.assembly.take o).1
  offered := k.offered + 1
  taken :=
    match (k.assembly.take o).2 with
    | none => k.taken ++ [⟨k.offered + 1, o⟩]
    | some _ => k.taken

def statements (k : Intake) : List TakenLine := k.taken.filter (·.offer.isStatement)

structure Faithful (k : Intake) : Prop where
  orderly : k.assembly.Orderly
  line : k.assembly.line = k.offered
  heads : k.assembly.heads.map some = k.statements.map TakenLine.head?
  lower : ∀ s ∈ k.assembly.heads, s.location.line ≤ k.offered
  increasing : k.assembly.heads.Pairwise fun s t => s.location.line < t.location.line

theorem Faithful.offer {k : Intake} (h : Faithful k) (o : Offer) : Faithful (k.offer o) := by
  obtain ⟨horderly, hline, hresult⟩ := h.orderly.take o
  have hnext : (k.offer o).assembly.line = (k.offer o).offered := by
    rw [Intake.offer, hline, h.line]
  have hlower : ∀ s ∈ k.assembly.heads, s.location.line ≤ k.offered + 1 :=
    fun s hs => Nat.le_succ_of_le (h.lower s hs)
  cases hfault : (k.assembly.take o).2 with
  | some fault =>
    rw [hfault] at hresult
    obtain ⟨hsame, -⟩ := hresult
    refine ⟨horderly, hnext, ?_, ?_, ?_⟩
    · simpa [Intake.offer, statements, hfault, hsame] using h.heads
    · simpa [Intake.offer, hsame] using hlower
    · simpa [Intake.offer, hsame] using h.increasing
  | none =>
    rw [hfault] at hresult
    dsimp only at hresult
    split at hresult
    · next hstatement =>
      obtain ⟨i, hi, hheads⟩ := hresult
      rw [h.line] at hheads
      have hhead : TakenLine.head? ⟨k.offered + 1, o⟩ = some ⟨i, ⟨k.offered + 1, o.file⟩⟩ := by
        simp [TakenLine.head?, hi]
      refine ⟨horderly, hnext, ?_, ?_, ?_⟩
      · have htaken := h.heads
        simp only [statements] at htaken
        simp [Intake.offer, statements, hfault, hheads, htaken, hstatement, hhead]
      · simpa [Intake.offer, hheads, or_imp, forall_and] using hlower
      · have hlast : ∀ s ∈ k.assembly.heads, ∀ t ∈ [(⟨i, ⟨k.offered + 1, o.file⟩⟩ : Placed)],
            s.location.line < t.location.line := by
          intro s hs t ht
          rw [List.mem_singleton.1 ht]
          exact Nat.lt_succ_of_le (h.lower s hs)
        have hoffered : (k.offer o).assembly = (k.assembly.take o).1 := rfl
        rw [hoffered, hheads]
        exact List.pairwise_append.2 ⟨h.increasing, List.pairwise_singleton _ _, hlast⟩
    · next hstatement =>
      refine ⟨horderly, hnext, ?_, ?_, ?_⟩
      · simpa [Intake.offer, statements, hfault, hresult, hstatement] using h.heads
      · simpa [Intake.offer, hresult] using hlower
      · simpa [Intake.offer, hresult] using h.increasing

theorem faithful_foldl {k : Intake} (h : Faithful k) (offers : List Offer) :
    Faithful (offers.foldl Intake.offer k) := by
  induction offers generalizing k with
  | nil => exact h
  | cons o rest ih => exact ih (h.offer o)

theorem faithful_empty : Faithful {} where
  orderly := Assembly.orderly_empty ∅ 0
  line := rfl
  heads := rfl
  lower p hp := absurd hp (Assembly.not_mem_heads_empty p)
  increasing := .nil

/-- Whatever lines were offered, the statements in the assembly are those of the lines that were
taken, in order and nested as they may be, and an `end` closes a block whenever one is open. -/
theorem assembly_holds_taken_lines (offers : List Offer) :
    let k := offers.foldl Intake.offer {}
    (k.assembly.nodes.map fun s => some s.head) = k.statements.map TakenLine.head? ∧
      k.assembly.nodes.Pairwise (fun s t => s.location.line < t.location.line) ∧
      k.assembly.WellNested ∧
      (k.assembly.insideFunction = true → ∃ b, k.assembly.close = (b, none)) ∧
      ∀ o fault, (k.assembly.take o).2 = some fault →
        fault.cause ≠ .brokenChain ∧ fault.cause ≠ .unexpectedKeyword "end" := by
  intro k
  have h : Faithful k := faithful_foldl faithful_empty offers
  refine ⟨?_, ?_, h.orderly.wellNested, ?_, ?_⟩
  · rw [← h.heads, Assembly.heads, Statement.heads, List.map_map]
    rfl
  · have hincreasing := h.increasing
    rw [Assembly.heads, Statement.heads, List.pairwise_map] at hincreasing
    exact hincreasing
  · intro hin
    obtain ⟨b, hb, -⟩ := h.orderly.close hin
    exact ⟨b, hb⟩
  · intro o fault hfault
    obtain ⟨-, -, hresult⟩ := h.orderly.take o
    rw [hfault] at hresult
    constructor
    · intro hcause
      simp [hcause, Cause.isRefusedEnd] at hresult
    · intro hcause
      simp [hcause, Cause.isRefusedEnd] at hresult

end Intake

end ApiScript
