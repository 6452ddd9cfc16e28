import ApiScript.Proofs.Begun
import ApiScript.Proofs.FrameWrites

/-!
# Symbols across blocks

A symbol that lies no deeper than a block keeps its place and its depth while the block is executed,
whatever is written to it, until a `del` removes it. What is declared in the block lies deeper. So a
block that cleans up at its end leaves the symbols that were there before, each at its depth, and
not those that were removed, even if they were declared again.
-/
namespace ApiScript

open Run Statement

namespace Store

def shallowDepth? (s : Store) (limit : Nat) (name : String) : Option Nat :=
  ((s.symbol? name).map Symbol.depth).filter fun depth => decide (depth ≤ limit)

variable {s t : Store} {limit : Nat} {name : String}

theorem shallowDepth?_eq_some_iff {depth : Nat} :
    s.shallowDepth? limit name = some depth ↔
      ∃ symbol, s.symbol? name = some symbol ∧ symbol.depth = depth ∧ depth ≤ limit := by
  rw [shallowDepth?, Option.filter_eq_some_iff, Option.map_eq_some_iff, decide_eq_true_eq]
  constructor
  · rintro ⟨⟨symbol, hsymbol, hdepth⟩, hlimit⟩
    exact ⟨symbol, hsymbol, hdepth, hlimit⟩
  · rintro ⟨symbol, hsymbol, hdepth, hlimit⟩
    exact ⟨⟨symbol, hsymbol, hdepth⟩, hlimit⟩

theorem declares_of_shallowDepth? {depth : Nat} (h : s.shallowDepth? limit name = some depth) :
    s.declares name = true := by
  obtain ⟨symbol, hsymbol, -⟩ := shallowDepth?_eq_some_iff.1 h
  rw [declares_eq_isSome, hsymbol]
  rfl

theorem shallowDepth?_congr (h : t.frames = s.frames) :
    t.shallowDepth? limit name = s.shallowDepth? limit name := by
  rw [shallowDepth?, shallowDepth?, symbol?_congr h]

/-- A declaration below the limit does not show above it. -/
theorem shallowDepth?_declare {target : String} {value : Value} {depth : Nat} {constant : Bool}
    {status : Option Nat} (h : s.declare target value depth constant status = .ok t)
    (hdepth : limit < depth ∨ s.declares target = true) :
    t.shallowDepth? limit name = s.shallowDepth? limit name := by
  rw [shallowDepth?, shallowDepth?, symbol?_declare h]
  split
  · next heq =>
    subst heq
    rw [declares_eq_isSome] at hdepth
    cases hold : s.symbol? name with
    | none =>
      rw [hold] at hdepth
      have hdeeper : limit < depth := by simpa using hdepth
      simp [hdeeper]
    | some old => rfl
  · rfl

theorem shallowDepth?_eraseSymbol (target : String) :
    (s.eraseSymbol target).shallowDepth? limit name =
      if name = target then none else s.shallowDepth? limit name := by
  rw [shallowDepth?, symbol?_eraseSymbol]
  split
  · rfl
  · rfl

theorem shallowDepth?_cleanup {depth : Nat} (h : limit ≤ depth) :
    (s.cleanup depth).shallowDepth? limit name = s.shallowDepth? limit name := by
  obtain ⟨p, hp, hcleaned⟩ := symbol?_cleanup s depth name
  rw [shallowDepth?, shallowDepth?, hcleaned]
  cases s.symbol? name with
  | none => rfl
  | some symbol =>
    by_cases hlimit : symbol.depth ≤ limit
    · have hkept : p symbol = true := hp symbol (hlimit.trans h)
      simp [Option.filter, hkept]
    · cases hpurged : p symbol with
      | true => simp [Option.filter, hpurged]
      | false => simp [Option.filter, hpurged, hlimit]

end Store

structure RemovesIn (level : Nat) (name : String) (t : Statement) (n : Machine) : Prop where
  instruction : t.instruction = .delete name
  symbol : n.store.isRequest name = false
  declared : n.store.declares name = true
  frame : n.store.frames.length = level

def SomeRemoves (level : Nat) (name : String) (begun : Statement → Machine → Prop) : Prop :=
  ∃ t n, begun t n ∧ RemovesIn level name t n

def Removes (fetcher : Fetcher) (program : Program) (s : Statement) (m : Machine)
    (name : String) : Prop :=
  SomeRemoves m.store.frames.length name fun t n => Begins fetcher program t n s m

/-- A symbol that lies no deeper than a limit is dropped if it is removed, and keeps its depth if
it is not. -/
structure Spared (limit : Nat) (name : String) (removed : Prop) (m m' : Machine) : Prop where
  kept : ¬ removed → m'.store.shallowDepth? limit name = m.store.shallowDepth? limit name
  dropped : removed → m'.store.shallowDepth? limit name = none

namespace Spared

variable {limit : Nat} {name : String} {removed removed' : Prop} {m m₁ m₂ : Machine}

theorem of_eq (hnot : ¬ removed)
    (h : m₁.store.shallowDepth? limit name = m.store.shallowDepth? limit name) :
    Spared limit name removed m m₁ :=
  ⟨fun _ => h, fun hremoved => absurd hremoved hnot⟩

/-- What is removed once is not there again. -/
theorem trans (h : Spared limit name removed m m₁) (h' : Spared limit name removed' m₁ m₂) :
    Spared limit name (removed ∨ removed') m m₂ := by
  by_cases hlater : removed'
  · exact ⟨fun hnot => absurd (.inr hlater) hnot, fun _ => h'.dropped hlater⟩
  · have hsame := h'.kept hlater
    constructor
    · intro hnot
      rw [hsame]
      exact h.kept fun hremoved => hnot (.inl hremoved)
    · intro hremoved
      rw [hsame]
      exact h.dropped (hremoved.resolve_right hlater)

/-- Steps before and after that leave the depths up to the limit. -/
theorem around {m₀ m₃ : Machine} (h : Spared limit name removed m₁ m₂)
    (hbefore : m₁.store.shallowDepth? limit name = m₀.store.shallowDepth? limit name)
    (hafter : m₃.store.shallowDepth? limit name = m₂.store.shallowDepth? limit name) :
    Spared limit name removed m₀ m₃ :=
  ⟨fun hnot => hafter.trans ((h.kept hnot).trans hbefore), fun h' => hafter.trans (h.dropped h')⟩

end Spared

theorem someRemoves_or {level : Nat} {name : String} {b b' : Statement → Machine → Prop} :
    SomeRemoves level name (fun t n => b t n ∨ b' t n) ↔
      SomeRemoves level name b ∨ SomeRemoves level name b' := by
  simp only [SomeRemoves, or_and_right, exists_or]

theorem someRemoves_congr {level : Nat} {name : String} {b b' : Statement → Machine → Prop}
    (h : ∀ t n, b t n ↔ b' t n) : SomeRemoves level name b ↔ SomeRemoves level name b' := by
  simp only [SomeRemoves, h]

theorem not_someRemoves {level : Nat} {name : String} {b : Statement → Machine → Prop}
    (h : ∀ t n, ¬ b t n) : ¬ SomeRemoves level name b := by
  rintro ⟨t, n, hbegun, -⟩
  exact h t n hbegun

structure Inside (limit level : Nat) (m : Machine) : Prop where
  depth : limit < m.depth
  frames : m.store.frames.length = level

theorem Inside.of_kept {limit level : Nat} {m m' : Machine} (h : Inside limit level m)
    (hkept : Kept m m') : Inside limit level m' :=
  ⟨hkept.depth ▸ h.depth, (frames_length_of_outside hkept.store).trans h.frames⟩

section Execution

variable {fetcher : Fetcher} {program : Program} {limit level fuel : Nat} {name : String}
  {m m' : Machine} {flow : Flow}

def SparesInside (fetcher : Fetcher) (program : Program) (limit level : Nat) (name : String)
    (fuel : Nat) : Prop :=
  ∀ s m flow m', Inside limit level m → execute fetcher program fuel s m = .done flow m' →
    Spared limit name (SomeRemoves level name fun t n => Begins fetcher program t n s m) m m'

theorem spared_block (hexec : SparesInside fetcher program limit level name fuel)
    {statements : List Statement} (hm : Inside limit level m)
    (h : block (execute fetcher program fuel) statements m = .done flow m') :
    Spared limit name
      (SomeRemoves level name fun t n => BlockBegins fetcher program t n statements m) m m' := by
  induction statements generalizing m with
  | nil =>
    cases h
    exact .of_eq (not_someRemoves fun _ _ => not_blockBegins_nil) rfl
  | cons s rest ih =>
    obtain ⟨flow₁, m₁, hs, hrest⟩ := bind_eq_done h
    have hbegins (t : Statement) (n : Machine) :
        BlockBegins fetcher program t n (s :: rest) m ↔
          Begins fetcher program t n s m ∨
            flow₁ = .next ∧ BlockBegins fetcher program t n rest m₁ := blockBegins_cons_iff hs
    rw [someRemoves_congr hbegins, someRemoves_or]
    refine (hexec s m flow₁ m₁ hm hs).trans ?_
    cases flow₁ with
    | next =>
      have hm₁ := hm.of_kept (keeps_execute _ _ _ _ _ _ _ hs)
      simpa using ih hm₁ hrest
    | leave =>
      -- nothing of the rest begins, and the warning leaves the store
      obtain ⟨_, m₂, hwarned, hpure⟩ := bind_eq_done hrest
      cases hpure
      have hstore := ((notes_warnUnreachable rest).notes hwarned).1
      exact .of_eq (not_someRemoves fun _ _ hnext => nomatch hnext.1) (by rw [hstore])

theorem spared_repeatWhile (hexec : SparesInside fetcher program limit level name fuel)
    {condition : Condition} {body : List Statement} (rounds : Nat) (hm : Inside limit level m)
    (h : repeatWhile (test condition) (block (execute fetcher program fuel) body) rounds m =
      .done flow m') :
    Spared limit name
      (SomeRemoves level name fun t n => LoopBegins fetcher program t n condition body m) m m' := by
  induction rounds generalizing m with
  | zero => cases h
  | succ rounds ih =>
    obtain ⟨again, m₁, htest, h⟩ := bind_eq_done h
    have hstore := ((notes_test condition).notes htest).1
    have hm₁ := hm.of_kept ((makes_test condition).keeps _ _ _ htest)
    cases again with
    | false =>
      cases h
      exact .of_eq (not_someRemoves fun _ _ => not_loopBegins htest) (by rw [hstore])
    | true =>
      obtain ⟨flow₁, m₂, hbody, hrest⟩ := bind_eq_done h
      have hbegins (t : Statement) (n : Machine) :
          LoopBegins fetcher program t n condition body m ↔
            BlockBegins fetcher program t n body m₁ ∨
              flow₁ = .next ∧ LoopBegins fetcher program t n condition body m₂ :=
        loopBegins_iff htest hbody
      rw [someRemoves_congr hbegins, someRemoves_or]
      have hround : Spared limit name _ m m₂ :=
        (spared_block hexec hm₁ hbody).around (by rw [hstore]) rfl
      refine hround.trans ?_
      cases flow₁ with
      | next =>
        have hm₂ := hm₁.of_kept (keeps_block (keeps_execute _ _ _) _ _ _ _ hbody)
        simpa using ih hm₂ hrest
      | leave =>
        cases hrest
        exact .of_eq (not_someRemoves fun _ _ hnext => nomatch hnext.1) rfl

theorem shallowDepth?_purgeScope (h : limit ≤ m.depth) :
    (purgeScope m).store.shallowDepth? limit name = m.store.shallowDepth? limit name := by
  unfold purgeScope
  split
  · exact Store.shallowDepth?_cleanup h
  · rfl

/-- A block cleans up to its own depth at the deepest. -/
theorem spared_nested {removed : Prop} {x : Run Flow} (hkeeps : Keeps x) (hlimit : limit ≤ m.depth)
    (h : nested x m = .done flow m')
    (hinside : ∀ m₁, x { m with depth := m.depth + 1 } = .done flow m₁ →
      Spared limit name removed { m with depth := m.depth + 1 } m₁) :
    Spared limit name removed m m' := by
  obtain ⟨m₁, hx, rfl⟩ := nested_eq_done h
  -- blocks inside have been left again, so this one is left for the depth that it was entered at
  have hdepth : m₁.depth = m.depth + 1 := (hkeeps _ _ _ hx).depth
  have hback : limit ≤ ({ m₁ with depth := m₁.depth - 1 } : Machine).depth := by
    change limit ≤ m₁.depth - 1
    omega
  exact (hinside m₁ hx).around rfl (shallowDepth?_purgeScope hback)

theorem not_someRemoves_self {s : Statement} (h : ∀ target, s.instruction ≠ .delete target) :
    ¬ SomeRemoves level name fun t n => t = s ∧ n = m := by
  rintro ⟨t, n, ⟨rfl, rfl⟩, hremoves⟩
  exact h name hremoves.instruction

theorem spared_branch (hexec : SparesInside fetcher program limit level name fuel) {s : Statement}
    {condition : Condition} (hs : s.instruction = .branch condition) (hlimit : limit ≤ m.depth)
    (hlevel : m.store.frames.length = level)
    (h : branch (execute fetcher program fuel) condition s.body s.alt (begun s m) = .done flow m') :
    Spared limit name (SomeRemoves level name fun t n => Begins fetcher program t n s m) m m' := by
  have hkeeps : Keeps (test condition >>= fun holds =>
      block (execute fetcher program fuel) (if holds then s.body else s.alt)) :=
    (makes_test condition).keeps.bind fun _ => keeps_block (keeps_execute fetcher program fuel) _
  suffices hbegun : Spared limit name _ (begun s m) m' from ⟨hbegun.kept, hbegun.dropped⟩
  refine spared_nested hkeeps hlimit h ?_
  intro m₂ hinside
  obtain ⟨holds, m₁, htest, hbody⟩ := bind_eq_done hinside
  have hentered : Inside limit level { begun s m with depth := m.depth + 1 } :=
    ⟨Nat.lt_succ_of_le hlimit, hlevel⟩
  have hm₁ := hentered.of_kept ((makes_test condition).keeps _ _ _ htest)
  have hstore := ((notes_test condition).notes htest).1
  have hnot : ∀ target, s.instruction ≠ .delete target := by simp [hs]
  rw [someRemoves_congr fun t n => begins_branch_iff hs htest, someRemoves_or]
  refine Spared.trans (.of_eq (not_someRemoves_self hnot) ?_) (spared_block hexec hm₁ hbody)
  rw [hstore]

theorem spared_loop (hexec : SparesInside fetcher program limit level name fuel) {s : Statement}
    {condition : Condition} (rounds : Nat) (hs : s.instruction = .loop condition)
    (hlimit : limit ≤ m.depth) (hlevel : m.store.frames.length = level)
    (h : loop (execute fetcher program fuel) rounds condition s.body (begun s m) = .done flow m') :
    Spared limit name (SomeRemoves level name fun t n => Begins fetcher program t n s m) m m' := by
  have hbody := keeps_block (keeps_execute fetcher program fuel) s.body
  have hkeeps := keeps_repeatWhile (makes_test condition).keeps hbody rounds
  suffices hbegun : Spared limit name _ (begun s m) m' from ⟨hbegun.kept, hbegun.dropped⟩
  refine spared_nested hkeeps hlimit h ?_
  intro m₂ hinside
  have hentered : Inside limit level { begun s m with depth := m.depth + 1 } :=
    ⟨Nat.lt_succ_of_le hlimit, hlevel⟩
  have hnot : ∀ target, s.instruction ≠ .delete target := by simp [hs]
  rw [someRemoves_congr fun t n => begins_loop_iff hs, someRemoves_or]
  exact .trans (.of_eq (not_someRemoves_self hnot) rfl)
    (spared_repeatWhile hexec rounds hentered hinside)

theorem Writes.shallowDepth?_eq {target : Option String} {frames : List Frame}
    (h : Writes m target frames) (hlimit : limit < m.depth) (hframes : m'.store.frames = frames) :
    m'.store.shallowDepth? limit name = m.store.shallowDepth? limit name := by
  cases h with
  | nothing => exact Store.shallowDepth?_congr hframes
  | declared hdeclare hdepth =>
    have hdeeper : limit < _ ∨ m.store.declares _ = true :=
      hdepth.imp_left fun heq => heq ▸ hlimit
    rw [Store.shallowDepth?_congr hframes]
    exact Store.shallowDepth?_declare hdeclare hdeeper

theorem spared_delete {s : Statement} {target : String} (hs : s.instruction = .delete target)
    (hlevel : m.store.frames.length = level) (h : delete target (begun s m) = .done () m') :
    Spared limit name (SomeRemoves level name fun t n => t = s ∧ n = m) m m' := by
  rcases delete_eq_done h with ⟨hrequest, rfl⟩ | ⟨hrequest, hdeclares, rfl⟩
  · refine .of_eq ?_ rfl
    rintro ⟨t, n, ⟨rfl, rfl⟩, hremoves⟩
    have hname : target = name := by simpa [hs] using hremoves.instruction
    have hsymbol : n.store.isRequest target = false := hname ▸ hremoves.symbol
    exact Bool.false_ne_true (hsymbol.symm.trans hrequest)
  · have herased := @Store.shallowDepth?_eraseSymbol m.store limit name target
    by_cases hname : name = target
    · subst hname
      rw [if_pos rfl] at herased
      refine ⟨fun hnot => absurd ?_ hnot, fun _ => herased⟩
      exact ⟨s, m, ⟨rfl, rfl⟩, hs, hrequest, hdeclares, hlevel⟩
    · rw [if_neg hname] at herased
      refine .of_eq ?_ herased
      rintro ⟨t, n, ⟨rfl, rfl⟩, hremoves⟩
      have hsame : target = name := by simpa [hs] using hremoves.instruction
      exact hname hsame.symm

theorem spared_of_calls {s : Statement} {c : Call} (hs : s.Calls c)
    (hlevel : m.store.frames.length = level)
    (h : m'.store.shallowDepth? limit name = m.store.shallowDepth? limit name) :
    Spared limit name (SomeRemoves level name fun t n => Begins fetcher program t n s m) m m' := by
  refine .of_eq ?_ h
  rintro ⟨t, n, hbegins, hremoves⟩
  rcases begins_of_calls hs hbegins with ⟨rfl, rfl⟩ | habove
  · have hdelete := hremoves.instruction
    rcases hs with hi | ⟨target, hi⟩
    · simp [hi] at hdelete
    · simp [hi] at hdelete
  · rw [hremoves.frame, hlevel] at habove
    exact Nat.lt_irrefl _ habove

theorem spared_perform (hexec : SparesInside fetcher program limit level name fuel) {s : Statement}
    (hm : Inside limit level m)
    (h : perform fetcher program (execute fetcher program fuel) fuel s (begun s m) =
      .done flow m') :
    Spared limit name (SomeRemoves level name fun t n => Begins fetcher program t n s m) m m' := by
  have hkeeps := keeps_execute fetcher program fuel
  by_cases hatomic : s.instruction.isAtomic = true
  · rw [someRemoves_congr fun t n => begins_iff_of_isAtomic hatomic]
    by_cases hdelete : ∃ target, s.instruction = .delete target
    · obtain ⟨target, hs⟩ := hdelete
      unfold perform at h
      rw [hs] at h
      exact spared_delete hs hm.frames (andNext_eq_done h)
    · have hnot (target : String) : s.instruction ≠ .delete target :=
        fun hs => hdelete ⟨target, hs⟩
      have hwrites := writes_of_perform hatomic hnot h
      exact .of_eq (not_someRemoves_self hnot) (hwrites.shallowDepth?_eq hm.depth rfl)
  · unfold perform at h
    cases hi : s.instruction with
    | branch condition =>
      rw [hi] at h
      exact spared_branch hexec hi (Nat.le_of_lt hm.depth) hm.frames h
    | loop condition =>
      rw [hi] at h
      exact spared_loop hexec fuel hi (Nat.le_of_lt hm.depth) hm.frames h
    | call c =>
      rw [hi] at h
      obtain ⟨after, hcall, rfl⟩ := callAndDrop_eq_done hkeeps (andNext_eq_done h)
      have hframes := (frames_of_call hkeeps hcall).1
      exact spared_of_calls (.inl hi) hm.frames (Store.shallowDepth?_congr hframes)
    | callInto target c =>
      rw [hi] at h
      obtain ⟨after, value, rest, store, hcall, -, -, hdeclare, rfl⟩ :=
        callInto_eq_done hkeeps (andNext_eq_done h)
      obtain ⟨hframes, hdepth⟩ := frames_of_call hkeeps hcall
      have hdeeper : limit < after.depth := hdepth ▸ hm.depth
      refine spared_of_calls (.inr ⟨target, hi⟩) hm.frames ?_
      exact (Store.shallowDepth?_declare hdeclare (.inl hdeeper)).trans
        (Store.shallowDepth?_congr hframes)
    | _ => simp [hi, Instruction.isAtomic] at hatomic

/-- Whatever is executed deeper than a limit spares the symbols that lie no deeper. -/
theorem spares_execute (fetcher : Fetcher) (program : Program) (limit level : Nat) (name : String)
    (fuel : Nat) : SparesInside fetcher program limit level name fuel := by
  induction fuel with
  | zero =>
    intro s m flow m' _ h
    cases h
  | succ fuel ih =>
    intro s m flow m' hm h
    obtain ⟨_, m₁, hbegin, h⟩ := bind_eq_done h
    cases hbegin
    exact spared_perform ih hm (locating_eq_done h)

/-- A block spares the symbols that lie no deeper than itself. -/
theorem spared_of_block {s : Statement} {condition : Condition}
    (hs : s.instruction = .branch condition ∨ s.instruction = .loop condition)
    (h : execute fetcher program fuel s m = .done flow m') :
    Spared m.depth name (Removes fetcher program s m name) m m' := by
  obtain ⟨rest, h⟩ := execute_eq_done h
  have hexec := spares_execute fetcher program m.depth m.store.frames.length name rest
  unfold perform at h
  rcases hs with hs | hs
  · rw [hs] at h
    exact spared_branch hexec hs (Nat.le_refl _) rfl h
  · rw [hs] at h
    exact spared_loop hexec rest hs (Nat.le_refl _) rfl h

/-- Inside a block the machine has come by changes to where the block is left. -/
theorem exists_left_of_block {s : Statement} {condition : Condition}
    (hs : s.instruction = .branch condition ∨ s.instruction = .loop condition)
    (h : execute fetcher program fuel s m = .done flow m') :
    ∃ m₁, Relation.ReflTransGen Change m m₁ ∧
      m' = purgeScope { m₁ with depth := m₁.depth - 1 } := by
  have hentered : Makes Change (do begin s; enterBlock) :=
    (makes_begin s).change.bind fun _ => makes_enterBlock
  obtain ⟨rest, h⟩ := execute_eq_done h
  have hbody := makes_block (makes_execute fetcher program rest)
  unfold perform at h
  rcases hs with hs | hs
  · rw [hs] at h
    obtain ⟨m₁, hinside, rfl⟩ := nested_eq_done h
    have hran := ((makes_test condition).change.bind fun _ => hbody _).of_done hinside
    exact ⟨m₁, (hentered m).trans hran, rfl⟩
  · rw [hs] at h
    obtain ⟨m₁, hinside, rfl⟩ := nested_eq_done h
    have hran := (makes_repeatWhile (makes_test condition).change (hbody _) rest).of_done hinside
    exact ⟨m₁, (hentered m).trans hran, rfl⟩

/-- With purging on at its end, a block cleans up what lies deeper than itself. -/
theorem depth_le_of_block {s : Statement} {condition : Condition} (hm : m.store.Recorded)
    (hs : s.instruction = .branch condition ∨ s.instruction = .loop condition)
    (h : execute fetcher program fuel s m = .done flow m') (hpurge : m'.modes.purge = true)
    {symbol : Symbol} (hsymbol : m'.store.symbol? name = some symbol) :
    symbol.depth ≤ m'.depth := by
  obtain ⟨m₁, hchanges, rfl⟩ := exists_left_of_block hs h
  have hcovered := (Change.recorded_of_reflTransGen hchanges hm).covered
  unfold purgeScope at hpurge hsymbol ⊢
  split at hpurge
  · next hon =>
    rw [if_pos hon] at hsymbol ⊢
    dsimp only at hsymbol ⊢
    rw [hcovered.symbol?_cleanup] at hsymbol
    simpa using (Option.filter_eq_some_iff.1 hsymbol).2
  · next hoff => exact absurd hpurge hoff

theorem exists_shallowDepth?_of_block {s : Statement} {condition : Condition}
    (hm : m.store.Recorded)
    (hs : s.instruction = .branch condition ∨ s.instruction = .loop condition)
    (h : execute fetcher program fuel s m = .done flow m') (hpurge : m'.modes.purge = true)
    (hdeclares : m'.store.declares name = true) :
    ∃ depth, m'.store.shallowDepth? m.depth name = some depth := by
  rw [Store.declares_eq_isSome, Option.isSome_iff_exists] at hdeclares
  obtain ⟨symbol, hsymbol⟩ := hdeclares
  have hle := depth_le_of_block hm hs h hpurge hsymbol
  rw [(keeps_execute _ _ _ _ _ _ _ h).depth] at hle
  exact ⟨symbol.depth, Store.shallowDepth?_eq_some_iff.2 ⟨symbol, hsymbol, rfl, hle⟩⟩

end Execution

/-- From every reachable machine, a branch or a loop that ends well with purging on leaves the depth
as it was and only symbols that lie no deeper. All names of the innermost frame were there before.
A symbol that was there and lies no deeper keeps its depth, unless a `del` in the block removes it,
and then the name is gone, whether it was declared again or not. -/
theorem block_scope_discipline {m m' : Machine} (hm : Reachable m) {fetcher : Fetcher}
    {program : Program} {fuel : Nat} {s : Statement} {condition : Condition} {flow : Flow}
    (hs : s.instruction = .branch condition ∨ s.instruction = .loop condition)
    (h : execute fetcher program fuel s m = .done flow m') (hpurge : m'.modes.purge = true) :
    m'.depth = m.depth ∧
    (∀ name symbol, m'.store.symbol? name = some symbol → symbol.depth ≤ m'.depth) ∧
    (∀ name, m'.store.declares name = true → m.store.declares name = true) ∧
    (∀ name symbol, m.store.symbol? name = some symbol → symbol.depth ≤ m.depth →
      ¬ Removes fetcher program s m name →
        ∃ symbol', m'.store.symbol? name = some symbol' ∧ symbol'.depth = symbol.depth) ∧
    ∀ name, Removes fetcher program s m name → m'.store.declares name = false := by
  have hspared (name : String) : Spared m.depth name (Removes fetcher program s m name) m m' :=
    spared_of_block hs h
  have hleft {name : String} (hdeclares : m'.store.declares name = true) :
      ∃ depth, m'.store.shallowDepth? m.depth name = some depth :=
    exists_shallowDepth?_of_block hm.recorded hs h hpurge hdeclares
  refine ⟨(keeps_execute _ _ _ _ _ _ _ h).depth, ?_, ?_, ?_, ?_⟩
  · intro name symbol hsymbol
    exact depth_le_of_block hm.recorded hs h hpurge hsymbol
  · intro name hdeclares
    obtain ⟨depth, hafter⟩ := hleft hdeclares
    have hnot : ¬ Removes fetcher program s m name := by
      intro hremoved
      rw [(hspared name).dropped hremoved] at hafter
      cases hafter
    rw [(hspared name).kept hnot] at hafter
    exact Store.declares_of_shallowDepth? hafter
  · intro name symbol hsymbol hle hnot
    have hbefore := Store.shallowDepth?_eq_some_iff.2 ⟨symbol, hsymbol, rfl, hle⟩
    have hkept := (hspared name).kept hnot
    rw [hbefore] at hkept
    obtain ⟨symbol', hsymbol', hsame, -⟩ := Store.shallowDepth?_eq_some_iff.1 hkept
    exact ⟨symbol', hsymbol', hsame⟩
  · intro name hremoved
    rw [← Bool.not_eq_true]
    intro hdeclares
    obtain ⟨depth, hafter⟩ := hleft hdeclares
    rw [(hspared name).dropped hremoved] at hafter
    cases hafter

def leakingProgram : Program :=
  let line (number : Nat) : Location := ⟨number, "leak.neb"⟩
  ⟨[⟨.define ⟨"Main", [], none⟩, line 1,
      [.leaf (.assign "a" (.number "1") false) (line 2),
        .leaf (.assign "b" (.number "2") false) (line 3),
        ⟨.branch ⟨false, .declared "a"⟩, line 4,
          [.leaf (.assign "leaked" (.name "a") false) (line 5)], []⟩,
        .leaf (.use .scope) (line 7), .leaf (.delete "absent") (line 8)], []⟩]⟩

def rewritingBlock : Statement :=
  let line (number : Nat) : Location := ⟨number, "leak.neb"⟩
  ⟨.branch ⟨false, .declared "leaked"⟩, line 9,
    [.leaf (.assign "a" (.number "5") false) (line 10), .leaf (.delete "b") (line 11),
      .leaf (.assign "b" (.name "a") false) (line 12), .leaf (.leave none) (line 13)], []⟩

def leakedMachine : Machine := (leakingProgram.run (fun _ _ => {}) 20 {}).machine

/-- What was written keeps its depth, and what was removed and declared again is gone. -/
theorem rewritingBlock_discipline :
    leakedMachine.store.symbol? "leaked" = some ⟨.number "1", 1, false, none⟩ ∧
    leakedMachine.store.symbol? "b" = some ⟨.number "2", 0, false, none⟩ ∧
    ∃ flow m',
      execute (fun _ _ => {}) leakingProgram 20 rewritingBlock leakedMachine = .done flow m' ∧
      (∀ name symbol, m'.store.symbol? name = some symbol → symbol.depth ≤ m'.depth) ∧
      (∀ name, m'.store.declares name = true → leakedMachine.store.declares name = true) ∧
      (∃ symbol, m'.store.symbol? "a" = some symbol ∧ symbol.depth = 0) ∧
      Removes (fun _ _ => {}) leakingProgram rewritingBlock leakedMachine "b" ∧
      m'.store.declares "b" = false := by
  have hreachable : Reachable leakedMachine :=
    .rests ((Rests.fresh []).run (fun _ _ => {}) 20 leakingProgram)
  have ha : leakedMachine.store.symbol? "a" = some ⟨.number "1", 0, false, none⟩ := by
    decide +kernel
  have hb : leakedMachine.store.symbol? "b" = some ⟨.number "2", 0, false, none⟩ := by
    decide +kernel
  let o := execute (fun _ _ => {}) leakingProgram 20 rewritingBlock leakedMachine
  have hends : o.isDone = true ∧ o.machine.modes.purge = true ∧
      o.machine.store.declares "a" = true ∧ o.machine.store.declares "b" = false := by
    decide +kernel
  obtain ⟨hdone, hpurge, hhas, hgone⟩ := hends
  obtain ⟨flow, m', h⟩ := Outcome.exists_of_isDone hdone
  rw [h] at hpurge hhas hgone
  obtain ⟨-, hdepths, hnames, hkept, hdropped⟩ :=
    block_scope_discipline hreachable (.inl rfl) h hpurge
  have hremoves : Removes (fun _ _ => {}) leakingProgram rewritingBlock leakedMachine "b" := by
    by_contra hnot
    obtain ⟨symbol, hsymbol, -⟩ := hkept "b" _ hb (Nat.zero_le _) hnot
    change m'.store.declares "b" = false at hgone
    rw [Store.declares_eq_isSome, hsymbol] at hgone
    cases hgone
  have hstays : ¬ Removes (fun _ _ => {}) leakingProgram rewritingBlock leakedMachine "a" := by
    intro hremoved
    have hlost := hdropped "a" hremoved
    change m'.store.declares "a" = true at hhas
    rw [hhas] at hlost
    cases hlost
  refine ⟨by decide +kernel, hb, flow, m', h, hdepths, hnames, ?_, hremoves, hdropped "b" hremoves⟩
  exact hkept "a" _ ha (Nat.zero_le _) hstays

end ApiScript
