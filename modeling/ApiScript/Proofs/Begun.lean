import ApiScript.Proofs.Fuel
import ApiScript.Proofs.Preorder
import ApiScript.Proofs.Slips
import Mathlib.Data.List.Chain

/-!
# Where statements begin

A property of a statement and the state that it begins in is passed on if blocks, loops and calls
pass it on to the statements inside them; then it holds wherever a statement begins during a run. So
a statement always begins inside the function at hand, which was called from the entry function by
way of its callers, each of which has a frame of its own.
-/
namespace ApiScript

open Run Statement

/-- What holds where a statement begins holds where those begin that it executes. -/
structure PassedOn (fetcher : Fetcher) (program : Program) (J : Statement → Machine → Prop) :
    Prop where
  inside {s t : Statement} {m : Machine} : J s m → t ∈ s.children → J t m
  entered {s : Statement} {m : Machine} : J s m → J s { begun s m with depth := m.depth + 1 }
  tested {s : Statement} {m m₁ : Machine} {condition : Condition} {holds : Bool} : J s m →
    s.instruction = .branch condition ∨ s.instruction = .loop condition →
    test condition m = .done holds m₁ → J s m₁
  executed {s t : Statement} {m m₁ : Machine} {fuel : Nat} : J s m → J t m →
    execute fetcher program fuel s m = .done .next m₁ → J t m₁
  called {s t function : Statement} {m m₁ : Machine} {c : Call} {args : List Value}
    {params : List String} : J s m → s.Calls c →
    resolveAll c.args (begun s m) = .done args (begun s m) →
    program.function? c.name = some function → m.callers.length < maxCallDepth →
    openFrame c.name params args (returnsOf function) (begun s m) = .done () m₁ →
    t ∈ function.body → J t m₁

theorem mem_children_of_taken {s t : Statement} {holds : Bool}
    (h : t ∈ if holds then s.body else s.alt) : t ∈ s.children := by
  cases holds with
  | true => exact List.mem_append_left _ h
  | false => exact List.mem_append_right _ h

namespace PassedOn

variable {fetcher : Fetcher} {program : Program} {J : Statement → Machine → Prop}
  {t : Statement} {n : Machine}

theorem block (h : PassedOn fetcher program J) {statements : List Statement} {u : Statement}
    {m m₁ : Machine} {fuel : Nat} (hall : ∀ s ∈ statements, J s m) (hu : J u m)
    (hblock : block (execute fetcher program fuel) statements m = .done .next m₁) : J u m₁ := by
  induction statements generalizing m with
  | nil =>
    cases hblock
    exact hu
  | cons s rest ih =>
    obtain ⟨hs, hrest⟩ := List.forall_mem_cons.1 hall
    obtain ⟨flow, m₂, hdone, hblock⟩ := bind_eq_done hblock
    cases flow with
    | next =>
      refine ih (fun v hv => h.executed hs (hrest v hv) hdone) (h.executed hs hu hdone) hblock
    | leave =>
      obtain ⟨_, m₃, -, hpure⟩ := bind_eq_done hblock
      cases hpure

theorem loopEntered (h : PassedOn fetcher program J) {s : Statement} {m m₁ : Machine} (hs : J s m)
    (henter : (do begin s; enterBlock) m = .done () m₁) : J s m₁ := by
  cases henter
  exact h.entered hs

theorem functionEntered (h : PassedOn fetcher program J) {s function : Statement}
    {m m₁ m₂ : Machine} {c : Call} {args : List Value} {params : List String} (hs : J s m)
    (hcalls : s.Calls c) (hargs : (do begin s; resolveAll c.args) m = .done args m₁)
    (hfunction : program.function? c.name = some function)
    (hdepth : m₁.callers.length < maxCallDepth)
    (hopen : openFrame c.name params args (returnsOf function) m₁ = .done () m₂) :
    ∀ t ∈ function.body, J t m₂ := by
  obtain rfl : m₁ = begun s m := (makes_resolveAll _).eq_of_done hargs
  intro t ht
  exact h.called hs hcalls hargs hfunction hdepth hopen ht

mutual

theorem begins (h : PassedOn fetcher program J) {s : Statement} {m : Machine} (hs : J s m) :
    Begins fetcher program t n s m → J t n
  | .self => hs
  | .branch hi htest hbody => by
    have htested := h.tested (h.entered hs) (.inl hi) htest
    exact h.blockBegins (fun u hu => h.inside htested (mem_children_of_taken hu)) hbody
  | .loop hi henter hrounds =>
    h.loopBegins (h.loopEntered hs henter) hi (fun u hu => List.mem_append_left _ hu) hrounds
  | .call hcalls hargs _ _ hfunction _ hdepth hopen hbody =>
    h.blockBegins (h.functionEntered hs hcalls hargs hfunction hdepth hopen) hbody

theorem blockBegins (h : PassedOn fetcher program J) {statements : List Statement} {m : Machine}
    (hall : ∀ s ∈ statements, J s m) : BlockBegins fetcher program t n statements m → J t n
  | .head hs => h.begins (hall _ List.mem_cons_self) hs
  | .tail hdone hrest => by
    obtain ⟨hs, hall⟩ := List.forall_mem_cons.1 hall
    exact h.blockBegins (fun u hu => h.executed hs (hall u hu) hdone) hrest

theorem loopBegins (h : PassedOn fetcher program J) {s : Statement} {condition : Condition}
    {body : List Statement} {m : Machine} (hs : J s m) (hi : s.instruction = .loop condition)
    (hchildren : ∀ u ∈ body, u ∈ s.children) :
    LoopBegins fetcher program t n condition body m → J t n
  | .inside htest hbody => by
    have htested := h.tested hs (.inr hi) htest
    exact h.blockBegins (fun u hu => h.inside htested (hchildren u hu)) hbody
  | .again htest hround hrounds => by
    have htested := h.tested hs (.inr hi) htest
    have hbody : ∀ u ∈ body, J u _ := fun u hu => h.inside htested (hchildren u hu)
    exact h.loopBegins (h.block hbody htested hround) hi hchildren hrounds

end

/-- What holds of the body of the entry function holds wherever a statement begins. -/
theorem runBegins (h : PassedOn fetcher program J) {m : Machine}
    (hmain : ∀ main m₁, program.function? entryFunction = some main →
      enterMain program m = .done () m₁ → ∀ s ∈ main.body, J s m₁)
    (hbegins : RunBegins fetcher program m t n) : J t n := by
  obtain ⟨main, m₁, hfunction, henter, hbody⟩ := hbegins
  exact h.blockBegins (hmain main m₁ hfunction henter) hbody

end PassedOn

section Along

variable {fetcher : Fetcher} {program : Program} {s t : Statement} {m m₁ m₂ n : Machine}
  {condition : Condition} {rest body : List Statement} {flow : Flow} {fuel : Nat}

theorem begins_iff_of_isAtomic (hatomic : s.instruction.isAtomic = true) :
    Begins fetcher program t n s m ↔ t = s ∧ n = m := by
  constructor
  · intro h
    cases h with
    | self => exact ⟨rfl, rfl⟩
    | branch hi => simp [hi, Instruction.isAtomic] at hatomic
    | loop hi => simp [hi, Instruction.isAtomic] at hatomic
    | call hcalls =>
      rcases hcalls with hi | ⟨target, hi⟩
      · simp [hi, Instruction.isAtomic] at hatomic
      · simp [hi, Instruction.isAtomic] at hatomic
  · rintro ⟨rfl, rfl⟩
    exact .self

theorem begins_branch_iff {holds : Bool} (hs : s.instruction = .branch condition)
    (htest : test condition { begun s m with depth := m.depth + 1 } = .done holds m₁) :
    Begins fetcher program t n s m ↔
      (t = s ∧ n = m) ∨ BlockBegins fetcher program t n (if holds then s.body else s.alt) m₁ := by
  constructor
  · intro h
    cases h with
    | self => exact .inl ⟨rfl, rfl⟩
    | branch hi htest' hbody =>
      rw [hs] at hi
      cases hi
      have hsame := htest.symm.trans htest'
      cases hsame
      exact .inr hbody
    | loop hi => simp [hs] at hi
    | call hcalls => simp [hs] at hcalls
  · rintro (⟨rfl, rfl⟩ | hbody)
    · exact .self
    · exact .branch hs htest hbody

theorem begins_loop_iff (hs : s.instruction = .loop condition) :
    Begins fetcher program t n s m ↔
      (t = s ∧ n = m) ∨ LoopBegins fetcher program t n condition s.body
        { begun s m with depth := m.depth + 1 } := by
  constructor
  · intro h
    cases h with
    | self => exact .inl ⟨rfl, rfl⟩
    | branch hi => simp [hs] at hi
    | loop hi henter hrounds =>
      rw [hs] at hi
      cases hi
      cases henter
      exact .inr hrounds
    | call hcalls => simp [hs] at hcalls
  · rintro (⟨rfl, rfl⟩ | hrounds)
    · exact .self
    · exact .loop hs rfl hrounds

theorem not_blockBegins_nil : ¬ BlockBegins fetcher program t n [] m := by
  intro h
  cases h

/-- After a statement that ended well, the rest of the block begins where it ended. -/
theorem blockBegins_cons_iff (h : execute fetcher program fuel s m = .done flow m₁) :
    BlockBegins fetcher program t n (s :: rest) m ↔
      Begins fetcher program t n s m ∨ flow = .next ∧ BlockBegins fetcher program t n rest m₁ := by
  constructor
  · intro hbegins
    cases hbegins with
    | head hs => exact .inl hs
    | tail h' hrest =>
      obtain ⟨rfl, rfl⟩ :=
        eq_of_done_of_extends (fun _ _ hle => extends_execute fetcher program hle s) h h'
      exact .inr ⟨rfl, hrest⟩
  · rintro (hs | ⟨rfl, hrest⟩)
    · exact .head hs
    · exact .tail h hrest

/-- A block that does not leave its function has done all its statements. -/
theorem block_cons_eq_next {exec : Statement → Run Flow}
    (h : block exec (s :: rest) m = .done .next n) :
    ∃ m₁, exec s m = .done .next m₁ ∧ block exec rest m₁ = .done .next n := by
  obtain ⟨flow, m₁, hdone, hrest⟩ := bind_eq_done h
  cases flow with
  | next => exact ⟨m₁, hdone, hrest⟩
  | leave =>
    obtain ⟨_, m₂, -, hpure⟩ := bind_eq_done hrest
    cases hpure

theorem block_concat_eq_next {exec : Statement → Run Flow} {before : List Statement}
    (h : block exec (before ++ [s]) m = .done .next n) :
    ∃ m₁, block exec before m = .done .next m₁ ∧ exec s m₁ = .done .next n := by
  induction before generalizing m with
  | nil =>
    obtain ⟨m₁, hdone, hrest⟩ := block_cons_eq_next h
    cases hrest
    exact ⟨m, rfl, hdone⟩
  | cons u before ih =>
    obtain ⟨m₂, hdone, hrest⟩ := block_cons_eq_next h
    obtain ⟨m₁, hbefore, hlast⟩ := ih hrest
    exact ⟨m₁, (bind_of_done hdone).trans hbefore, hlast⟩

/-- Statements that ended well are followed by the rest of their block. -/
theorem BlockBegins.after {before : List Statement}
    (hbefore : block (execute fetcher program fuel) before m = .done .next m₁)
    (hrest : BlockBegins fetcher program t n rest m₁) :
    BlockBegins fetcher program t n (before ++ rest) m := by
  induction before generalizing m with
  | nil =>
    cases hbefore
    exact hrest
  | cons u before ih =>
    obtain ⟨m₂, hdone, hblock⟩ := block_cons_eq_next hbefore
    exact .tail hdone (ih hblock)

def Program.opening (fetcher : Fetcher) (program : Program) (fuel : Nat) (main : Statement)
    (m : Machine) (count : Nat) : Outcome Flow :=
  block (execute fetcher program fuel) (main.body.take count) (enterMain program m).machine

section Opening

variable {main : Statement} {count : Nat}

/-- A statement of the entry function begins where those before it end well. -/
theorem RunBegins.of_opening (hmain : program.function? entryFunction = some main)
    (ht : main.body[count]? = some t)
    (h : (program.opening fetcher fuel main m count).value? = some .next) :
    RunBegins fetcher program m t (program.opening fetcher fuel main m count).machine := by
  have hrest : main.body.drop count = t :: main.body.drop (count + 1) := by
    rw [List.drop_eq_getElem?_toList_append, ht]
    rfl
  refine ⟨main, (enterMain program m).machine, hmain, rfl, ?_⟩
  rw [← List.take_append_drop count main.body, hrest]
  exact BlockBegins.after (Outcome.eq_done_of_value? h) (.head .self)

theorem execute_of_opening (ht : main.body[count]? = some t)
    (h : (program.opening fetcher fuel main m (count + 1)).value? = some .next) :
    (program.opening fetcher fuel main m count).value? = some .next ∧
      execute fetcher program fuel t (program.opening fetcher fuel main m count).machine =
        .done .next (program.opening fetcher fuel main m (count + 1)).machine := by
  have hdone := Outcome.eq_done_of_value? h
  have htake : main.body.take (count + 1) = main.body.take count ++ [t] := by
    rw [List.take_add_one, ht]
    rfl
  obtain ⟨m₁, hbefore, hlast⟩ :=
    block_concat_eq_next ((congrArg (block _ · _) htake).symm.trans hdone)
  have hopening : program.opening fetcher fuel main m count = .done .next m₁ := hbefore
  rw [hopening]
  exact ⟨rfl, hlast⟩

end Opening

theorem loopBegins_iff (htest : test condition m = .done true m₁)
    (hbody : block (execute fetcher program fuel) body m₁ = .done flow m₂) :
    LoopBegins fetcher program t n condition body m ↔
      BlockBegins fetcher program t n body m₁ ∨
        flow = .next ∧ LoopBegins fetcher program t n condition body m₂ := by
  constructor
  · intro h
    cases h with
    | inside htest' hinside =>
      have hsame := htest.symm.trans htest'
      cases hsame
      exact .inl hinside
    | again htest' hbody' hrounds =>
      have hsame := htest.symm.trans htest'
      cases hsame
      obtain ⟨rfl, rfl⟩ := eq_of_done_of_extends
        (fun _ _ hle => extends_block (extends_execute fetcher program hle) body) hbody hbody'
      exact .inr ⟨rfl, hrounds⟩
  · rintro (hinside | ⟨rfl, hrounds⟩)
    · exact .inside htest hinside
    · exact .again htest hbody hrounds

theorem not_loopBegins (htest : test condition m = .done false m₁) :
    ¬ LoopBegins fetcher program t n condition body m := by
  intro h
  cases h with
  | inside htest' =>
    have hsame := htest.symm.trans htest'
    cases hsame
  | again htest' =>
    have hsame := htest.symm.trans htest'
    cases hsame

end Along

theorem frames_length_of_openFrame {name : String} {params : List String} {args : List Value}
    {returns : Option Kind} {m m' : Machine}
    (h : openFrame name params args returns m = .done () m') :
    m'.store.frames.length = m.store.frames.length + 1 := by
  obtain ⟨houtside, -⟩ := openFrame_eq_done h
  exact frames_length_of_outside houtside

/-- What begins inside a called function begins above the frames of the caller. -/
theorem passedOn_above (fetcher : Fetcher) (program : Program) (level : Nat) :
    PassedOn fetcher program fun _ m => level < m.store.frames.length where
  inside hs _ := hs
  entered hs := hs
  tested hs _ htest := by
    rwa [frames_length_of_outside ((makes_test _).keeps _ _ _ htest).store]
  executed _ ht hdone := by
    rwa [frames_length_of_outside (keeps_execute _ _ _ _ _ _ _ hdone).store]
  called := by
    intro s t function m m₁ c args params hs _ _ _ _ hopen _
    rw [frames_length_of_openFrame hopen]
    exact Nat.lt_succ_of_lt hs

/-- A call begins nothing but itself in the frame of the caller. -/
theorem begins_of_calls {fetcher : Fetcher} {program : Program} {s t : Statement} {m n : Machine}
    {c : Call} (hs : s.Calls c) (h : Begins fetcher program t n s m) :
    t = s ∧ n = m ∨ m.store.frames.length < n.store.frames.length := by
  cases h with
  | self => exact .inl ⟨rfl, rfl⟩
  | branch hi => simp [Calls, hi] at hs
  | loop hi => simp [Calls, hi] at hs
  | call hcalls hargs _ _ _ _ _ hopen hbody =>
    obtain rfl := (makes_resolveAll _).eq_of_done hargs
    have hlength := frames_length_of_openFrame hopen
    refine .inr ((passedOn_above fetcher program m.store.frames.length).blockBegins ?_ hbody)
    intro u _
    rw [hlength]
    exact Nat.lt_succ_self _

def Program.CallsFrom (program : Program) (caller callee : String) : Prop :=
  ∃ function s c, program.function? caller = some function ∧ s ∈ preorder function.body ∧
    s.Calls c ∧ c.name = callee

/-- The statement stands in the function at hand, which was called by way of the callers. -/
structure Situated (program : Program) (s : Statement) (m : Machine) : Prop where
  scope : ∃ function, program.function? m.scope = some function ∧ s ∈ preorder function.body
  chain : (m.scope :: m.callers).IsChain fun callee caller => program.CallsFrom caller callee
  entry : (m.scope :: m.callers).getLast? = some entryFunction
  bound : m.callers.length ≤ maxCallDepth
  frames : m.store.frames.length = m.callers.length + 1

theorem Situated.of_stays {program : Program} {s : Statement} {m m' : Machine}
    (h : Situated program s m) (hscope : m'.scope = m.scope) (hcallers : m'.callers = m.callers)
    (hframes : m'.store.frames.length = m.store.frames.length) : Situated program s m' := by
  obtain ⟨hfunction, hchain, hentry, hbound, hlength⟩ := h
  constructor
  · rwa [hscope]
  · rwa [hscope, hcallers]
  · rwa [hscope, hcallers]
  · rwa [hcallers]
  · rw [hframes, hcallers, hlength]

theorem Situated.of_kept {program : Program} {s : Statement} {m m' : Machine}
    (h : Situated program s m) (hkept : Kept m m') : Situated program s m' :=
  h.of_stays hkept.scope hkept.callers (frames_length_of_outside hkept.store)

theorem scope_of_openFrame {name : String} {params : List String} {args : List Value}
    {returns : Option Kind} {m m' : Machine}
    (h : openFrame name params args returns m = .done () m') : m'.scope = name := by
  obtain ⟨_, m₁, -, h⟩ := bind_eq_done h
  obtain ⟨_, m₂, -, h⟩ := bind_eq_done h
  obtain ⟨_, m₃, -, henter⟩ := bind_eq_done h
  cases henter
  rfl

theorem passedOn_situated (fetcher : Fetcher) (program : Program) :
    PassedOn fetcher program (Situated program) where
  inside := by
    intro s t m hs ht
    obtain ⟨function, hfunction, hmem⟩ := hs.scope
    exact { hs with
      scope := ⟨function, hfunction, mem_preorder_of_mem_children function.body hmem ht⟩ }
  entered hs := hs.of_stays rfl rfl rfl
  tested hs _ htest := hs.of_kept ((makes_test _).keeps _ _ _ htest)
  executed _ ht hdone := ht.of_kept (keeps_execute _ _ _ _ _ _ _ hdone)
  called := by
    intro s t function m m₁ c args params hs hcalls _ hfunction hdepth hopen ht
    obtain ⟨-, -, -, hcallers, -⟩ := openFrame_eq_done hopen
    have hscope := scope_of_openFrame hopen
    have hframes := frames_length_of_openFrame hopen
    change m₁.store.frames.length = m.store.frames.length + 1 at hframes
    obtain ⟨caller, hcaller, hmem⟩ := hs.scope
    have hcallers' : m₁.callers = m.scope :: m.callers := hcallers
    constructor
    · rw [hscope]
      exact ⟨function, hfunction, mem_preorder_self ht⟩
    · rw [hscope, hcallers']
      exact .cons_cons ⟨caller, s, c, hcaller, hmem, hcalls, rfl⟩ hs.chain
    · rw [hscope, hcallers', List.getLast?_cons_cons]
      exact hs.entry
    · rw [hcallers', List.length_cons]
      exact hdepth
    · rw [hframes, hs.frames, hcallers', List.length_cons]

/-- From a machine without frames and callers, a statement begins inside the function at hand. -/
theorem situated_of_runBegins {fetcher : Fetcher} {program : Program} {m n : Machine}
    {t : Statement} (hframes : m.store.frames = []) (hcallers : m.callers = [])
    (h : RunBegins fetcher program m t n) : Situated program t n := by
  refine (passedOn_situated fetcher program).runBegins ?_ h
  intro main m₁ hmain henter s hs
  cases henter
  constructor
  · exact ⟨main, hmain, mem_preorder_self hs⟩
  · simp [hcallers]
  · simp [hcallers]
  · simp [hcallers]
  · simp [hcallers, hframes, Store.pushFrame]

end ApiScript
