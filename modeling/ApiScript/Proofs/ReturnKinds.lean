import ApiScript.Proofs.CallResult
import ApiScript.Proofs.FailureReport

/-!
# Declared kinds of returned values

The run activates the entry function, and each call that enters a function activates it again. The
statements that begin in the frame of an activation are its own, however many calls they make in
between. All of them find the kind that the activation was entered with: after a call it is the one
that the function declares, but the run enters the entry function without any. So a call never gets
a value of another kind than the declared one, and only the entry function may end the run with one.
-/
namespace ApiScript

open Run Statement

section Activations

variable {fetcher : Fetcher} {program : Program} {t u : Statement} {n k : Machine}

mutual

/-- What begins inside a statement begins inside each one around it. -/
theorem Begins.trans {s : Statement} {m : Machine} (h : Begins fetcher program t n u k) :
    Begins fetcher program u k s m → Begins fetcher program t n s m
  | .self => h
  | .branch hi htest hbody => .branch hi htest (BlockBegins.trans h hbody)
  | .loop hi henter hrounds => .loop hi henter (LoopBegins.trans h hrounds)
  | .call hcalls hargs hbuiltin hsignature hfunction hcount hdepth hopen hbody =>
    .call hcalls hargs hbuiltin hsignature hfunction hcount hdepth hopen (BlockBegins.trans h hbody)

theorem BlockBegins.trans {statements : List Statement} {m : Machine}
    (h : Begins fetcher program t n u k) :
    BlockBegins fetcher program u k statements m → BlockBegins fetcher program t n statements m
  | .head hs => .head (Begins.trans h hs)
  | .tail hdone hrest => .tail hdone (BlockBegins.trans h hrest)

theorem LoopBegins.trans {condition : Condition} {body : List Statement} {m : Machine}
    (h : Begins fetcher program t n u k) : LoopBegins fetcher program u k condition body m →
      LoopBegins fetcher program t n condition body m
  | .inside htest hbody => .inside htest (BlockBegins.trans h hbody)
  | .again htest hround hrounds => .again htest hround (LoopBegins.trans h hrounds)

end

/-- A statement begins in the frame in which some statements are executed. -/
structure OwnBegins (fetcher : Fetcher) (program : Program) (t : Statement) (n : Machine)
    (statements : List Statement) (m : Machine) : Prop where
  begins : BlockBegins fetcher program t n statements m
  frame : n.store.frames.length = m.store.frames.length

def BeginsCalled (fetcher : Fetcher) (program : Program) (b : Statement → Machine → Prop)
    (t : Statement) (n : Machine) : Prop :=
  ∃ s k c function m₁, b s k ∧ s.Calls c ∧ Enters program c (begun s k) function m₁ ∧
    OwnBegins fetcher program t n function.body m₁

theorem BeginsCalled.mono {b b' : Statement → Machine → Prop} (hb : ∀ s k, b s k → b' s k)
    (h : BeginsCalled fetcher program b t n) : BeginsCalled fetcher program b' t n := by
  obtain ⟨s, k, c, function, m₁, hs, hcalled⟩ := h
  exact ⟨s, k, c, function, m₁, hb s k hs, hcalled⟩

mutual

/-- What begins inside a statement does so in the frame of the statement or in a called function. -/
theorem Begins.own_or_called {s : Statement} {m : Machine} : Begins fetcher program t n s m →
    n.store.frames.length = m.store.frames.length ∨
      BeginsCalled fetcher program (fun u k => Begins fetcher program u k s m) t n
  | .self => .inl rfl
  | .branch hi htest hbody => by
    have hentered := ((makes_test _).keeps _ _ _ htest).store
    have hframes := frames_length_of_outside hentered
    rcases hbody.own_or_called with hown | hcalled
    · exact .inl (hown.trans hframes)
    · exact .inr (hcalled.mono fun _ _ => .branch hi htest)
  | .loop hi henter hrounds => by
    have hinside := hrounds.own_or_called
    cases henter
    exact hinside.imp id (.mono fun _ _ => .loop hi rfl)
  | .call hcalls hargs hbuiltin hsignature hfunction hcount hdepth hopen hbody => by
    have hinside := hbody.own_or_called
    obtain rfl := (makes_resolveAll _).eq_of_done hargs
    have henters := Enters.intro hargs hbuiltin hsignature hfunction hcount hdepth hopen
    refine .inr ?_
    rcases hinside with hown | hcalled
    · exact ⟨s, m, _, _, _, .self, hcalls, henters, hbody, hown⟩
    · refine hcalled.mono fun _ _ => ?_
      exact .call hcalls hargs hbuiltin hsignature hfunction hcount hdepth hopen

theorem BlockBegins.own_or_called {statements : List Statement} {m : Machine} :
    BlockBegins fetcher program t n statements m →
      n.store.frames.length = m.store.frames.length ∨
        BeginsCalled fetcher program (fun u k => BlockBegins fetcher program u k statements m) t n
  | .head hs => hs.own_or_called.imp id (.mono fun _ _ => .head)
  | .tail hdone hrest => by
    have hkept := keeps_execute _ _ _ _ _ _ _ hdone
    rw [← frames_length_of_outside hkept.store]
    exact hrest.own_or_called.imp id (.mono fun _ _ => .tail hdone)

theorem LoopBegins.own_or_called {condition : Condition} {body : List Statement} {m : Machine} :
    LoopBegins fetcher program t n condition body m →
      n.store.frames.length = m.store.frames.length ∨
        BeginsCalled fetcher program
          (fun u k => LoopBegins fetcher program u k condition body m) t n
  | .inside htest hbody => by
    rw [← frames_length_of_outside ((makes_test _).keeps _ _ _ htest).store]
    exact hbody.own_or_called.imp id (.mono fun _ _ => .inside htest)
  | .again htest hround hrounds => by
    have hkept := keeps_block (keeps_execute _ _ _) _ _ _ _ hround
    rw [← frames_length_of_outside ((makes_test _).keeps _ _ _ htest).store,
      ← frames_length_of_outside hkept.store]
    exact hrounds.own_or_called.imp id (.mono fun _ _ => .again htest hround)

end

/-- The kind that a function was entered with, and its name, stay with it. -/
theorem passedOn_own (fetcher : Fetcher) (program : Program) (level : Nat) (returns : Option Kind)
    (name : String) :
    PassedOn fetcher program fun _ m => level < m.store.frames.length ∨
      m.store.frames.length = level ∧ m.returns = returns ∧ m.scope = name := by
  have hkeeps {m m' : Machine} (h : Kept m m') :
      (level < m.store.frames.length ∨
        m.store.frames.length = level ∧ m.returns = returns ∧ m.scope = name) →
      (level < m'.store.frames.length ∨
        m'.store.frames.length = level ∧ m'.returns = returns ∧ m'.scope = name) := by
    rw [frames_length_of_outside h.store, h.returns, h.scope]
    exact id
  constructor
  case inside => exact fun hs _ => hs
  case entered => exact fun hs => hs
  case tested => exact fun hs _ htest => hkeeps ((makes_test _).keeps _ _ _ htest) hs
  case executed => exact fun _ ht hdone => hkeeps (keeps_execute _ _ _ _ _ _ _ hdone) ht
  case called =>
    -- the frame of a called function lies above the level of its caller
    intro s t function m m₁ c args params hs _ _ _ _ hopen _
    have hframes := frames_length_of_openFrame hopen
    have hbegun : (begun s m).store.frames.length = m.store.frames.length := rfl
    left
    omega

theorem OwnBegins.returns {statements : List Statement} {m : Machine}
    (h : OwnBegins fetcher program t n statements m) :
    n.returns = m.returns ∧ n.scope = m.scope := by
  have hpassed := (passedOn_own fetcher program m.store.frames.length m.returns m.scope).blockBegins
    (fun _ _ => .inr ⟨rfl, rfl, rfl⟩) h.begins
  rcases hpassed with habove | ⟨-, hkept⟩
  · rw [h.frame] at habove
    exact absurd habove (Nat.lt_irrefl _)
  · exact hkept

/-- The run activates the entry function, and a call in the run the function that it enters. -/
inductive Activates (fetcher : Fetcher) (program : Program) (m : Machine) :
    (called : Bool) → String → Statement → Machine → Prop
  | entry {main : Statement} {m₁ : Machine} (hmain : program.function? entryFunction = some main)
    (henter : enterMain program m = .done () m₁) :
    Activates fetcher program m false entryFunction main m₁
  | call {s function : Statement} {c : Call} {k m₁ : Machine}
    (hbegins : RunBegins fetcher program m s k) (hcalls : s.Calls c)
    (henters : Enters program c (begun s k) function m₁) :
    Activates fetcher program m true c.name function m₁

/-- What begins in a run is what the activations of the run begin. -/
theorem runBegins_iff {m : Machine} :
    RunBegins fetcher program m t n ↔ ∃ called name function m₁,
      Activates fetcher program m called name function m₁ ∧
        OwnBegins fetcher program t n function.body m₁ := by
  constructor
  · rintro ⟨main, m₁, hmain, henter, hbody⟩
    rcases hbody.own_or_called with hown | ⟨s, k, c, function, m₂, hs, hcalls, henters, hown⟩
    · exact ⟨_, _, main, m₁, .entry hmain henter, hbody, hown⟩
    · exact ⟨_, _, function, m₂, .call ⟨main, m₁, hmain, henter, hs⟩ hcalls henters, hown⟩
  · rintro ⟨called, name, function, m₁, hactivates, hown⟩
    cases hactivates with
    | entry hmain henter => exact ⟨function, m₁, hmain, henter, hown.begins⟩
    | call hbegins hcalls henters =>
      obtain ⟨main, m₂, hmain, henter, hbody⟩ := hbegins
      obtain ⟨hargs, hbuiltin, hsignature, hfunction, hcount, hdepth, hopen⟩ := henters
      have hinside := Begins.call hcalls hargs hbuiltin hsignature hfunction hcount hdepth hopen
        hown.begins
      exact ⟨main, m₂, hmain, henter, BlockBegins.trans hinside hbody⟩

/-- The kind that is checked in an activation: the declared one, if it was called. -/
theorem Activates.returns {m m₁ : Machine} {called : Bool} {name : String} {function : Statement}
    (h : Activates fetcher program m called name function m₁) :
    m₁.returns = (if called then returnsOf function else none) ∧ m₁.scope = name := by
  cases h with
  | entry _ henter =>
    cases henter
    exact ⟨rfl, rfl⟩
  | call _ _ henters =>
    obtain ⟨-, -, -, -, -, -, hopen⟩ := henters
    exact ⟨(returned_of_openFrame hopen).2, scope_of_openFrame hopen⟩

end Activations

section Checks

variable {fetcher : Fetcher} {program : Program} {m : Machine}

inductive ReturnsIn (fetcher : Fetcher) (program : Program) (m : Machine) (called : Bool)
    (name : String) (declared : Option Kind) (value : Value) (t : Statement) (n : Machine) : Prop
  | intro {function : Statement} {m₁ : Machine} {operand : Operand}
    (hactivates : Activates fetcher program m called name function m₁)
    (hown : OwnBegins fetcher program t n function.body m₁)
    (hdeclared : declared = returnsOf function) (ht : t.instruction = .leave (some operand))
    (hvalue : resolve operand (begun t n) = .done value (begun t n))

theorem pushReturned_of_kind {value : Value} {n : Machine}
    (h : ∀ kind, n.returns = some kind → value.kind = kind) :
    pushReturned value n = .done () { n with returned := value :: n.returned } := by
  rw [pushReturned, bind_apply, machine]
  refine congrFun (?_ : _ = Run.modify fun m => { m with returned := value :: m.returned }) n
  split
  · next kind hreturns => exact if_pos (h kind hreturns)
  · rfl

theorem pushReturned_of_other {value : Value} {n : Machine} {kind : Kind}
    (hreturns : n.returns = some kind) (hkind : value.kind ≠ kind) :
    pushReturned value n = .failed ⟨.returnKind n.scope kind, none⟩ n := by
  rw [pushReturned, bind_apply, machine]
  dsimp only
  rw [hreturns]
  dsimp only
  rw [if_neg hkind]
  rfl

theorem execute_leave {t : Statement} {n : Machine} {operand : Operand} {value : Value} {fuel : Nat}
    (ht : t.instruction = .leave (some operand))
    (hvalue : resolve operand (begun t n) = .done value (begun t n)) :
    execute fetcher program (fuel + 1) t n =
      locating t.location (do pushReturned value; pure .leave) (begun t n) := by
  rw [execute_succ, perform, ht]
  have hleave : leave (some operand) (begun t n) = pushReturned value (begun t n) :=
    bind_of_done hvalue
  dsimp only
  rw [locating, locating, bind_apply, bind_apply, hleave]

/-- Every value that a run returns is returned in one of its activations. In one that was entered by
a call, a value of another kind than the declared one fails and so does the run, with the name of
the function; any other value is handed over. In the activation of the entry function by the run
itself every value is handed over, whatever kind the function declares. -/
theorem declared_kinds_checked_in_calls (fetcher : Fetcher) (program : Program) (m : Machine) :
    (∀ t n operand value, RunBegins fetcher program m t n → t.instruction = .leave (some operand) →
      resolve operand (begun t n) = .done value (begun t n) →
        ∃ called name declared, ReturnsIn fetcher program m called name declared value t n) ∧
    ∀ called name declared value t n, ReturnsIn fetcher program m called name declared value t n →
      (∀ kind, called = true → declared = some kind → value.kind ≠ kind →
        (∀ fuel, execute fetcher program (fuel + 1) t n =
          .failed ⟨.returnKind name kind, some t.location⟩ (begun t n)) ∧
        ∃ fuel, program.run fetcher fuel m =
          .failed ⟨.returnKind name kind, some t.location⟩ (begun t n)) ∧
      ((called = false ∨ ∀ kind, declared = some kind → value.kind = kind) →
        ∀ fuel, execute fetcher program (fuel + 1) t n =
          .done .leave { begun t n with returned := value :: n.returned }) := by
  constructor
  · intro t n operand value hbegins ht hvalue
    obtain ⟨called, name, function, m₁, hactivates, hown⟩ := runBegins_iff.1 hbegins
    exact ⟨called, name, _, .intro hactivates hown rfl ht hvalue⟩
  · rintro called name _ value t n ⟨hactivates, hown, rfl, ht, hvalue⟩
    obtain ⟨hreturns, hscope⟩ := hown.returns
    obtain ⟨hchecked, hname⟩ := hactivates.returns
    rw [hchecked] at hreturns
    rw [hname] at hscope
    constructor
    · rintro kind rfl hdeclared hkind
      have hchecks : (begun t n).returns = some kind := hreturns.trans hdeclared
      have hfails (fuel : Nat) : execute fetcher program (fuel + 1) t n =
          .failed ⟨.returnKind name kind, some t.location⟩ (begun t n) := by
        have hpush := pushReturned_of_other hchecks hkind
        rw [execute_leave ht hvalue, locating, bind_of_failed hpush, ← hscope]
        rfl
      have hbegins := runBegins_iff.2 ⟨_, _, _, _, hactivates, hown⟩
      exact ⟨hfails, hbegins.run_fails (fun _ => rfl) ⟨1, hfails 0⟩⟩
    · intro hkind fuel
      have hchecks (kind : Kind) (h : (begun t n).returns = some kind) : value.kind = kind := by
        have hsome := hreturns.symm.trans h
        rcases hkind with rfl | hkind
        · cases hsome
        · cases called with
          | false => cases hsome
          | true => exact hkind kind hsome
      rw [execute_leave ht hvalue, locating, bind_of_done (pushReturned_of_kind hchecks)]
      rfl

end Checks

def mixingProgram : Program :=
  let line (number : Nat) : Location := ⟨number, "mix.neb"⟩
  ⟨[⟨.define ⟨"Main", [], some .num⟩, line 1,
      [.leaf (.callInto "x" ⟨"count", []⟩) (line 2)], []⟩,
    ⟨.define ⟨"count", [], some .num⟩, line 4,
      [.leaf (.callInto "text" ⟨"label", []⟩) (line 5), .leaf (.call ⟨"note", []⟩) (line 6),
        .leaf (.leave (some (.name "text"))) (line 7)], []⟩,
    ⟨.define ⟨"label", [], some .str⟩, line 9,
      [.leaf (.leave (some (.literal "three"))) (line 10)], []⟩,
    ⟨.define ⟨"note", [], none⟩, line 12, [.leaf (.leave (some (.number "3"))) (line 13)], []⟩]⟩

/-- A function fails for the kind of its value after functions of another kind and of none have
returned to it. -/
theorem mixingProgram_fails_in_count :
    let m : Machine :=
      { store := { signatures := .ofList [("count", []), ("label", []), ("note", [])] } }
    let t : Statement := .leaf (.leave (some (.name "text"))) ⟨7, "mix.neb"⟩
    ∃ n, ReturnsIn (fun _ _ => {}) mixingProgram m true "count" (some .num) (.string "three") t n ∧
      ∃ fuel, mixingProgram.run (fun _ _ => {}) fuel m =
        .failed ⟨.returnKind "count" .num, some ⟨7, "mix.neb"⟩⟩ (begun t n) := by
  intro m t
  let fetcher : Fetcher := fun _ _ => {}
  let s : Statement := .leaf (.callInto "x" ⟨"count", []⟩) ⟨2, "mix.neb"⟩
  let function : Statement := (mixingProgram.function? "count").get rfl
  let k := (enterMain mixingProgram m).machine
  let m₁ := (openFrame "count" [] [] (some .num) (begun s k)).machine
  let n := (block (execute fetcher mixingProgram 9) (function.body.take 2) m₁).machine
  have hbegins : RunBegins fetcher mixingProgram m s k := ⟨_, k, rfl, rfl, .head .self⟩
  have henters : Enters mixingProgram ⟨"count", []⟩ (begun s k) function m₁ :=
    .intro rfl rfl rfl rfl rfl (by decide) rfl
  have hbefore : (block (execute fetcher mixingProgram 9) (function.body.take 2) m₁).value? =
      some .next := by decide +kernel
  have hframes : n.store.frames.length = m₁.store.frames.length := by decide +kernel
  have hvalue : (resolve (.name "text") (begun t n)).value? = some (.string "three") := by
    decide +kernel
  have hown : OwnBegins fetcher mixingProgram t n function.body m₁ := by
    have hlast : BlockBegins fetcher mixingProgram t n [t] n := .head .self
    exact ⟨.after (Outcome.eq_done_of_value? hbefore) hlast, hframes⟩
  have hresolved : resolve (.name "text") (begun t n) = .done (.string "three") (begun t n) := by
    have hdone := Outcome.eq_done_of_value? hvalue
    rwa [(makes_resolve _).eq_of_done hdone] at hdone
  have hactivates : Activates fetcher mixingProgram m true "count" function m₁ :=
    .call hbegins (.inr ⟨"x", rfl⟩) henters
  have hreturns : ReturnsIn fetcher mixingProgram m true "count" (some .num) (.string "three") t
    n := .intro hactivates hown rfl rfl hresolved
  obtain ⟨-, hchecks⟩ := declared_kinds_checked_in_calls fetcher mixingProgram m
  obtain ⟨hfails, -⟩ := hchecks _ _ _ _ _ _ hreturns
  exact ⟨n, hreturns, (hfails .num rfl rfl (by decide)).2⟩

/-- The entry function declares a kind and returns a value of another one, and the run ends well. -/
theorem entry_function_returns_other_kind :
    let assembled := ({} : Machine).assemble [("main.neb", "def Main(): num\nreturn 'three'\nend")]
    let program := assembled.1.toOption.getD ⟨[]⟩
    let last := program.run (fun _ _ => {}) 9 assembled.2
    (program.function? entryFunction).map returnsOf = some (some .num) ∧ last.isDone = true ∧
      last.machine.returned = [.string "three"] := by
  decide +kernel

end ApiScript
