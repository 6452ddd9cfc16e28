import ApiScript.Proofs.Reachability

/-!
# Where a failing run slipped

When a run fails, one statement that began on the way slipped: it failed by itself, and every block,
loop and call around it only passed the fault on. So the state in which the run fails is the one in
which that statement left it, in the same function and with the same callers.
-/
namespace ApiScript

open Run

def Statement.Calls (s : Statement) (c : Call) : Prop :=
  s.instruction = .call c ∨ ∃ target, s.instruction = .callInto target c

def Program.refusal? (program : Program) (m : Machine) (name : String) (count : Nat) :
    Option Cause :=
  match m.store.signature name with
  | .error cause => some cause
  | .ok params =>
    match program.function? name with
    | none => some (.undeclaredFunction name)
    | some _ =>
      if params.length ≠ count then some (.argumentCount name)
      else if maxCallDepth ≤ m.callers.length then some (.callDepth maxCallDepth)
      else none

def Outcome.cause? {α : Type} : Outcome α → Option Cause
  | .failed fault _ => some fault.cause
  | _ => none

theorem Outcome.exists_of_cause? {α : Type} {o : Outcome α} {cause : Cause}
    (h : o.cause? = some cause) : ∃ fault m, o = .failed fault m ∧ fault.cause = cause := by
  cases o with
  | failed fault m => exact ⟨fault, m, rfl, Option.some.inj h⟩
  | done a m => cases h
  | unfinished m => cases h

def Outcome.value? {α : Type} : Outcome α → Option α
  | .done a _ => some a
  | _ => none

theorem Outcome.eq_done_of_value? {α : Type} {o : Outcome α} {a : α} (h : o.value? = some a) :
    o = .done a o.machine := by
  cases o with
  | done b m =>
    cases h
    rfl
  | failed fault m => cases h
  | unfinished m => cases h

namespace Run

variable {α β : Type}

def begun (s : Statement) (m : Machine) : Machine :=
  { m with location := s.location, executed := m.executed + 1 }

theorem execute_succ (fetcher : Fetcher) (program : Program) (fuel : Nat) (s : Statement)
    (m : Machine) : execute fetcher program (fuel + 1) s m =
      locating s.location (perform fetcher program (execute fetcher program fuel) fuel s)
        (begun s m) := rfl

theorem bind_of_failed {x : Run α} {f : α → Run β} {m m' : Machine} {fault : Fault}
    (h : x m = .failed fault m') : (x >>= f) m = .failed fault m' := by
  rw [bind_apply, h]

theorem bind_of_done {x : Run α} {f : α → Run β} {m m₁ : Machine} {a : α}
    (h : x m = .done a m₁) : (x >>= f) m = f a m₁ := by
  rw [bind_apply, h]

theorem bind_eq_failed {x : Run α} {f : α → Run β} {m m' : Machine} {fault : Fault}
    (h : (x >>= f) m = .failed fault m') :
    x m = .failed fault m' ∨ ∃ a m₁, x m = .done a m₁ ∧ f a m₁ = .failed fault m' := by
  rw [bind_apply] at h
  cases hx : x m with
  | done a m₁ =>
    rw [hx] at h
    exact .inr ⟨a, m₁, rfl, h⟩
  | failed fault₁ m₁ =>
    rw [hx] at h
    cases h
    exact .inl rfl
  | unfinished m₁ =>
    rw [hx] at h
    cases h

def Succeeds (x : Run α) : Prop := ∀ m, ∃ a m', x m = .done a m'

namespace Succeeds

theorem pure (a : α) : Succeeds (Pure.pure a : Run α) := fun m => ⟨a, m, rfl⟩

theorem machine : Succeeds Run.machine := fun m => ⟨m, m, rfl⟩

theorem modify (f : Machine → Machine) : Succeeds (Run.modify f) := fun m => ⟨(), f m, rfl⟩

theorem bind {x : Run α} {f : α → Run β} (hx : Succeeds x) (hf : ∀ a, Succeeds (f a)) :
    Succeeds (x >>= f) := by
  intro m
  obtain ⟨a, m₁, ha⟩ := hx m
  obtain ⟨b, m₂, hb⟩ := hf a m₁
  exact ⟨b, m₂, by rw [bind_apply, ha]; exact hb⟩

theorem ne_failed {x : Run α} (hx : Succeeds x) {m m' : Machine} {fault : Fault} :
    x m ≠ .failed fault m' := by
  obtain ⟨a, m₁, ha⟩ := hx m
  rw [ha]
  exact nofun

end Succeeds

theorem succeeds_warnUnreachable (rest : List Statement) : Succeeds (warnUnreachable rest) := by
  cases rest with
  | nil => exact .pure _
  | cons next rest =>
    exact (Succeeds.modify _).bind fun _ => Succeeds.machine.bind fun _ => .modify _

theorem succeeds_warnUnfetched (ids : List String) : Succeeds (warnUnfetched ids) := by
  induction ids with
  | nil => exact .pure _
  | cons id rest ih => exact (Succeeds.modify _).bind fun _ => ih

theorem succeeds_emitAll (lines : List String) : Succeeds (emitAll lines) := by
  induction lines with
  | nil => exact .pure _
  | cons line rest ih => exact (Succeeds.modify _).bind fun _ => ih

theorem succeeds_dumpStore : Succeeds dumpStore := by
  refine Succeeds.machine.bind fun m => ?_
  split
  · exact succeeds_emitAll _
  · exact .pure _

/-- Parameters are bound in a frame without constants, so binding them succeeds. -/
theorem exists_bindParams (depth : Nat) (bindings : List (String × Value)) {m : Machine}
    {frame : Frame} {outer : List Frame} (hframes : m.store.frames = frame :: outer)
    (hframe : ∀ name symbol, frame.get? name = some symbol → symbol.constant = false) :
    ∃ m', bindParams depth bindings m = .done () m' := by
  induction bindings generalizing m frame with
  | nil => exact ⟨m, rfl⟩
  | cons binding rest ih =>
    obtain ⟨param, value⟩ := binding
    -- the frame that holds the parameter has no constants either
    have hinserted (d : Nat) (name : String) (symbol : Symbol)
        (hget : (frame.insert param ⟨value, d, false, none⟩).get? name = some symbol) :
        symbol.constant = false := by
      rw [Table.get?_insert] at hget
      split at hget
      · cases hget
        rfl
      · exact hframe name symbol hget
    have hdeclare : ∃ d store, m.store.declare param value depth false none = .ok store ∧
        store.frames = frame.insert param ⟨value, d, false, none⟩ :: outer := by
      unfold Store.declare
      rw [hframes]
      dsimp only
      cases hget : frame.get? param with
      | none => exact ⟨depth, _, rfl, rfl⟩
      | some old =>
        simp only [hframe param old hget]
        exact ⟨old.depth, _, rfl, rfl⟩
    obtain ⟨d, store, hstore, hframes'⟩ := hdeclare
    obtain ⟨m', hm'⟩ := @ih { m with store } _ hframes' (hinserted d)
    refine ⟨m', ?_⟩
    rw [bindParams, bind_apply, onStore, hstore]
    exact hm'

theorem succeeds_openFrame (name : String) (params : List String) (args : List Value)
    (returns : Option Kind) : Succeeds (openFrame name params args returns) := by
  intro m
  obtain ⟨m₁, hm₁⟩ := @exists_bindParams m.depth (params.zip args)
    { m with store := m.store.pushFrame } ∅ m.store.frames rfl nofun
  refine ⟨(), { m₁ with scope := name, callers := m₁.scope :: m₁.callers, returns }, ?_⟩
  rw [openFrame, bind_apply, machine]
  dsimp only
  rw [bind_apply, modify]
  dsimp only
  rw [bind_apply, hm₁]
  rfl

theorem frames_length_of_outside {s t : Store} (h : t.outside = s.outside) :
    t.frames.length = s.frames.length := by
  have hframes := congrArg (fun u : Store => u.frames.length) h
  simpa [Store.outside] using hframes

theorem exists_popFrame {s : Store} (h : 0 < s.frames.length) : ∃ t, s.popFrame = .ok t := by
  unfold Store.popFrame
  split
  · next hframes => simp [hframes] at h
  · exact ⟨_, rfl⟩

variable {fetcher : Fetcher} {program : Program}

/-- A function is refused, or the call goes on in a frame of its own. -/
theorem callFunction_cases (program : Program) (name : String) (args : List Value) (m : Machine) :
    (∃ cause, program.refusal? m name args.length = some cause ∧
      ∀ exec, callFunction program exec name args m = .failed ⟨cause, none⟩ m) ∨
    program.refusal? m name args.length = none ∧
      ∃ params function, m.store.signature name = .ok params ∧
        program.function? name = some function ∧ params.length = args.length ∧
        m.callers.length < maxCallDepth ∧
        ∀ exec, callFunction program exec name args m =
          activate exec name params args (returnsOf function) function.body m := by
  unfold Program.refusal? callFunction
  simp only [bind_apply, machine]
  cases hsignature : m.store.signature name with
  | error cause => exact .inl ⟨cause, rfl, fun exec => rfl⟩
  | ok params =>
    simp only [lift, pure_apply]
    cases hfunction : program.function? name with
    | none => exact .inl ⟨_, rfl, fun exec => rfl⟩
    | some function =>
      dsimp only
      by_cases hcount : params.length = args.length
      · by_cases hdepth : maxCallDepth ≤ m.callers.length
        · simp only [hcount, hdepth, ne_eq, not_true_eq_false, if_false, if_true]
          exact .inl ⟨_, rfl, fun exec => rfl⟩
        · simp only [hcount, hdepth, ne_eq, not_true_eq_false, if_false]
          exact .inr ⟨trivial, params, function, rfl, rfl, hcount, by omega, fun exec => rfl⟩
      · simp only [hcount, ne_eq, not_false_eq_true, if_true]
        exact .inl ⟨_, rfl, fun exec => rfl⟩

/-- A call enters a function of the program, and the body of the function begins in a state. -/
inductive Enters (program : Program) (c : Call) (m : Machine) (function : Statement)
    (m₁ : Machine) : Prop
  | intro {args : List Value} {params : List String} (hargs : resolveAll c.args m = .done args m)
    (hbuiltin : m.isBuiltin c.name = false) (hsignature : m.store.signature c.name = .ok params)
    (hfunction : program.function? c.name = some function)
    (hcount : params.length = args.length) (hdepth : m.callers.length < maxCallDepth)
    (hopen : openFrame c.name params args (returnsOf function) m = .done () m₁)

/-- Once a function is entered, the call executes its body and goes back. -/
theorem Enters.call_eq {c : Call} {m m₁ : Machine} {function : Statement}
    (h : Enters program c m function m₁) (exec : Statement → Run Flow) :
    call program exec c m = (do
      let _ ← block exec function.body
      leaveFunction m.returns
      onStore Store.popFrame) m₁ := by
  obtain @⟨args, params, hargs, hbuiltin, hsignature, hfunction, hcount, hdepth, hopen⟩ := h
  have hget : m.builtins.get? c.name = none := by
    simpa [Machine.isBuiltin, Table.contains] using hbuiltin
  have hmachine : machine m = .done m m := rfl
  rw [call, bind_of_done hargs, bind_of_done hmachine, hget]
  dsimp only
  rcases callFunction_cases program c.name args m with
    ⟨cause, hrefused, -⟩ | ⟨-, params', function', hsignature', hfunction', -, -, hcall⟩
  · simp [Program.refusal?, hsignature, hfunction, hcount, Nat.not_le.2 hdepth] at hrefused
  · rw [hsignature] at hsignature'
    rw [hfunction] at hfunction'
    cases hsignature'
    cases hfunction'
    rw [hcall, activate, bind_of_done hmachine, bind_of_done hopen]

end Run

/-- The states of a loop before the test of a round. -/
inductive Rounds (fetcher : Fetcher) (program : Program) (condition : Condition)
    (body : List Statement) : Machine → Machine → Prop
  | refl (m : Machine) : Rounds fetcher program condition body m m
  | round {m m₁ m₂ m₃ : Machine} {fuel : Nat} :
    test condition m = .done true m₁ → block (execute fetcher program fuel) body m₁ = .done .next m₂ →
      Rounds fetcher program condition body m₂ m₃ → Rounds fetcher program condition body m m₃

theorem Rounds.kept {fetcher : Fetcher} {program : Program} {condition : Condition}
    {body : List Statement} {m m' : Machine} (h : Rounds fetcher program condition body m m') :
    Kept m m' := by
  induction h with
  | refl m => exact .refl m
  | round htest hbody _ ih =>
    have htested := (makes_test _).keeps _ _ _ htest
    have hran := keeps_block (keeps_execute fetcher program _) _ _ _ _ hbody
    exact htested.trans (hran.trans ih)

/-- The ways in which a statement that is performed in a state fails by itself. -/
inductive Slip (fetcher : Fetcher) (program : Program) (s : Statement) (m : Machine) :
    Fault → Machine → Prop
  | atomic {fault : Fault} {m' : Machine} {fuel : Nat} :
    s.instruction.isAtomic = true →
      perform fetcher program (execute fetcher program fuel) fuel s m = .failed fault m' →
      Slip fetcher program s m fault m'
  | test {condition : Condition} {fault : Fault} {m₁ m' : Machine} :
    s.instruction = .branch condition ∨ s.instruction = .loop condition →
      Rounds fetcher program condition s.body { m with depth := m.depth + 1 } m₁ →
      test condition m₁ = .failed fault m' → Slip fetcher program s m fault m'
  | args {c : Call} {fault : Fault} {m' : Machine} :
    s.Calls c → resolveAll c.args m = .failed fault m' → Slip fetcher program s m fault m'
  | builtin {c : Call} {args : List Value} {builtin : Builtin} {fault : Fault} {m' : Machine} :
    s.Calls c → resolveAll c.args m = .done args m → m.builtins.get? c.name = some builtin →
      builtin.call args m = .failed fault m' → Slip fetcher program s m fault m'
  | refused {c : Call} {args : List Value} {cause : Cause} :
    s.Calls c → resolveAll c.args m = .done args m → m.builtins.get? c.name = none →
      program.refusal? m c.name args.length = some cause →
      Slip fetcher program s m ⟨cause, none⟩ m
  | void {target : String} {c : Call} {after : Machine} {fuel : Nat} :
    s.instruction = .callInto target c →
      call program (execute fetcher program fuel) c m = .done () after →
      Slip fetcher program s m ⟨.voidResult c.name, none⟩ after
  | result {target : String} {c : Call} {after m' : Machine} {value : Value} {fuel : Nat}
    {fault : Fault} :
    s.instruction = .callInto target c →
      call program (execute fetcher program fuel) c m = .done () after →
      value ∈ after.returned →
      declare target value false none { after with returned := m.returned } = .failed fault m' →
      Slip fetcher program s m fault m'

def Raised (fetcher : Fetcher) (program : Program) (t : Statement) (n : Machine) (fault : Fault)
    (m' : Machine) : Prop :=
  ∃ fuel raised,
    perform fetcher program (execute fetcher program fuel) fuel t (begun t n) = .failed raised m' ∧
      Slip fetcher program t (begun t n) raised m' ∧ fault = raised.locate t.location

theorem Raised.locate {fetcher : Fetcher} {program : Program} {t : Statement} {n m' : Machine}
    {fault : Fault} (h : Raised fetcher program t n fault m') (l : Location) :
    fault.locate l = fault := by
  obtain ⟨fuel, raised, -, -, rfl⟩ := h
  rfl

namespace Run

variable {fetcher : Fetcher} {program : Program} {fuel : Nat} {m m' : Machine} {fault : Fault}

/-- With this fuel, a statement that fails does so because of one that begins meanwhile. -/
def Blames (fetcher : Fetcher) (program : Program) (fuel : Nat) : Prop :=
  ∀ s m fault m', execute fetcher program fuel s m = .failed fault m' →
    ∃ t n, Begins fetcher program t n s m ∧ Raised fetcher program t n fault m'

theorem block_eq_failed (hexec : Blames fetcher program fuel) {statements : List Statement}
    (h : block (execute fetcher program fuel) statements m = .failed fault m') :
    ∃ t n, BlockBegins fetcher program t n statements m ∧ Raised fetcher program t n fault m' := by
  induction statements generalizing m with
  | nil => cases h
  | cons s rest ih =>
    rcases bind_eq_failed h with hs | ⟨flow, m₁, hs, hrest⟩
    · obtain ⟨t, n, hbegins, hraised⟩ := hexec s m fault m' hs
      exact ⟨t, n, .head hbegins, hraised⟩
    · cases flow with
      | next =>
        obtain ⟨t, n, hbegins, hraised⟩ := ih hrest
        exact ⟨t, n, .tail hs hbegins, hraised⟩
      | leave =>
        have hwarn := (succeeds_warnUnreachable rest).bind fun _ => Succeeds.pure Flow.leave
        exact absurd hrest hwarn.ne_failed

theorem repeatWhile_eq_failed (hexec : Blames fetcher program fuel) {condition : Condition}
    {body : List Statement} {rounds : Nat}
    (h : repeatWhile (test condition) (block (execute fetcher program fuel) body) rounds m =
      .failed fault m') :
    (∃ m₁, Rounds fetcher program condition body m m₁ ∧ test condition m₁ = .failed fault m') ∨
      ∃ t n, LoopBegins fetcher program t n condition body m ∧
        Raised fetcher program t n fault m' := by
  induction rounds generalizing m with
  | zero => cases h
  | succ rounds ih =>
    rcases bind_eq_failed h with htest | ⟨again, m₁, htest, h⟩
    · exact .inl ⟨m, .refl m, htest⟩
    · cases again with
      | false => cases h
      | true =>
        rcases bind_eq_failed h with hbody | ⟨flow, m₂, hbody, h⟩
        · obtain ⟨t, n, hbegins, hraised⟩ := block_eq_failed hexec hbody
          exact .inr ⟨t, n, .inside htest hbegins, hraised⟩
        · cases flow with
          | next =>
            rcases ih h with ⟨m₃, hrounds, htest'⟩ | ⟨t, n, hbegins, hraised⟩
            · exact .inl ⟨m₃, .round htest hbody hrounds, htest'⟩
            · exact .inr ⟨t, n, .again htest hbody hbegins, hraised⟩
          | leave => cases h

theorem nested_eq_failed {x : Run Flow} (h : nested x m = .failed fault m') :
    x { m with depth := m.depth + 1 } = .failed fault m' := by
  rcases bind_eq_failed h with henter | ⟨_, m₁, henter, h⟩
  · cases henter
  · cases henter
    rcases bind_eq_failed h with hx | ⟨flow, m₂, hx, h⟩
    · exact hx
    · have hleave : Succeeds (leaveBlock >>= fun _ => pure flow) :=
        (Succeeds.modify _).bind fun _ => .pure flow
      exact absurd h hleave.ne_failed

theorem activate_eq_failed (hexec : Blames fetcher program fuel) {name : String}
    {params : List String} {args : List Value} {returns : Option Kind} {body : List Statement}
    (h : activate (execute fetcher program fuel) name params args returns body m =
      .failed fault m') :
    ∃ m₁, openFrame name params args returns m = .done () m₁ ∧
      ∃ t n, BlockBegins fetcher program t n body m₁ ∧ Raised fetcher program t n fault m' := by
  rcases bind_eq_failed h with hm | ⟨caller, m₀, hm, h⟩
  · cases hm
  cases hm
  rcases bind_eq_failed h with hopen | ⟨_, m₁, hopen, h⟩
  · exact absurd hopen (succeeds_openFrame _ _ _ _).ne_failed
  refine ⟨m₁, hopen, ?_⟩
  rcases bind_eq_failed h with hbody | ⟨flow, m₂, hbody, h⟩
  · exact block_eq_failed hexec hbody
  -- the body kept its frame, so there is one to drop
  exfalso
  have hran := keeps_block (keeps_execute fetcher program fuel) body _ _ _ hbody
  obtain ⟨houtside, -, -, hcallers, -⟩ := openFrame_eq_done hopen
  have hlength := frames_length_of_outside (hran.store.trans houtside)
  obtain ⟨store, hstore⟩ : ∃ store, m₂.store.popFrame = .ok store := by
    apply exists_popFrame
    rw [hlength]
    exact Nat.succ_pos _
  rw [bind_apply, leaveFunction_of_callers (hran.callers.trans hcallers)] at h
  simp only [onStore, hstore] at h
  cases h

/-- A call fails because of the calling statement, or of one in the function that it enters. -/
theorem call_eq_failed (hexec : Blames fetcher program fuel) {s : Statement} {c : Call}
    (hs : s.Calls c) (h : call program (execute fetcher program fuel) c (begun s m) =
      .failed fault m') :
    Slip fetcher program s (begun s m) fault m' ∨
      ∃ t n, Begins fetcher program t n s m ∧ Raised fetcher program t n fault m' := by
  rcases bind_eq_failed h with hargs | ⟨args, m₁, hargs, h⟩
  · exact .inl (.args hs hargs)
  have hm₁ : m₁ = begun s m := (makes_resolveAll c.args).eq_of_done hargs
  subst hm₁
  rcases bind_eq_failed h with hm | ⟨m₂, m₃, hm, h⟩
  · cases hm
  cases hm
  cases hbuiltin : (begun s m).builtins.get? c.name with
  | some builtin =>
    rw [hbuiltin] at h
    rcases bind_eq_failed h with hcall | ⟨result, m₂, -, h⟩
    · exact .inl (.builtin hs hargs hbuiltin hcall)
    · cases result with
      | none => cases h
      | some value => cases h
  | none =>
    rw [hbuiltin] at h
    dsimp only at h
    rcases callFunction_cases program c.name args (begun s m) with
      ⟨cause, hrefused, hfailed⟩ |
        ⟨-, params, function, hsignature, hfunction, hcount, hdepth, hactivate⟩
    · rw [hfailed] at h
      cases h
      exact .inl (.refused hs hargs hbuiltin hrefused)
    · rw [hactivate] at h
      obtain ⟨m₁, hopen, t, n, hbegins, hraised⟩ := activate_eq_failed hexec h
      have hnot : (begun s m).isBuiltin c.name = false := by
        simp [Machine.isBuiltin, Table.contains, hbuiltin]
      exact .inr ⟨t, n, .call hs hargs hnot hsignature hfunction hcount hdepth hopen hbegins,
        hraised⟩

theorem callInto_eq_failed {s : Statement} {target : String} {c : Call}
    (hs : s.instruction = .callInto target c)
    (h : callInto program (execute fetcher program fuel) target c m = .failed fault m') :
    call program (execute fetcher program fuel) c m = .failed fault m' ∨
      Slip fetcher program s m fault m' := by
  rcases bind_eq_failed h with hm | ⟨before, m₀, hm, h⟩
  · cases hm
  cases hm
  rcases bind_eq_failed h with hcall | ⟨_, after, hcall, h⟩
  · exact .inl hcall
  refine .inr ?_
  rcases bind_eq_failed h with hm | ⟨after', m₁, hm, h⟩
  · cases hm
  cases hm
  cases hreturned : after.returned with
  | nil =>
    rw [hreturned] at h
    cases h
    exact .void hs hcall
  | cons value rest =>
    rw [hreturned] at h
    dsimp only at h
    split at h
    · cases h
      exact .void hs hcall
    · have hkept := keeps_call (keeps_execute fetcher program fuel) program c m () after hcall
      rw [bind_apply, truncateReturned_of_suffix hkept.returned] at h
      exact .result hs hcall (hreturned ▸ List.mem_cons_self) h

/-- A statement that is performed fails by itself or because of one inside it. -/
theorem perform_eq_failed (hexec : Blames fetcher program fuel) {s : Statement}
    (h : perform fetcher program (execute fetcher program fuel) fuel s (begun s m) =
      .failed fault m') :
    Slip fetcher program s (begun s m) fault m' ∨
      ∃ t n, Begins fetcher program t n s m ∧ Raised fetcher program t n fault m' := by
  by_cases hatomic : s.instruction.isAtomic = true
  · exact .inl (.atomic hatomic h)
  have hnext {x : Run Unit} {m : Machine} (h : andNext x m = .failed fault m') :
      x m = .failed fault m' := by
    rcases bind_eq_failed h with hx | ⟨_, m₁, -, hpure⟩
    · exact hx
    · cases hpure
  unfold perform at h
  cases hi : s.instruction with
  | branch condition =>
    simp only [hi] at h
    rcases bind_eq_failed (nested_eq_failed h) with htest | ⟨holds, m₁, htest, hbody⟩
    · exact .inl (.test (.inl hi) (.refl _) htest)
    · obtain ⟨t, n, hbegins, hraised⟩ := block_eq_failed hexec hbody
      exact .inr ⟨t, n, .branch hi htest hbegins, hraised⟩
  | loop condition =>
    simp only [hi] at h
    rcases repeatWhile_eq_failed hexec (nested_eq_failed h) with
      ⟨m₁, hrounds, htest⟩ | ⟨t, n, hbegins, hraised⟩
    · exact .inl (.test (.inr hi) hrounds htest)
    · exact .inr ⟨t, n, .loop hi rfl hbegins, hraised⟩
  | call c =>
    simp only [hi] at h
    rcases bind_eq_failed (hnext h) with hm | ⟨before, m₀, hm, h⟩
    · cases hm
    cases hm
    rcases bind_eq_failed h with hcall | ⟨_, m₁, -, htruncate⟩
    · exact call_eq_failed hexec (.inl hi) hcall
    · cases htruncate
  | callInto target c =>
    simp only [hi] at h
    rcases callInto_eq_failed hi (hnext h) with hcall | hslip
    · exact call_eq_failed hexec (.inr ⟨target, hi⟩) hcall
    · exact .inl hslip
  | _ => simp [hi, Instruction.isAtomic] at hatomic

/-- Behind every statement that fails there is one that fails by itself. -/
theorem blames_execute (fetcher : Fetcher) (program : Program) (fuel : Nat) :
    Blames fetcher program fuel := by
  induction fuel with
  | zero =>
    intro s m fault m' h
    cases h
  | succ fuel ih =>
    intro s m fault m' h
    have hperform : locating s.location
        (perform fetcher program (execute fetcher program fuel) fuel s) (begun s m) =
        .failed fault m' := h
    unfold locating at hperform
    cases hend : perform fetcher program (execute fetcher program fuel) fuel s (begun s m) with
    | done flow m₁ =>
      rw [hend] at hperform
      cases hperform
    | unfinished m₁ =>
      rw [hend] at hperform
      cases hperform
    | failed raised m₁ =>
      rw [hend] at hperform
      cases hperform
      rcases perform_eq_failed ih hend with hslip | ⟨t, n, hbegins, hraised⟩
      · exact ⟨s, m, .self, fuel, raised, hend, hslip, rfl⟩
      · refine ⟨t, n, hbegins, ?_⟩
        rw [hraised.locate]
        exact hraised

end Run

def RunBegins (fetcher : Fetcher) (program : Program) (m : Machine) (t : Statement) (n : Machine) :
    Prop :=
  ∃ main m₁, program.function? entryFunction = some main ∧ enterMain program m = .done () m₁ ∧
    BlockBegins fetcher program t n main.body m₁

/-- Leaving the entry function drops a frame after nothing but that frame has changed. -/
theorem exists_leaveMain (location : Location) (m : Machine) :
    ∃ before, Kept m before ∧ leaveMain location m = onStore Store.popFrame before := by
  let purged := purgeScope { m with location }
  have hlocated : Kept m { m with location } :=
    ⟨rfl, rfl, rfl, rfl, rfl, rfl, List.suffix_refl _⟩
  have hpurged : Kept m purged := hlocated.trans (kept_purgeScope _)
  have hforgotten : Kept m { purged with unfetched := [] } := { hpurged with }
  obtain ⟨_, m₁, hwarn⟩ := succeeds_warnUnfetched purged.unfetched { purged with unfetched := [] }
  obtain ⟨_, m₂, hdump⟩ := succeeds_dumpStore m₁
  have hwarned := (makes_warnUnfetched _).keeps _ _ _ hwarn
  have hdumped := makes_dumpStore.keeps _ _ _ hdump
  refine ⟨m₂, hforgotten.trans (hwarned.trans hdumped), ?_⟩
  have hpurge : modify (fun m => purgeScope { m with location }) m = .done () purged := rfl
  have hmachine : machine purged = .done purged purged := rfl
  have hforget : modify (fun m => { m with unfetched := [] }) purged =
      .done () { purged with unfetched := [] } := rfl
  rw [leaveMain, bind_of_done hpurge, bind_of_done hmachine, bind_of_done hforget,
    bind_of_done hwarn, bind_of_done hdump]

/-- Leaving the entry function fails only where there is no frame to drop. -/
theorem leaveMain_ne_failed {location : Location} {m m' : Machine} {fault : Fault}
    (hframes : 0 < m.store.frames.length) : leaveMain location m ≠ .failed fault m' := by
  obtain ⟨before, hkept, hleave⟩ := exists_leaveMain location m
  have hlength := frames_length_of_outside hkept.store
  obtain ⟨store, hstore⟩ := exists_popFrame (hlength ▸ hframes)
  rw [hleave, onStore, hstore]
  exact nofun

/-- A run with an entry function fails because of one statement that began. -/
theorem exists_raised_of_run {fetcher : Fetcher} {program : Program} {fuel : Nat}
    {m m' : Machine} {fault : Fault} (h : program.run fetcher fuel m = .failed fault m')
    (hmain : (program.function? entryFunction).isSome = true) :
    ∃ t n, RunBegins fetcher program m t n ∧ Raised fetcher program t n fault m' := by
  obtain ⟨main, hmain⟩ := Option.isSome_iff_exists.1 hmain
  unfold Program.run at h
  simp only [hmain] at h
  rcases bind_eq_failed h with henter | ⟨_, m₁, henter, h⟩
  · cases henter
  rcases bind_eq_failed h with hbody | ⟨flow, m₂, hbody, hleave⟩
  · obtain ⟨t, n, hbegins, hraised⟩ := block_eq_failed (blames_execute fetcher program fuel) hbody
    exact ⟨t, n, ⟨main, m₁, hmain, henter, hbegins⟩, hraised⟩
  -- the frame of the entry function is still there to be dropped
  cases henter
  have hran := keeps_block (keeps_execute fetcher program fuel) main.body _ _ _ hbody
  have hlength := frames_length_of_outside hran.store
  refine absurd hleave (leaveMain_ne_failed ?_)
  rw [hlength]
  exact Nat.succ_pos _

/-- A statement that fails by itself is still in its function, with the callers and the frames that
it found. -/
theorem Slip.stays {fetcher : Fetcher} {program : Program} {s : Statement} {m m' : Machine}
    {fault : Fault} (h : Slip fetcher program s m fault m') :
    m'.scope = m.scope ∧ m'.callers = m.callers ∧
      m'.store.frames.length = m.store.frames.length := by
  have hlocal {α : Type} {x : Run α} {m₁ : Machine} (hx : Makes LocalChange x)
      (hfailed : x m₁ = .failed fault m') : Kept m₁ m' := by
    have hm := hx m₁
    rw [hfailed] at hm
    exact LocalChange.kept_of_reflTransGen hm
  have hstays {m₁ : Machine} (hkept : Kept m₁ m') (hscope : m₁.scope = m.scope)
      (hcallers : m₁.callers = m.callers)
      (hframes : m₁.store.frames.length = m.store.frames.length) :
      m'.scope = m.scope ∧ m'.callers = m.callers ∧
        m'.store.frames.length = m.store.frames.length :=
    ⟨hkept.scope.trans hscope, hkept.callers.trans hcallers,
      (frames_length_of_outside hkept.store).trans hframes⟩
  cases h with
  | @atomic _ _ fuel hatomic hperform =>
    have hmakes := makes_perform_of_isAtomic fetcher program (execute fetcher program fuel) fuel
      hatomic
    exact hstays (hlocal hmakes hperform) rfl rfl rfl
  | test hs hrounds htest =>
    have hentered := hrounds.kept
    exact hstays (hlocal (makes_test _) htest) hentered.scope hentered.callers
      (frames_length_of_outside hentered.store)
  | args hs hargs => exact hstays (hlocal (makes_resolveAll _) hargs) rfl rfl rfl
  | builtin hs hargs hbuiltin hcall => exact hstays (hlocal (makes_builtin _ _) hcall) rfl rfl rfl
  | refused => exact ⟨rfl, rfl, rfl⟩
  | void hs hcall =>
    have hkept := keeps_call (keeps_execute fetcher program _) program _ _ _ _ hcall
    exact hstays hkept rfl rfl rfl
  | result hs hcall hvalue hdeclare =>
    have hkept := keeps_call (keeps_execute fetcher program _) program _ _ _ _ hcall
    exact hstays (hlocal (silent_declare _ _ _ _).ofSilent hdeclare) hkept.scope hkept.callers
      (frames_length_of_outside hkept.store)

end ApiScript
