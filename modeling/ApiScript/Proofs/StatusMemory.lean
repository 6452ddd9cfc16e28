import ApiScript.Proofs.FailureReport
import ApiScript.Proofs.RequestBooks

/-!
# The status that a name remembers

The machine keeps the status of a fetch by the name of its request. The status stays when the
request is dropped, and it is still there when the name is registered anew, in the same run or in a
later one. So a request that was never fetched has a status if an earlier one with its name has.
-/
namespace ApiScript

open Run Moment

inductive Idle (m : Machine) : Machine → Prop
  | supply (input : List InputLine) : Idle m { m with input }
  | assemble (sources : List (String × String)) : Idle m (m.assemble sources).2
  | install (name : String) (builtin : Builtin) :
    Idle m { m with builtins := m.builtins.insert name builtin }
  | operate (op : Operation) : Idle m { m with store := (m.store.perform op).2 }
  | prompt (text : String) : Idle m (m.record (.prompted text))
  | readLine : Idle m (readLine m).machine

/-- The life of a machine with a fetcher: runs of any programs, each of which may stop anywhere,
and what happens between them. The moments are those of all runs, in their order. -/
inductive Lives (fetcher : Fetcher) : List Moment → Machine → Prop
  | fresh (input : List InputLine) : Lives fetcher [] { input }
  | idle {past : List Moment} {m m' : Machine} (h : Lives fetcher past m) (hidle : Idle m m') :
    Lives fetcher past m'
  | run {past moments : List Moment} {m : Machine} {program : Program} {d : Moment}
    (h : Lives fetcher past m) (hrun : History fetcher program (start m) moments d) :
    Lives fetcher (past ++ moments) d.machine

def latestStatus (fetcher : Fetcher) (past : List Moment) (id : String) : Option Nat :=
  ((fetches fetcher past).filter fun f => f.id == id).getLast?.bind fun f => f.response.status

/-- A request is pending that was not fetched since it was registered. The moments are those before
its registration. -/
structure Awaits (fetcher : Fetcher) (before : List Moment) (id : String) (n : Machine) :
    Prop where
  pending : n.store.isRequest id = true
  unfetched : ∃ c after request, Lives fetcher (before ++ c :: after) n ∧ c.Registers request ∧
    request.target = id ∧ ∀ f ∈ fetches fetcher after, f.id ≠ id

section Lives

variable {fetcher : Fetcher} {program : Program} {past before after : List Moment} {id : String}
  {c : Moment} {m m' n : Machine} {t : Statement}

theorem Idle.logged (h : Idle m m') (hm : Logged fetcher past m) : Logged fetcher past m' := by
  have hsame (hledger : m'.ledger = m.ledger) : Logged fetcher past m' := by
    refine ⟨?_, ?_, fun id => ?_⟩
    · exact (congrArg Ledger.calls hledger).trans hm.calls
    · exact (congrArg Ledger.lastStatus hledger).trans hm.lastStatus
    · exact (congrArg (·.statuses.get? id) hledger).trans (hm.statuses id)
  cases h with
  | supply input => exact hsame rfl
  | assemble sources =>
    refine hsame ?_
    unfold Machine.assemble
    split <;> rfl
  | install name builtin => exact hsame rfl
  -- an operation may register or drop a request, but what was fetched is not in the store
  | operate op => exact ⟨hm.calls, hm.lastStatus, hm.statuses⟩
  | prompt text => exact hsame (Event.Unlisted.ledger_record {} m)
  | readLine => exact hsame (sameLedger_readLine.ledger m)

/-- All through its life a machine knows its fetches. -/
theorem Lives.logged (h : Lives fetcher past m) : Logged fetcher past m := by
  induction h with
  | fresh input => exact logged_of_fresh ⟨rfl, rfl, rfl, rfl, rfl⟩
  | idle _ hidle ih => exact hidle.logged ih
  | run _ hrun ih => exact hrun.logged_append ih

theorem Lives.after_run (h : Lives fetcher past m) (program : Program) (fuel : Nat) :
    ∃ moments, Lives fetcher (past ++ moments) (program.run fetcher fuel m).machine := by
  obtain ⟨d, hreaches, hmachine, -⟩ := exists_last fetcher program fuel m
  obtain ⟨moments, hmoments⟩ := exists_history hreaches
  rw [← hmachine]
  exact ⟨moments, h.run hmoments⟩

theorem Lives.begins (h : Lives fetcher past m) (hbegins : RunBegins fetcher program m t n) :
    ∃ moments, Lives fetcher (past ++ moments) n := by
  obtain ⟨rest, tasks, hreaches⟩ := reachesBegin_of_runBegins hbegins
  obtain ⟨moments, hmoments⟩ := exists_history hreaches
  exact ⟨moments, h.run hmoments⟩

theorem Lives.join_requestStatus (h : Lives fetcher past m) (id : String) :
    (m.requestStatus.get? id).join = latestStatus fetcher past id := by
  rw [h.logged.statuses, latestStatus]
  cases ((fetches fetcher past).filter fun f => f.id == id).getLast? <;> rfl

theorem latestStatus_append (h : ∀ f ∈ fetches fetcher after, f.id ≠ id) :
    latestStatus fetcher (before ++ after) id = latestStatus fetcher before id := by
  have hnone : (fetches fetcher after).filter (fun f => f.id == id) = [] := by
    rw [List.filter_eq_nil_iff]
    intro f hf
    simpa using h f hf
  have hsplit : fetches fetcher (before ++ after) =
      fetches fetcher before ++ fetches fetcher after := List.filterMap_append
  rw [latestStatus, hsplit, List.filter_append, hnone, List.append_nil, latestStatus]

theorem Moment.Registers.fetch?_eq_none {request : Request} (h : c.Registers request) :
    c.fetch? fetcher = none := by
  obtain ⟨s, written, hs, hi, -⟩ := h
  rw [fetch?, hs, Option.bind_some, hi]

/-- A request that was not fetched has the status that its name had when it was registered. -/
theorem Awaits.join_requestStatus (h : Awaits fetcher before id n) :
    (n.requestStatus.get? id).join = latestStatus fetcher before id := by
  obtain ⟨c, after, request, hlives, hregisters, -, hunfetched⟩ := h.unfetched
  have hfetches : fetches fetcher (c :: after) = fetches fetcher after :=
    List.filterMap_cons_none hregisters.fetch?_eq_none
  rw [hlives.join_requestStatus id]
  apply latestStatus_append
  rwa [hfetches]

/-- A request awaits its fetch when the statement that registers it is done. -/
theorem Lives.exists_awaits {written request : Request} (h : Lives fetcher past m)
    (hbegins : RunBegins fetcher program m t n) (ht : t.instruction = .request written)
    (hresolved : n.store.resolved? written = some request)
    (hnew : n.store.isRequest request.target = false)
    (hdone : execute fetcher program 1 t n = .done .next m') :
    ∃ before, Awaits fetcher before request.target m' ∧
      latestStatus fetcher before request.target =
        (n.requestStatus.get? request.target).join := by
  obtain ⟨rest, tasks, hreaches⟩ := reachesBegin_of_runBegins hbegins
  obtain ⟨moments, hmoments⟩ := exists_history hreaches
  have hregisters : Registers request ⟨.next, .statements (t :: rest) :: tasks, n⟩ :=
    ⟨t, written, rfl, ht, hresolved, hnew⟩
  have hatomic : t.instruction.isAtomic = true := by rw [ht]; rfl
  have hperform : perform fetcher program (execute fetcher program 0) 0 t (begun t n) =
      .done .next m' := locating_eq_done hdone
  have hstep : doTask fetcher program .next (.statements (t :: rest)) n =
      .done (.next, [.statements rest]) m' := by
    rw [doTask_statements, startStatement_of_isAtomic hatomic (execute fetcher program 0) 0,
      bind_assoc, bind_of_done hperform]
    rfl
  have hnext := next_of_done (c := ⟨.next, .statements (t :: rest) :: tasks, n⟩) rfl hstep
  have hpending : m'.store.requests.get? request.target = some request :=
    (pending_of_next hnext).2 (.inl ⟨hregisters, rfl⟩)
  have hlives := h.run (hmoments.snoc hnext)
  rw [← List.append_assoc] at hlives
  refine ⟨past ++ moments, ⟨?_, _, [], request, hlives, hregisters, rfl, by simp [fetches]⟩, ?_⟩
  · rw [Store.isRequest, Table.contains, hpending, Option.isSome_some]
  · rw [(h.run hmoments).join_requestStatus]

end Lives

section Execution

variable {fetcher : Fetcher} {program : Program} {fuel : Nat} {s : Statement} {target id : String}
  {m : Machine}

theorem execute_status (hs : s.instruction = .status target id)
    (hpending : m.store.isRequest id = true) :
    execute fetcher program (fuel + 1) s m =
      match (m.requestStatus.get? id).join with
      | none => .failed ⟨.noStatus id, some s.location⟩ (begun s m)
      | some code =>
        match m.store.declare target (.string (Nat.repr code)) m.depth false none with
        | .ok store => .done .next { begun s m with store }
        | .error cause => .failed ⟨cause, some s.location⟩ (begun s m) := by
  have hexecute : execute fetcher program (fuel + 1) s m =
      locating s.location (andNext (bindStatus target id)) (begun s m) := by
    rw [execute_succ, perform, hs]
  have hmachine : machine (begun s m) = .done (begun s m) (begun s m) := rfl
  have hstatus : statusOf id (begun s m) = .done (m.requestStatus.get? id).join (begun s m) := by
    rw [statusOf, bind_of_done hmachine]
    exact congrFun (if_pos hpending) (begun s m)
  rw [hexecute, locating, andNext, bind_apply, bindStatus, bind_of_done hstatus]
  cases (m.requestStatus.get? id).join with
  | none => rfl
  | some code =>
    have hstore : (begun s m).store = m.store := rfl
    have hdepth : (begun s m).depth = m.depth := rfl
    dsimp only
    rw [declare, bind_of_done hmachine, onStore, hstore, hdepth]
    cases m.store.declare target (.string (Nat.repr code)) m.depth false none <;> rfl

end Execution

/-- A machine goes on living through every run. In every state of its life in which a request waits
to be fetched, `err` on it tells the status that an earlier request with its name has left, as if it
were its own. It fails for want of a status exactly if there is none, and the run fails with it. -/
theorem unfetched_requests_have_earlier_status (fetcher : Fetcher) :
    (∀ past m program, Lives fetcher past m →
      (∀ fuel, ∃ moments,
        Lives fetcher (past ++ moments) (program.run fetcher fuel m).machine) ∧
      ∀ t n, RunBegins fetcher program m t n → ∃ moments, Lives fetcher (past ++ moments) n) ∧
    ∀ before id n, Awaits fetcher before id n →
      ∀ s target program, s.instruction = .status target id →
        (latestStatus fetcher before id = none →
          (∀ fuel, execute fetcher program (fuel + 1) s n =
            .failed ⟨.noStatus id, some s.location⟩ (begun s n)) ∧
          ∀ m, RunBegins fetcher program m s n →
            ∃ fuel, program.run fetcher fuel m =
              .failed ⟨.noStatus id, some s.location⟩ (begun s n)) ∧
        ∀ code, latestStatus fetcher before id = some code →
          ∀ fuel, execute fetcher program (fuel + 1) s n =
            match n.store.declare target (.string (Nat.repr code)) n.depth false none with
            | .ok store => .done .next { begun s n with store }
            | .error cause => .failed ⟨cause, some s.location⟩ (begun s n) := by
  constructor
  · intro past m program hlives
    exact ⟨fun fuel => hlives.after_run program fuel, fun t n hbegins => hlives.begins hbegins⟩
  · intro before id n hawaits s target program hs
    constructor
    · intro hnone
      have hfails (fuel : Nat) : execute fetcher program (fuel + 1) s n =
          .failed ⟨.noStatus id, some s.location⟩ (begun s n) := by
        rw [execute_status hs hawaits.pending, hawaits.join_requestStatus, hnone]
      refine ⟨hfails, ?_⟩
      intro m hbegins
      exact hbegins.run_fails (fun _ => rfl) ⟨1, hfails 0⟩
    · intro code hcode fuel
      rw [execute_status hs hawaits.pending, hawaits.join_requestStatus, hcode]

def staleMain : Statement :=
  let line (number : Nat) : Location := ⟨number, "stale.neb"⟩
  ⟨.define ⟨"Main", [], none⟩, line 1,
    [.leaf (.request ⟨"u", "https://a.b", "GET", 5000, false⟩) (line 2),
      .leaf (.fetch "x" "u") (line 3), .leaf (.delete "u") (line 4),
      .leaf (.request ⟨"u", "https://c.d", "GET", 5000, false⟩) (line 5),
      .leaf (.status "e" "u") (line 6),
      .leaf (.request ⟨"v", "https://e.f", "GET", 5000, false⟩) (line 7),
      .leaf (.status "e" "v") (line 8)], []⟩

/-- The second request with the name has the status of the first one, and the other one has none,
which ends the run. -/
theorem staleMain_tells_old_status :
    let program : Program := ⟨[staleMain]⟩
    let state (count : Nat) := (program.opening countingFetcher 1 staleMain {} count).machine
    let s : Statement := .leaf (.status "e" "u") ⟨6, "stale.neb"⟩
    let t : Statement := .leaf (.status "e" "v") ⟨8, "stale.neb"⟩
    (∃ before, Awaits countingFetcher before "u" (state 4) ∧
      latestStatus countingFetcher before "u" = some 200 ∧
      ∃ store, execute countingFetcher program 1 s (state 4) =
          .done .next { begun s (state 4) with store } ∧
        (store.symbol? "e").map Symbol.value = some (.string "200")) ∧
    (∃ before, Awaits countingFetcher before "v" (state 6) ∧
      latestStatus countingFetcher before "v" = none) ∧
    ∃ fuel m', program.run countingFetcher fuel {} =
      .failed ⟨.noStatus "v", some t.location⟩ m' := by
  intro program state s t
  obtain ⟨-, houtcome⟩ := unfetched_requests_have_earlier_status countingFetcher
  have hmain : program.function? entryFunction = some staleMain := rfl
  have hawaits (count : Nat) {r : Statement} {request : Request}
      (hr : staleMain.body[count]? = some r) (hrequest : r.instruction = .request request)
      (hresolved : (state count).store.resolved? request = some request)
      (hnew : (state count).store.isRequest request.target = false)
      (hnext : (program.opening countingFetcher 1 staleMain {} (count + 1)).value? = some .next) :
      ∃ before, Awaits countingFetcher before request.target (state (count + 1)) ∧
        latestStatus countingFetcher before request.target =
          ((state count).requestStatus.get? request.target).join := by
    obtain ⟨hbefore, hdone⟩ := execute_of_opening hr hnext
    have hbegins : RunBegins countingFetcher program {} r (state count) :=
      .of_opening hmain hr hbefore
    exact (Lives.fresh []).exists_awaits hbegins hrequest hresolved hnew hdone
  obtain ⟨before, hu, hstatus⟩ :=
    hawaits 3 rfl rfl (by decide +kernel) (by decide +kernel) (by decide +kernel)
  obtain ⟨before', hv, hnone⟩ :=
    hawaits 5 rfl rfl (by decide +kernel) (by decide +kernel) (by decide +kernel)
  have hkept : ((state 3).requestStatus.get? "u").join = some 200 ∧
      ((state 5).requestStatus.get? "v").join = none := by
    decide +kernel
  have hold : latestStatus countingFetcher before "u" = some 200 := hstatus.trans hkept.1
  have habsent : latestStatus countingFetcher before' "v" = none := hnone.trans hkept.2
  have htold := (houtcome before "u" (state 4) hu s "e" program rfl).2 200 hold 0
  have hstored : (((state 4).store.declare "e" (.string (Nat.repr 200)) (state 4).depth false
      none).toOption.map fun store => (store.symbol? "e").map Symbol.value) =
        some (some (.string "200")) := by
    decide +kernel
  have ht : RunBegins countingFetcher program {} t (state 6) :=
    .of_opening hmain rfl (by decide +kernel)
  obtain ⟨fuel, hrun⟩ := ((houtcome before' "v" (state 6) hv t "e" program rfl).1 habsent).2 {} ht
  refine ⟨⟨before, hu, hold, ?_⟩, ⟨before', hv, habsent⟩, fuel, _, hrun⟩
  cases hdeclare : (state 4).store.declare "e" (.string (Nat.repr 200)) (state 4).depth false
      none with
  | error cause =>
    rw [hdeclare] at hstored
    cases hstored
  | ok store =>
    rw [hdeclare] at hstored htold
    exact ⟨store, htold, Option.some.inj hstored⟩

/-- The second request was never fetched, and `err` tells the status of the first one. -/
theorem unfetched_request_tells_old_status :
    let assembled := ({} : Machine).assemble [("stale.neb",
      "def Main():\nurl u = \x7b endpoint: 'https://a.b' \x7d\nres x = u::res\ndel u\n" ++
        "url u = \x7b endpoint: 'https://c.d' \x7d\nerr e = u::err\nprint e\nend")]
    let last := (assembled.1.toOption.getD ⟨[]⟩).run countingFetcher 9 assembled.2
    last.isDone = true ∧ last.machine.output = ["200"] := by
  decide +kernel

end ApiScript
