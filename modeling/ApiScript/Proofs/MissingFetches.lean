import ApiScript.Proofs.Ledger

/-!
# Missing fetches

A run that ends well executes each of its statements well. With warnings on, it then warns of each
registration after which the request was not fetched, in the order of the registrations: a request
that was dropped still counts, and one that was registered several times is reported for each
registration that no later fetch answers.
-/
namespace ApiScript

open Run

def executed (past : List Moment) : List Instruction :=
  past.filterMap fun c => c.statement?.map Statement.instruction

def Instruction.isFetchOf (id : String) : Instruction → Bool
  | .fetch _ reference => id == reference
  | _ => false

/-- The requests of the registrations that no later fetch answers, in order. -/
def unanswered : List Instruction → List String
  | [] => []
  | .request request :: rest =>
    if rest.any (Instruction.isFetchOf request.target) then unanswered rest
    else request.target :: unanswered rest
  | _ :: rest => unanswered rest

/-- A further instruction answers what it fetches, and waits for an answer if it registers. -/
theorem unanswered_snoc (instructions : List Instruction) (i : Instruction) :
    unanswered (instructions ++ [i]) =
      ((unanswered instructions).filter fun id => !i.isFetchOf id) ++ unanswered [i] := by
  induction instructions with
  | nil => rfl
  | cons first rest ih =>
    cases first with
    | request request =>
      rw [List.cons_append, unanswered, unanswered, ih, List.any_append, List.any_cons,
        List.any_nil, Bool.or_false]
      by_cases hrest : rest.any (Instruction.isFetchOf request.target) = true
      · simp [hrest]
      · by_cases hi : i.isFetchOf request.target = true
        · simp [hrest, hi]
        · simp [hrest, hi]
    | _ => exact ih

namespace Moment

variable {fetcher : Fetcher} {program : Program} {c d : Moment} {past : List Moment}
  {s : Statement}

theorem target_of_resolved? {store : Store} {request resolved : Request}
    (h : store.resolved? request = some resolved) : resolved.target = request.target := by
  unfold Store.resolved? at h
  split at h
  · cases h
    rfl
  · obtain ⟨symbol, -, rfl⟩ := Option.map_eq_some_iff.1 h
    rfl

/-- A registration that ends well is entered with the name of its request. -/
theorem deed?_of_request {request : Request} (hs : c.statement? = some s)
    (hi : s.instruction = .request request) (h : c.Succeeds fetcher program) :
    ∃ resolved, c.deed? fetcher = some (.registers resolved) ∧
      resolved.target = request.target := by
  have hatomic : s.instruction.isAtomic = true := by rw [hi]; rfl
  obtain ⟨flow, m, hperform⟩ := (succeeds_iff_perform hs hatomic).1 h
  rw [perform, hi] at hperform
  obtain ⟨resolved, m₁, hresolved, hrest⟩ := bind_eq_done (andNext_eq_done hperform)
  obtain rfl := (makes_resolveEndpoint request).eq_of_done hresolved
  obtain ⟨_, m₂, hwarned, hrest⟩ := bind_eq_done hrest
  obtain ⟨_, m₃, hstored, -⟩ := bind_eq_done hrest
  obtain ⟨store, hregistered, -⟩ := onStore_eq_done hstored
  have hid : c.machine.store.isRequest resolved.target = false := by
    rw [((notes_warnUnless _ _).notes hwarned).1, Store.registerRequest] at hregistered
    split at hregistered
    · cases hregistered
    · next hid => exact Bool.eq_false_iff.2 hid
  have hfound : c.machine.store.resolved? request = some resolved := by
    cases hfound : (begun s c.machine).store.resolved? request with
    | none =>
      obtain ⟨fault, hfault⟩ := resolveEndpoint_of_none hfound
      rw [hfault] at hresolved
      cases hresolved
    | some found =>
      rw [resolveEndpoint_of_some hfound] at hresolved
      cases hresolved
      exact hfound
  refine ⟨resolved, ?_, target_of_resolved? hfound⟩
  rw [deed?_of_statement? fetcher hs, hi, Machine.deed?, hfound, Option.bind_some, hid]
  rfl

/-- A fetch that ends well is entered. -/
theorem deed?_of_fetch {target reference : String} (hs : c.statement? = some s)
    (hi : s.instruction = .fetch target reference) (h : c.Succeeds fetcher program) :
    ∃ call response, c.deed? fetcher = some (.fetches reference call response) := by
  have hatomic : s.instruction.isAtomic = true := by rw [hi]; rfl
  obtain ⟨flow, m, hperform⟩ := (succeeds_iff_perform hs hatomic).1 h
  rw [perform, hi] at hperform
  have hfetch := andNext_eq_done hperform
  rw [deed?_of_statement? fetcher hs, hi, Machine.deed?]
  cases hrequest : c.machine.store.requests.get? reference with
  | none =>
    have hnone : (begun s c.machine).store.requests.get? reference = none := hrequest
    rw [fetch_of_not_pending hnone] at hfetch
    cases hfetch
  | some request => exact ⟨request.call, fetcher c.machine.calls request.call, rfl⟩

/-- The entry function is left last. -/
theorem tasks_eq_nil_of_leaveMain {location : Location} {rest : List Task}
    (hc : Standing c.flow c.tasks) (htasks : c.tasks = .leaveMain location :: rest)
    (h : c.next fetcher program = some d) : d.tasks = [] := by
  have hrest : rest = [] := by
    rw [htasks] at hc
    generalize c.flow = flow at hc
    cases hc with
    | inside hinside =>
      cases hinside with
      | main _ => rfl
    | taking htask _ => cases htask
  rcases next_cases h with ⟨task, rest', tasks, htasks', hd, hdo⟩ | ⟨-, hended, -⟩
  · rw [htasks, hrest] at htasks'
    cases htasks'
    have hfollows := follows_of_doTask hdo
    generalize c.flow = flow at hfollows
    generalize d.flow = flow' at hfollows
    cases hfollows with
    | take htask => cases htask
    | leaveMain => exact hd
  · exact hended

/-- A step that leaves something to do changes the list of unfetched requests as its statement
says, and warns of none of them. -/
theorem unfetched_of_next (hc : Standing c.flow c.tasks) (h : c.next fetcher program = some d)
    (hd : d.tasks ≠ []) (hsucceeds : c.Succeeds fetcher program) :
    d.machine.unfetched =
        (c.machine.unfetched.filter fun id => !(executed [c]).any (Instruction.isFetchOf id)) ++
          unanswered (executed [c]) ∧
      d.machine.missing = c.machine.missing := by
  have hledger := ledger_of_next h
  cases hs : c.statement? with
  | none =>
    have hexecuted : executed [c] = [] := by simp [executed, hs]
    have hidle : d.machine.unfetched = c.machine.unfetched ∧
        d.machine.missing = c.machine.missing := by
      rcases deed?_cases fetcher hs with ⟨_, _, _, -, -, hdeed⟩ | ⟨_, _, htasks, -⟩ | hdeed
      · rw [hdeed] at hledger
        by_cases hwarns : c.machine.modes.warns = true
        · rw [if_pos hwarns] at hledger
          exact ⟨congrArg Ledger.unfetched hledger, congrArg Ledger.missing hledger⟩
        · rw [if_neg hwarns] at hledger
          exact ⟨congrArg Ledger.unfetched hledger, congrArg Ledger.missing hledger⟩
      · exact absurd (tasks_eq_nil_of_leaveMain hc htasks h) hd
      · rw [hdeed] at hledger
        exact ⟨congrArg Ledger.unfetched hledger, congrArg Ledger.missing hledger⟩
    rw [hexecuted, hidle.1]
    exact ⟨by simp [unanswered], hidle.2⟩
  | some s =>
    have hexecuted : executed [c] = [s.instruction] := by simp [executed, hs]
    have hdeed := deed?_of_statement? fetcher hs
    rw [hexecuted]
    cases hi : s.instruction with
    | request request =>
      obtain ⟨resolved, hregisters, htarget⟩ := deed?_of_request hs hi hsucceeds
      rw [hregisters] at hledger
      refine ⟨(congrArg Ledger.unfetched hledger).trans ?_, congrArg Ledger.missing hledger⟩
      simp [Ledger.enter, Machine.ledger, unanswered, Instruction.isFetchOf, htarget]
    | fetch target reference =>
      obtain ⟨call, response, hfetches⟩ := deed?_of_fetch hs hi hsucceeds
      rw [hfetches] at hledger
      refine ⟨(congrArg Ledger.unfetched hledger).trans ?_, congrArg Ledger.missing hledger⟩
      simp [Ledger.enter, Machine.ledger, unanswered, Instruction.isFetchOf, bne]
    | delete target =>
      rw [hdeed, hi, Machine.deed?] at hledger
      split at hledger
      · refine ⟨(congrArg Ledger.unfetched hledger).trans ?_, congrArg Ledger.missing hledger⟩
        simp [Ledger.enter, Machine.ledger, unanswered, Instruction.isFetchOf]
      · refine ⟨(congrArg Ledger.unfetched hledger).trans ?_, congrArg Ledger.missing hledger⟩
        simp [Machine.ledger, unanswered, Instruction.isFetchOf]
    | _ =>
      rw [hdeed, hi] at hledger
      refine ⟨(congrArg Ledger.unfetched hledger).trans ?_, congrArg Ledger.missing hledger⟩
      simp [Machine.deed?, Machine.ledger, unanswered, Instruction.isFetchOf]

/-- While a run goes on, the unfetched requests are those of the registrations without an answer,
and nothing is warned of yet. -/
theorem History.unfetched {m : Machine} (hm : m.unfetched = [])
    (h : History fetcher program (start m) past d) (hd : d.tasks ≠ []) :
    d.machine.unfetched = unanswered (executed past) ∧ d.machine.missing = m.missing := by
  induction h with
  | nil => exact ⟨hm, rfl⟩
  | @snoc past d e hpast hnext ih =>
    have hsucceeds := (hpast.snoc hnext).succeeds hd d (by simp)
    obtain ⟨hunfetched, hmissing⟩ := unfetched_of_next hpast.standing hnext hd hsucceeds
    obtain ⟨ihunfetched, ihmissing⟩ := ih (tasks_ne_nil_of_next hnext)
    refine ⟨?_, hmissing.trans ihmissing⟩
    have hsnoc : executed (past ++ [d]) = executed past ++ executed [d] := List.filterMap_append
    rw [hunfetched, ihunfetched, hsnoc]
    cases hs : d.statement? with
    | none => simp [executed, hs, unanswered]
    | some s =>
      have hexecuted : executed [d] = [s.instruction] := by simp [executed, hs]
      rw [hexecuted, unanswered_snoc]
      simp

end Moment

namespace Run

abbrev SameModes (m m' : Machine) : Prop := m'.modes = m.modes

theorem sameModes_warnUnfetched (ids : List String) : Makes SameModes (warnUnfetched ids) := by
  induction ids with
  | nil => exact .pure _
  | cons id rest ih =>
    refine Makes.bind (.modify fun m => ?_) fun _ => ih
    split
    · rfl
    · rfl

theorem sameModes_dumpStore : Makes SameModes dumpStore := by
  have hemit (lines : List String) : Makes SameModes (emitAll lines) := by
    induction lines with
    | nil => exact .pure _
    | cons line rest ih => exact Makes.bind (.modify fun _ => rfl) fun _ => ih
  refine Makes.machine.bind fun m => ?_
  split
  · exact hemit _
  · exact .pure _

theorem sameModes_leaveMain (location : Location) : Makes SameModes (leaveMain location) := by
  refine Makes.bind (.modify fun m => ?_) fun _ => Makes.machine.bind fun m => ?_
  · unfold purgeScope
    split
    · rfl
    · rfl
  · refine Makes.bind (.modify fun _ => rfl) fun _ => ?_
    exact (sameModes_warnUnfetched _).bind fun _ =>
      sameModes_dumpStore.bind fun _ => .onStore fun _ _ _ => rfl

theorem modes_leaveMain (location : Location) (m : Machine) :
    (leaveMain location m).machine.modes = m.modes :=
  (sameModes_leaveMain location).unchanged m

end Run

/-- A run with warnings that ends well has executed all its statements well. It warns, at the place
of the entry function, of the requests of exactly those registrations that no later fetch answered,
in their order. -/
theorem missing_fetches_are_warned {fetcher : Fetcher} {program : Program} {fuel : Nat}
    {m m' : Machine} (hm : m.unfetched = []) (hrun : program.run fetcher fuel m = .done () m')
    (hwarns : m'.modes.warns = true) :
    ∃ main past, program.function? entryFunction = some main ∧
      Moment.History fetcher program (.start m) past ⟨.next, [], m'⟩ ∧
      (∀ c ∈ past, c.Succeeds fetcher program) ∧
      m'.missing = m.missing ++ (unanswered (executed past)).map fun id => (id, main.location) := by
  obtain ⟨main, past, flow, n, hmain, hpast, hleave⟩ := Moment.exists_history_of_run hrun
  let last : Moment := ⟨flow, [.leaveMain main.location], n⟩
  have hdone : doTask fetcher program flow (.leaveMain main.location) n = .done (.next, []) m' := by
    cases flow <;> exact bind_of_done hleave
  have hnext : last.next fetcher program = some ⟨.next, [], m'⟩ :=
    Moment.next_of_done (c := last) rfl hdone
  obtain ⟨hunfetched, hmissing⟩ := hpast.unfetched hm (List.cons_ne_nil _ _)
  have hexecuted : executed (past ++ [last]) = executed past := by
    have hnone : last.statement? = none := by cases flow <;> rfl
    rw [executed, List.filterMap_append, List.filterMap_cons, hnone]
    exact List.append_nil _
  refine ⟨main, past ++ [last], hmain, hpast.snoc hnext, ?_, ?_⟩
  · rw [List.forall_mem_append, List.forall_mem_singleton]
    exact ⟨hpast.succeeds (List.cons_ne_nil _ _), ⟨_, _, _, _, rfl, hdone⟩⟩
  · have hledger := ledger_leaveMain main.location n
    have hmodes := modes_leaveMain main.location n
    rw [hleave] at hledger hmodes
    have hwarned : n.modes.warns = true := by
      rw [← hmodes]
      exact hwarns
    rw [hwarned] at hledger
    have hlast : m'.missing = n.missing ++ n.unfetched.map fun id => (id, main.location) :=
      congrArg Ledger.missing hledger
    rw [hlast, hexecuted, hunfetched, hmissing]

/-- A function that registers a request and drops it is called twice. Another request is fetched,
dropped and registered again. -/
theorem forgetful_run_is_warned :
    let line (number : Nat) : Location := ⟨number, "forget.neb"⟩
    let fetcher : Fetcher := fun _ _ => { body := some "page", status := some 200 }
    let register (id : String) (number : Nat) : Statement :=
      .leaf (.request ⟨id, "https://a.b", "GET", 5000, false⟩) (line number)
    let program : Program :=
      ⟨[⟨.define ⟨"Main", [], none⟩, line 1,
          [.leaf (.use .warns) (line 2), .leaf (.call ⟨"ask", []⟩) (line 3),
            .leaf (.call ⟨"ask", []⟩) (line 4), register "b" 5, .leaf (.fetch "page" "b") (line 6),
            .leaf (.delete "b") (line 7), register "b" 8], []⟩,
        ⟨.define ⟨"ask", [], none⟩, line 10,
          [register "a" 11, .leaf (.delete "a") (line 12)], []⟩]⟩
    let m : Machine := { store := { signatures := .ofList [("Main", []), ("ask", [])] } }
    ∃ past m', program.run fetcher 9 m = .done () m' ∧ m'.modes.warns = true ∧
      Moment.History fetcher program (.start m) past ⟨.next, [], m'⟩ ∧
      m'.missing = [("a", line 1), ("a", line 1), ("b", line 1)] ∧
      (unanswered (executed past)).map (fun id => (id, line 1)) = m'.missing := by
  intro line fetcher register program m
  have hdone : (program.run fetcher 9 m).isDone = true := by decide +kernel
  have hwarns : (program.run fetcher 9 m).machine.modes.warns = true := by decide +kernel
  have hmissing : (program.run fetcher 9 m).machine.missing =
      [("a", line 1), ("a", line 1), ("b", line 1)] := by decide +kernel
  obtain ⟨_, m', hrun⟩ := Outcome.exists_of_isDone hdone
  rw [hrun] at hwarns hmissing
  obtain ⟨main, past, hmain, hpast, -, hwarned⟩ := missing_fetches_are_warned rfl hrun hwarns
  cases hmain
  exact ⟨past, m', hrun, hwarns, hpast, hmissing, hwarned.symm⟩

end ApiScript
