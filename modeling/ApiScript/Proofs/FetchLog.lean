import ApiScript.Proofs.AssembledProgram
import ApiScript.Proofs.FormReading
import ApiScript.Proofs.Ledger

/-!
# The log of fetches

A `res` statement whose request is pending calls the fetcher, once. The calls of a run, its last
status and the status of each request are therefore told by the moments at which such a statement
begins. What is called is the request as it was registered: a request is pending if the latest
moment that registers or drops its name has registered it, and its endpoint is the one of that
moment.
-/
namespace ApiScript

/-- The latest of some moments that satisfies the second property satisfies the first one, if the
first implies the second. -/
def Lately (P Q : Moment → Prop) (past : List Moment) : Prop :=
  ∃ before c after, past = before ++ c :: after ∧ P c ∧ ∀ e ∈ after, ¬ Q e

theorem not_lately_nil {P Q : Moment → Prop} : ¬ Lately P Q [] := by
  rintro ⟨before, c, after, hpast, -⟩
  simp at hpast

theorem lately_snoc {P Q : Moment → Prop} {past : List Moment} {d : Moment} :
    Lately P Q (past ++ [d]) ↔ P d ∨ ¬ Q d ∧ Lately P Q past := by
  constructor
  · rintro ⟨before, c, after, hpast, hc, hafter⟩
    rcases List.eq_nil_or_concat after with rfl | ⟨after, last, rfl⟩
    · cases (List.append_inj' hpast rfl).2
      exact .inl hc
    · rw [List.concat_eq_append, ← List.cons_append, ← List.append_assoc] at hpast
      obtain ⟨hinit, hlast⟩ := List.append_inj' hpast rfl
      cases hlast
      rw [List.concat_eq_append, List.forall_mem_append, List.forall_mem_singleton] at hafter
      exact .inr ⟨hafter.2, before, c, after, hinit, hc, hafter.1⟩
  · rintro (hd | ⟨hd, before, c, after, rfl, hc, hafter⟩)
    · exact ⟨past, d, [], rfl, hd, List.forall_mem_nil _⟩
    · refine ⟨before, c, after ++ [d], by simp, hc, ?_⟩
      rw [List.forall_mem_append, List.forall_mem_singleton]
      exact ⟨hafter, hd⟩

structure Fetch where
  id : String
  call : FetchCall
  response : Response
  deriving DecidableEq, Repr

namespace Moment

variable {fetcher : Fetcher} {program : Program} {c d : Moment} {past : List Moment}
  {request : Request} {id : String}

/-- The fetch of the moment: a `res` statement begins there, and its request is pending. -/
def fetch? (fetcher : Fetcher) (c : Moment) : Option Fetch :=
  c.statement?.bind fun s =>
    match s.instruction with
    | .fetch _ reference =>
      (c.machine.store.requests.get? reference).map fun request =>
        ⟨reference, request.call, fetcher c.machine.calls request.call⟩
    | _ => none

/-- The moment registers a request, with the endpoint that the state of the moment gives. -/
def Registers (request : Request) (c : Moment) : Prop :=
  ∃ s written, c.statement? = some s ∧ s.instruction = .request written ∧
    c.machine.store.resolved? written = some request ∧
    c.machine.store.isRequest request.target = false

def Drops (id : String) (c : Moment) : Prop :=
  ∃ s, c.statement? = some s ∧ s.instruction = .delete id ∧ c.machine.store.isRequest id = true

def Changes (id : String) (c : Moment) : Prop :=
  (∃ request, c.Registers request ∧ request.target = id) ∨ c.Drops id

theorem exists_does {deed : Deed} (h : c.deed? fetcher = some deed) :
    (∃ s, c.statement? = some s ∧ c.machine.Does fetcher s.instruction deed) ∨
      (∃ function location, deed = .passes function location) ∨
      ∃ location warns, deed = .finishes location warns := by
  cases hs : c.statement? with
  | some s =>
    rw [deed?_of_statement? fetcher hs] at h
    exact .inl ⟨s, rfl, Machine.does_of_deed? h⟩
  | none =>
    rcases deed?_cases fetcher hs with ⟨next, _, _, -, -, hdeed⟩ | ⟨location, _, -, hdeed⟩ | hdeed
    · rw [hdeed] at h
      split at h
      · cases h
        exact .inr (.inl ⟨_, _, rfl⟩)
      · cases h
    · rw [hdeed] at h
      cases h
      exact .inr (.inr ⟨_, _, rfl⟩)
    · rw [hdeed] at h
      cases h

theorem deed?_eq_registers_iff :
    c.deed? fetcher = some (.registers request) ↔ c.Registers request := by
  constructor
  · intro h
    rcases exists_does h with ⟨s, hs, hdoes⟩ | ⟨_, _, hdeed⟩ | ⟨_, _, hdeed⟩
    · generalize hi : s.instruction = i at hdoes
      cases hdoes with
      | registers hresolved hid => exact ⟨s, _, hs, hi, hresolved, hid⟩
    · cases hdeed
    · cases hdeed
  · rintro ⟨s, written, hs, hi, hresolved, hid⟩
    rw [deed?_of_statement? fetcher hs, hi, Machine.deed?, hresolved, Option.bind_some, hid]
    rfl

theorem deed?_eq_drops_iff : c.deed? fetcher = some (.drops id) ↔ c.Drops id := by
  constructor
  · intro h
    rcases exists_does h with ⟨s, hs, hdoes⟩ | ⟨_, _, hdeed⟩ | ⟨_, _, hdeed⟩
    · generalize hi : s.instruction = i at hdoes
      cases hdoes with
      | drops hid => exact ⟨s, hs, hi, hid⟩
    · cases hdeed
    · cases hdeed
  · rintro ⟨s, hs, hi, hid⟩
    rw [deed?_of_statement? fetcher hs, hi, Machine.deed?, hid]
    rfl

theorem fetch?_eq_some_iff {f : Fetch} :
    c.fetch? fetcher = some f ↔
      ∃ s target request, c.statement? = some s ∧ s.instruction = .fetch target f.id ∧
        c.machine.store.requests.get? f.id = some request ∧ f.call = request.call ∧
        f.response = fetcher c.machine.calls request.call := by
  constructor
  · intro h
    obtain ⟨s, hs, hf⟩ := Option.bind_eq_some_iff.1 h
    split at hf
    · next target reference hi =>
      obtain ⟨request, hrequest, rfl⟩ := Option.map_eq_some_iff.1 hf
      exact ⟨s, target, request, hs, hi, hrequest, rfl, rfl⟩
    · cases hf
  · rintro ⟨s, target, request, hs, hi, hrequest, hcall, hresponse⟩
    rw [fetch?, hs, Option.bind_some, hi]
    dsimp only
    rw [hrequest, Option.map_some, ← hresponse, ← hcall]

theorem deed?_eq_fetches_iff {f : Fetch} :
    c.deed? fetcher = some (.fetches f.id f.call f.response) ↔ c.fetch? fetcher = some f := by
  rw [fetch?_eq_some_iff]
  constructor
  · intro h
    rcases exists_does h with ⟨s, hs, hdoes⟩ | ⟨_, _, hdeed⟩ | ⟨_, _, hdeed⟩
    · generalize hi : s.instruction = i at hdoes
      obtain ⟨id, call, response⟩ := f
      cases hdoes with
      | fetches hrequest => exact ⟨s, _, _, hs, hi, hrequest, rfl, rfl⟩
    · cases hdeed
    · cases hdeed
  · rintro ⟨s, target, request, hs, hi, hrequest, hcall, hresponse⟩
    rw [deed?_of_statement? fetcher hs, hi, Machine.deed?, hrequest, Option.map_some, hcall,
      hresponse]

/-- A step without a fetch leaves the log, and a fetch is entered even if the step fails. -/
theorem log_of_next (h : c.next fetcher program = some d) :
    d.machine.calls = c.machine.calls ++ (c.fetch? fetcher).toList.map Fetch.call ∧
      d.machine.lastStatus =
        ((c.fetch? fetcher).map fun f => f.response.status).getD c.machine.lastStatus ∧
      d.machine.requestStatus = (c.fetch? fetcher).elim c.machine.requestStatus
        fun f => c.machine.requestStatus.insert f.id f.response.status := by
  have hledger := ledger_of_next h
  cases hfetch : c.fetch? fetcher with
  | some f =>
    rw [deed?_eq_fetches_iff.2 hfetch] at hledger
    exact ⟨congrArg Ledger.calls hledger, congrArg Ledger.lastStatus hledger,
      congrArg Ledger.statuses hledger⟩
  | none =>
    have hcalls (l : Ledger) (hl : d.machine.ledger = l) (hsame : l.calls = c.machine.calls) :
        d.machine.calls = c.machine.calls ++ [] := by
      rw [List.append_nil, ← hsame]
      exact congrArg Ledger.calls hl
    cases hdeed : c.deed? fetcher with
    | none =>
      rw [hdeed] at hledger
      exact ⟨hcalls _ hledger rfl, congrArg Ledger.lastStatus hledger,
        congrArg Ledger.statuses hledger⟩
    | some deed =>
      rw [hdeed] at hledger
      cases deed with
      | fetches id call response =>
        have hf := deed?_eq_fetches_iff (f := ⟨id, call, response⟩).1 hdeed
        rw [hfetch] at hf
        cases hf
      | _ =>
        exact ⟨hcalls _ hledger rfl, congrArg Ledger.lastStatus hledger,
          congrArg Ledger.statuses hledger⟩

/-- What a step does to the pending request with a name. -/
theorem pending_of_next (h : c.next fetcher program = some d) :
    d.machine.store.requests.get? id = some request ↔
      c.Registers request ∧ request.target = id ∨
        ¬ c.Changes id ∧ c.machine.store.requests.get? id = some request := by
  have hpending := congrArg Ledger.pending (ledger_of_next h)
  have hregisters (r : Request) : c.Registers r ↔ c.deed? fetcher = some (.registers r) :=
    deed?_eq_registers_iff.symm
  have hdrops : c.Drops id ↔ c.deed? fetcher = some (.drops id) := deed?_eq_drops_iff.symm
  have hrequests : d.machine.store.requests = d.machine.ledger.pending := rfl
  rw [hrequests, hpending, Changes, hdrops]
  simp only [hregisters]
  cases hdeed : c.deed? fetcher with
  | none => simp [Machine.ledger]
  | some deed =>
    cases deed with
    | registers r =>
      simp only [Ledger.note_some, Ledger.enter, Machine.ledger, Table.get?_insert]
      grind
    | drops other =>
      simp only [Ledger.note_some, Ledger.enter, Machine.ledger, Table.get?_erase]
      by_cases hid : id = other
      · simp [hid]
      · simp [hid, Ne.symm hid]
    | _ => simp [Ledger.enter, Machine.ledger]

end Moment

def fetches (fetcher : Fetcher) (past : List Moment) : List Fetch :=
  past.filterMap (Moment.fetch? fetcher)

theorem fetches_snoc (fetcher : Fetcher) (past : List Moment) (d : Moment) :
    fetches fetcher (past ++ [d]) = fetches fetcher past ++ (d.fetch? fetcher).toList := by
  rw [fetches, List.filterMap_append]
  cases hfetch : d.fetch? fetcher <;> simp [fetches, hfetch]

structure Logged (fetcher : Fetcher) (past : List Moment) (m : Machine) : Prop where
  calls : m.calls = (fetches fetcher past).map Fetch.call
  lastStatus : m.lastStatus = (fetches fetcher past).getLast?.bind fun f => f.response.status
  statuses (id : String) : m.requestStatus.get? id =
    ((fetches fetcher past).filter fun f => f.id == id).getLast?.map fun f => f.response.status

structure Machine.Fresh (m : Machine) : Prop where
  frames : m.store.frames = []
  requests : m.store.requests = ∅
  lastStatus : m.lastStatus = none
  statuses : m.requestStatus = ∅
  calls : m.calls = []

namespace Moment

variable {fetcher : Fetcher} {program : Program} {c d : Moment} {before after past : List Moment}
  {request : Request} {id : String} {m : Machine}

theorem logged_of_next (hc : Logged fetcher past c.machine) (h : c.next fetcher program = some d) :
    Logged fetcher (past ++ [c]) d.machine := by
  obtain ⟨hcalls, hlast, hstatuses⟩ := log_of_next h
  constructor
  · rw [hcalls, hc.calls, fetches_snoc, List.map_append]
  · rw [hlast, hc.lastStatus, fetches_snoc]
    cases c.fetch? fetcher <;> simp
  · intro id
    rw [hstatuses, fetches_snoc, List.filter_append]
    cases c.fetch? fetcher with
    | none => simpa using hc.statuses id
    | some f =>
      rw [Option.elim_some, Table.get?_insert, hc.statuses]
      by_cases hid : id = f.id
      · simp [hid]
      · simp [hid, Ne.symm hid]

theorem logged_of_fresh (hm : m.Fresh) : Logged fetcher [] m := by
  refine ⟨hm.calls, hm.lastStatus, fun id => ?_⟩
  rw [hm.statuses]
  exact Table.get?_empty id

/-- A run adds its own moments to those before it. -/
theorem History.logged_append (hm : Logged fetcher before m)
    (h : History fetcher program (start m) past d) : Logged fetcher (before ++ past) d.machine := by
  induction h with
  | nil =>
    rw [List.append_nil]
    exact hm
  | snoc _ hnext ih =>
    rw [← List.append_assoc]
    exact logged_of_next ih hnext

theorem History.logged (hm : m.Fresh) (h : History fetcher program (start m) past d) :
    Logged fetcher past d.machine :=
  h.logged_append (logged_of_fresh hm)

/-- A request is pending under a name if that is what the latest change of the name has left. -/
theorem History.pending_iff (hm : m.Fresh) (h : History fetcher program (start m) past d) :
    d.machine.store.requests.get? id = some request ↔
      Lately (fun c => c.Registers request ∧ request.target = id) (Changes id) past := by
  induction h with
  | nil =>
    have hnone : (start m).machine.store.requests.get? id = none := by
      change m.store.requests.get? id = none
      rw [hm.requests]
      exact Table.get?_empty id
    simp [hnone, not_lately_nil]
  | snoc _ hnext ih => rw [pending_of_next hnext, lately_snoc, ih]

/-- No other method can be written. -/
theorem method_of_read {raw : List String}
    (h : Instruction.read? raw = .ok (some (.request request))) : request.method = "GET" := by
  rcases Instruction.read?_eq_some_iff.1 h with ⟨_, -, hi⟩ | hform
  · cases hi
  · generalize raw.map Token.ofRaw = tokens at hform
    cases hform with
    | keyword _ hrest =>
      cases hrest with
      | request target _ _ _ _ _ => rfl
      | assign target _ hassigned => cases hassigned
      | constant target _ _ hassigned => cases hassigned

theorem History.method_of_registers (hprogram : program.IsRead)
    (h : History fetcher program (start m) past c) (hc : c.Registers request) :
    request.method = "GET" := by
  obtain ⟨s, written, hs, hi, hresolved, -⟩ := hc
  obtain ⟨raw, hraw⟩ := hprogram s (h.mem_preorder hs)
  rw [hi] at hraw
  have hwritten := method_of_read hraw
  unfold Store.resolved? at hresolved
  split at hresolved
  · cases hresolved
    exact hwritten
  · obtain ⟨symbol, -, rfl⟩ := Option.map_eq_some_iff.1 hresolved
    exact hwritten

/-- A fetch calls for the request that was registered last under its name, as it was registered. -/
theorem History.sent (hm : m.Fresh) (hprogram : program.IsRead) {f : Fetch}
    (h : History fetcher program (start m) past d) (hpast : past = before ++ c :: after)
    (hf : c.fetch? fetcher = some f) :
    ∃ request, Lately (fun c => c.Registers request ∧ request.target = f.id) (Changes f.id) before ∧
      f.call = ⟨"GET", request.endpoint, request.timeout⟩ := by
  have hbefore := (h.of_append hpast).1
  obtain ⟨_, _, request, -, -, hpending, hcall, -⟩ := fetch?_eq_some_iff.1 hf
  have hlately := (hbefore.pending_iff hm).1 hpending
  obtain ⟨first, e, rest, hsplit, hregisters, -⟩ := id hlately
  have hmethod := (hbefore.of_append hsplit).1.method_of_registers hprogram hregisters.1
  refine ⟨request, hlately, ?_⟩
  rw [hcall, Request.call, hmethod]

end Moment

end ApiScript
