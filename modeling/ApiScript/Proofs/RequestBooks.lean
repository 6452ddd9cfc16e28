import ApiScript.Proofs.LatestWrites

/-!
# The books of requests

The machine keeps the outcome of a fetch in four places: among its calls, as its last status, as
the status of the request, and with the symbol that takes the answer. At every moment of a run all
of them agree with the `res` statements that have begun so far.
-/
namespace ApiScript

open Moment

structure RequestBooks (fetcher : Fetcher) (program : Program) (past : List Moment) (d : Moment) :
    Prop extends Logged fetcher past d.machine where
  /-- What is pending under a name was registered at the latest moment that changes the name. -/
  pending (id : String) (request : Request) : d.machine.store.requests.get? id = some request ↔
    Lately (fun c => c.Registers request ∧ request.target = id) (Changes id) past
  /-- A fetch calls for the request that was pending then, as it was registered. -/
  sent {before after : List Moment} {c : Moment} {f : Fetch} :
    past = before ++ c :: after → c.fetch? fetcher = some f →
      ∃ request,
        Lately (fun c => c.Registers request ∧ request.target = f.id) (Changes f.id) before ∧
          f.call = ⟨"GET", request.endpoint, request.timeout⟩
  /-- A symbol is as the latest step that bound its name has left it. -/
  symbols {level : Nat} {name : String} {symbol : Symbol} :
    symbolIn? d.machine.store.frames level name = some symbol →
      Lately (fun c => c.Binds fetcher program level name ∧ c.Gives fetcher symbol)
        (Binds fetcher program level name) past

/-- A script is assembled on a machine on which nothing has happened. -/
theorem Assembled.machine_fresh {program : Program} {m : Machine} (h : Assembled program m) :
    m.Fresh := by
  obtain ⟨input, signatures, rfl⟩ := h.fresh
  exact ⟨rfl, rfl, rfl, rfl, rfl⟩

/-- Along a run on a fresh machine the books of requests agree with what has happened, also in the
state in which the run ends. -/
theorem request_books_agree {m : Machine} (hm : m.Fresh) {program : Program}
    (hprogram : program.IsRead) (fetcher : Fetcher) :
    (∀ past d, History fetcher program (start m) past d → RequestBooks fetcher program past d) ∧
      ∀ fuel, ∃ past d, History fetcher program (start m) past d ∧
        d.machine = (program.run fetcher fuel m).machine := by
  constructor
  · intro past d h
    exact {
      toLogged := h.logged hm
      pending := fun _ _ => h.pending_iff hm
      sent := fun hpast hf => h.sent hm hprogram hpast hf
      symbols := fun hsymbol => h.latest hm hsymbol }
  · intro fuel
    obtain ⟨d, hreaches, hmachine, -⟩ := exists_last fetcher program fuel m
    obtain ⟨past, hpast⟩ := exists_history hreaches
    exact ⟨past, d, hpast, hmachine⟩

/-- The symbol that names the endpoint changes after the request is registered, one answer is
overwritten, and the last one finds no place because its target is constant. -/
def movedEndpoint : List (String × String) :=
  [("moved.neb", "def Main():\nvar h = 'a.b'\nurl u = \x7b endpoint: h \x7d\nvar h = 'c.d'\n" ++
    "res x = u::res\nvar x = 1\nres y = u::res\nvar const z = 3\nres z = u::res\nend")]

def countingFetcher : Fetcher := fun calls _ => { status := some (200 + calls.length) }

theorem moved_endpoint_is_booked :
    ∃ program m, ({} : Machine).assemble movedEndpoint = (.ok program, m) ∧ m.Fresh ∧
      program.IsRead ∧ ∃ past d, d.machine = (program.run countingFetcher 9 m).machine ∧
        RequestBooks countingFetcher program past d ∧
        (program.run countingFetcher 9 m).cause? = some (.constantModified "z") ∧
        (fetches countingFetcher past).map Fetch.call = List.replicate 3 ⟨"GET", "a.b", 5000⟩ ∧
        d.machine.lastStatus = some 202 ∧
        ["x", "y", "z"].map (fun name =>
          (symbolIn? d.machine.store.frames 0 name).map Symbol.status) =
            [some none, some (some 201), some none] := by
  have hended : (match ({} : Machine).assemble movedEndpoint with
      | (.ok program, m) =>
        let last := program.run countingFetcher 9 m
        some (last.cause?, last.machine.calls, last.machine.lastStatus,
          ["x", "y", "z"].map fun name =>
            (symbolIn? last.machine.store.frames 0 name).map Symbol.status)
      | (.error _, _) => none) =
        some (some (.constantModified "z"), List.replicate 3 ⟨"GET", "a.b", 5000⟩, some 202,
          [some none, some (some 201), some none]) := by
    decide +kernel
  cases hassemble : ({} : Machine).assemble movedEndpoint with
  | mk result m =>
    cases result with
    | error fault =>
      rw [hassemble] at hended
      cases hended
    | ok program =>
      rw [hassemble] at hended
      simp only [Option.some.injEq, Prod.mk.injEq] at hended
      obtain ⟨hcause, hcalls, hlast, hstatuses⟩ := hended
      have hassembled := assembled_of_assemble hassemble
      obtain ⟨hbooks, hends⟩ :=
        request_books_agree hassembled.machine_fresh hassembled.read countingFetcher
      obtain ⟨past, d, hpast, hmachine⟩ := hends 9
      have hagree := hbooks past d hpast
      refine ⟨program, m, rfl, hassembled.machine_fresh, hassembled.read, past, d, hmachine, hagree,
        hcause, ?_⟩
      rw [← hagree.calls, hmachine]
      exact ⟨hcalls, hlast, hstatuses⟩

end ApiScript
