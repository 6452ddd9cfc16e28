import ApiScript.Proofs.FailureReport
import ApiScript.Proofs.FrameWrites

/-!
# What `del` deletes

A name stands for a pending request before it stands for a symbol of the current frame. So `del`
removes the request if there is one, and else the symbol with its record; a symbol that shares its
name with a request outlives the first `del`. Everything else in the store stays.
-/
namespace ApiScript

open Run

namespace Store

variable {s : Store} {name : String}

structure Deletes (name : String) (s t : Store) : Prop where
  request : t.isRequest name = false
  /-- A request is deleted in place of a symbol with its name. -/
  symbol : t.symbol? name = if s.isRequest name then s.symbol? name else none
  symbols (other : String) : other ≠ name → t.symbol? other = s.symbol? other
  requests (other : String) : other ≠ name → t.requests.get? other = s.requests.get? other
  outer : t.frames.tail = s.frames.tail
  frames : t.frames.length = s.frames.length
  signatures : t.signatures = s.signatures
  /-- Only the record of a symbol that is deleted goes. -/
  records : t.records = s.records.filter fun r =>
    s.isRequest name || r.name != name || r.frame + 1 != s.frames.length

theorem deletes_eraseRequest (h : s.isRequest name = true) :
    s.Deletes name (s.eraseRequest name) where
  request := by simp [isRequest, eraseRequest, Table.contains]
  symbol := by rw [if_pos h]; rfl
  symbols _ _ := rfl
  requests other hne := by simp [eraseRequest, hne]
  outer := rfl
  frames := rfl
  signatures := rfl
  records := by simp [h, eraseRequest]

theorem deletes_eraseSymbol (hrequest : s.isRequest name = false)
    (hdeclares : s.declares name = true) : s.Deletes name (s.eraseSymbol name) := by
  have hsymbol := symbol?_eraseSymbol s name
  obtain ⟨frames, requests, signatures, records⟩ := s
  cases frames with
  | nil => cases hdeclares
  | cons frame outer =>
    have hcontains : frame.contains name = true := hdeclares
    have herased : (⟨frame :: outer, requests, signatures, records⟩ : Store).eraseSymbol name =
        { frames := frame.erase name :: outer
          requests
          signatures
          records := records.filter fun r => r.frame != outer.length || r.name != name } := by
      simp [eraseSymbol, hcontains]
    refine ⟨?_, ?_, ?_, ?_, ?_, ?_, ?_, ?_⟩
    · rw [herased]
      exact hrequest
    · rw [hsymbol name, if_pos rfl, hrequest]
      rfl
    · intro other hne
      rw [hsymbol other, if_neg hne]
    · intro other _
      rw [herased]
    · rw [herased]
      rfl
    · rw [herased]
      rfl
    · rw [herased]
    · rw [herased, hrequest]
      apply List.filter_congr
      intro r _
      simp [Bool.or_comm]

theorem Deletes.declares_iff {t : Store} (h : s.Deletes name t) :
    t.declares name = true ↔ s.isRequest name = true ∧ s.declares name = true := by
  rw [declares_eq_isSome, declares_eq_isSome, h.symbol]
  by_cases hrequest : s.isRequest name = true <;> simp [hrequest]

end Store

section Execution

variable {fetcher : Fetcher} {program : Program} {fuel : Nat} {s : Statement} {name : String}
  {m : Machine}

theorem execute_delete (hs : s.instruction = .delete name) :
    execute fetcher program (fuel + 1) s m =
      if m.store.isRequest name then
        .done .next { begun s m with store := m.store.eraseRequest name }
      else if m.store.declares name then
        .done .next { begun s m with store := m.store.eraseSymbol name }
      else .failed ⟨.undeclaredSymbol name, some s.location⟩ (begun s m) := by
  have hexecute : execute fetcher program (fuel + 1) s m =
      locating s.location (andNext (delete name)) (begun s m) := by
    rw [execute_succ, perform, hs]
  have hstore : (begun s m).store = m.store := rfl
  rw [hexecute, locating, andNext, bind_apply, delete, onStore, hstore]
  by_cases hrequest : m.store.isRequest name = true
  · rw [if_pos hrequest, if_pos hrequest]
    rfl
  · rw [if_neg hrequest, if_neg hrequest]
    by_cases hdeclares : m.store.declares name = true
    · rw [if_pos hdeclares, if_pos hdeclares]
      rfl
    · rw [if_neg hdeclares, if_neg hdeclares]
      rfl

/-- In every reachable state, `del` of a pending request or of a symbol of the current frame
succeeds and deletes the one or else the other. The name is then no pending request, and it is
declared only if it was both before; a test for the name tells which. With any other name it fails,
with the store as it was, and so does the run. -/
theorem deletions_are_exact (hm : Reachable m) (hs : s.instruction = .delete name)
    (fetcher : Fetcher) (program : Program) (fuel : Nat) :
    (m.store.isRequest name = true ∨ m.store.declares name = true →
      ∃ store, execute fetcher program (fuel + 1) s m = .done .next { begun s m with store } ∧
        m.store.Deletes name store ∧ store.Recorded ∧
        (store.declares name = true ↔
          m.store.isRequest name = true ∧ m.store.declares name = true) ∧
        test ⟨false, .declared name⟩ { begun s m with store } =
          .done (store.declares name) { begun s m with store }) ∧
    (m.store.isRequest name = false → m.store.declares name = false →
      execute fetcher program (fuel + 1) s m =
          .failed ⟨.undeclaredSymbol name, some s.location⟩ (begun s m) ∧
        ∀ m₀, RunBegins fetcher program m₀ s m →
          ∃ fuel, program.run fetcher fuel m₀ =
            .failed ⟨.undeclaredSymbol name, some s.location⟩ (begun s m)) := by
  have hrecorded := hm.recorded
  have htest (n : Machine) :
      test ⟨false, .declared name⟩ n = .done (n.store.declares name) n := by
    simp [test, machine]
  constructor
  · intro hname
    cases hrequest : m.store.isRequest name with
    | true =>
      have hdeletes := Store.deletes_eraseRequest hrequest
      refine ⟨_, ?_, hdeletes, hrecorded, ?_, htest _⟩
      · rw [execute_delete hs, if_pos hrequest]
      · rw [hdeletes.declares_iff, hrequest]
    | false =>
      have hdeclares : m.store.declares name = true := by simpa [hrequest] using hname
      have hdeletes := Store.deletes_eraseSymbol hrequest hdeclares
      refine ⟨_, ?_, hdeletes, hrecorded.eraseSymbol name, ?_, htest _⟩
      · rw [execute_delete hs, hrequest, if_neg Bool.false_ne_true, if_pos hdeclares]
      · rw [hdeletes.declares_iff, hrequest]
  · intro hrequest hdeclares
    have hfails (fuel : Nat) : execute fetcher program (fuel + 1) s m =
        .failed ⟨.undeclaredSymbol name, some s.location⟩ (begun s m) := by
      rw [execute_delete hs, hrequest, if_neg Bool.false_ne_true, hdeclares,
        if_neg Bool.false_ne_true]
    refine ⟨hfails fuel, ?_⟩
    intro m₀ hbegins
    exact hbegins.run_fails (fun _ => rfl) ⟨1, hfails 0⟩

end Execution

def sharingMain : Statement :=
  let line (number : Nat) : Location := ⟨number, "shared.neb"⟩
  ⟨.define ⟨"Main", [], none⟩, line 1,
    [.leaf (.assign "u" (.number "1") false) (line 2),
      .leaf (.request ⟨"u", "https://a.b", "GET", 5000, false⟩) (line 3),
      .leaf (.delete "u") (line 4), .leaf (.delete "v") (line 5)], []⟩

/-- The first `del` takes the request away and leaves the symbol. The second one knows nothing of
its name and ends the run. -/
theorem sharingMain_deletes_request :
    let fetcher : Fetcher := fun _ _ => {}
    let program : Program := ⟨[sharingMain]⟩
    let state (count : Nat) := (program.opening fetcher 1 sharingMain {} count).machine
    let s : Statement := .leaf (.delete "u") ⟨4, "shared.neb"⟩
    let t : Statement := .leaf (.delete "v") ⟨5, "shared.neb"⟩
    Reachable (state 2) ∧ (state 2).store.isRequest "u" = true ∧
      (state 2).store.declares "u" = true ∧
      (∃ store, execute fetcher program 1 s (state 2) =
          .done .next { begun s (state 2) with store } ∧
        (state 2).store.Deletes "u" store ∧ store.Recorded ∧ store.declares "u" = true) ∧
      (state 3).store.isRequest "v" = false ∧ (state 3).store.declares "v" = false ∧
      ∃ fuel m', program.run fetcher fuel {} =
        .failed ⟨.undeclaredSymbol "v", some t.location⟩ m' := by
  intro fetcher program state s t
  have hmain : program.function? entryFunction = some sharingMain := rfl
  have hreachable {u : Statement} {n : Machine} (h : RunBegins fetcher program {} u n) :
      Reachable n := by
    obtain ⟨main, m₁, hmain, henter, hbegins⟩ := h
    exact .begins (.fresh []) hmain henter hbegins
  have hs : RunBegins fetcher program {} s (state 2) :=
    .of_opening hmain rfl (by decide +kernel)
  have ht : RunBegins fetcher program {} t (state 3) :=
    .of_opening hmain rfl (by decide +kernel)
  have hnames : (state 2).store.isRequest "u" = true ∧ (state 2).store.declares "u" = true ∧
      (state 3).store.isRequest "v" = false ∧ (state 3).store.declares "v" = false := by
    decide +kernel
  obtain ⟨hrequest, hdeclares, hother, habsent⟩ := hnames
  have hu : s.instruction = .delete "u" := rfl
  have hv : t.instruction = .delete "v" := rfl
  obtain ⟨hdeletes, -⟩ := deletions_are_exact (hreachable hs) hu fetcher program 0
  obtain ⟨-, hfails⟩ := deletions_are_exact (hreachable ht) hv fetcher program 0
  obtain ⟨store, hdone, hstore, hrecorded, hstays, -⟩ := hdeletes (.inl hrequest)
  obtain ⟨fuel, hrun⟩ := (hfails hother habsent).2 {} ht
  have hstill : store.declares "u" = true := hstays.2 ⟨hrequest, hdeclares⟩
  exact ⟨hreachable hs, hrequest, hdeclares, ⟨store, hdone, hstore, hrecorded, hstill⟩, hother,
    habsent, fuel, _, hrun⟩

/-- A name that is both a symbol and a pending request is still declared after its `del`. -/
theorem deleted_request_leaves_symbol :
    let assembled := ({} : Machine).assemble [("shared.neb",
      "def Main():\nvar u = 1\nurl u = \x7b endpoint: 'https://a.b' \x7d\ndel u\nif u\n" ++
        "print 'still'\nend\nend")]
    let last := (assembled.1.toOption.getD ⟨[]⟩).run (fun _ _ => {}) 9 assembled.2
    last.isDone = true ∧ last.machine.output = ["still"] := by
  decide +kernel

end ApiScript
