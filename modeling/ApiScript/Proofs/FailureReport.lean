import ApiScript.Proofs.DefensiveFaults

/-!
# What the report of a failure says

A fault that has its location is passed on as it is by all statements around the one that raised it,
so where such a statement fails, the whole run fails with the same fault and in the same state. The
state of a failed run therefore names the function of the statement that failed, and the calls that
lead there from the entry function.
-/
namespace ApiScript

open Run Statement

section PassedFault

variable {fetcher : Fetcher} {program : Program} {fault : Fault} {m' : Machine}

def FailsWith (fetcher : Fetcher) (program : Program) (fault : Fault) (m' : Machine)
    (s : Statement) (m : Machine) : Prop :=
  ∃ fuel, execute fetcher program fuel s m = .failed fault m'

theorem Run.Extends.of_failed {α : Type} {x y : Run α} (h : Extends x y) {m : Machine}
    (hx : x m = .failed fault m') : y m = .failed fault m' := by
  rw [h m (by rw [hx]; rfl), hx]

theorem Run.Extends.of_done {α : Type} {x y : Run α} (h : Extends x y) {m m₁ : Machine} {a : α}
    (hx : x m = .done a m₁) : y m = .done a m₁ := by
  rw [h m (by rw [hx]; rfl), hx]

theorem failsWith_of_perform (hlocated : ∀ l, fault.locate l = fault) {s : Statement} {m : Machine}
    (fuel : Nat) (h : perform fetcher program (execute fetcher program fuel) fuel s (begun s m) =
      .failed fault m') : FailsWith fetcher program fault m' s m := by
  refine ⟨fuel + 1, ?_⟩
  have hexecute : execute fetcher program (fuel + 1) s m =
      locating s.location (perform fetcher program (execute fetcher program fuel) fuel s)
        (begun s m) := rfl
  rw [hexecute, locating, h]
  dsimp only
  rw [hlocated]

theorem nested_of_failed {x : Run Flow} {m : Machine}
    (h : x { m with depth := m.depth + 1 } = .failed fault m') :
    nested x m = .failed fault m' := by
  have henter : enterBlock m = .done () { m with depth := m.depth + 1 } := rfl
  rw [nested, bind_of_done henter]
  exact bind_of_failed h

theorem block_cons_of_failed {s : Statement} {rest : List Statement} {m m₁ : Machine}
    {fuel₁ fuel₂ : Nat} (hdone : execute fetcher program fuel₁ s m = .done .next m₁)
    (hrest : block (execute fetcher program fuel₂) rest m₁ = .failed fault m') :
    ∃ fuel, block (execute fetcher program fuel) (s :: rest) m = .failed fault m' := by
  have hfirst := (extends_execute fetcher program (Nat.le_max_left fuel₁ fuel₂) s).of_done hdone
  have hmore := extends_execute fetcher program (Nat.le_max_right fuel₁ fuel₂)
  have hothers := (extends_block hmore rest).of_failed hrest
  exact ⟨max fuel₁ fuel₂, (bind_of_done hfirst).trans hothers⟩

theorem repeatWhile_of_failed {condition : Condition} {body : List Statement} {m m₁ : Machine}
    {fuel : Nat} (htest : test condition m = .done true m₁)
    (hbody : block (execute fetcher program fuel) body m₁ = .failed fault m') :
    ∃ fuel, repeatWhile (test condition) (block (execute fetcher program fuel) body) fuel m =
      .failed fault m' := by
  have hround := (extends_block
    (fun s => extends_execute fetcher program (Nat.le_succ fuel) s) body).of_failed hbody
  refine ⟨fuel + 1, ?_⟩
  rw [repeatWhile, bind_of_done htest]
  exact bind_of_failed hround

theorem repeatWhile_of_later {condition : Condition} {body : List Statement} {m m₁ m₂ : Machine}
    {fuel₁ fuel₂ : Nat} (htest : test condition m = .done true m₁)
    (hround : block (execute fetcher program fuel₁) body m₁ = .done .next m₂)
    (hrest : repeatWhile (test condition) (block (execute fetcher program fuel₂) body) fuel₂ m₂ =
      .failed fault m') :
    ∃ fuel, repeatWhile (test condition) (block (execute fetcher program fuel) body) fuel m =
      .failed fault m' := by
  have hblock (fuel : Nat) (hle : fuel ≤ max fuel₁ fuel₂ + 1) :
      Extends (block (execute fetcher program fuel) body)
        (block (execute fetcher program (max fuel₁ fuel₂ + 1)) body) :=
    extends_block (fun s => extends_execute fetcher program hle s) body
  have hfirst := (hblock fuel₁ (by omega)).of_done hround
  have hothers := (extends_repeatWhile (test condition) (hblock fuel₂ (by omega))
    (Nat.le_max_right fuel₁ fuel₂)).of_failed hrest
  refine ⟨max fuel₁ fuel₂ + 1, ?_⟩
  rw [repeatWhile, bind_of_done htest]
  exact (bind_of_done hfirst).trans hothers

theorem failsWith_of_call (hlocated : ∀ l, fault.locate l = fault) {s : Statement} {c : Call}
    (hcalls : s.Calls c) {m : Machine} {fuel : Nat}
    (hcall : call program (execute fetcher program fuel) c (begun s m) = .failed fault m') :
    FailsWith fetcher program fault m' s m := by
  refine failsWith_of_perform hlocated fuel ?_
  rcases hcalls with hi | ⟨target, hi⟩
  · simp only [perform, hi, andNext, callAndDrop, bind_apply, machine, hcall]
  · simp only [perform, hi, andNext, callInto, bind_apply, machine, hcall]

mutual

/-- A statement fails if one that begins inside it does. -/
theorem Begins.failsWith (hlocated : ∀ l, fault.locate l = fault) {t s : Statement}
    {n m : Machine} (ht : FailsWith fetcher program fault m' t n) :
    Begins fetcher program t n s m → FailsWith fetcher program fault m' s m
  | .self => ht
  | .branch hi htest hbody => by
    obtain ⟨fuel, hfuel⟩ := hbody.failsWith hlocated ht
    refine failsWith_of_perform hlocated fuel ?_
    rw [perform, hi]
    refine nested_of_failed ?_
    exact (bind_of_done htest).trans hfuel
  | .loop hi henter hrounds => by
    obtain ⟨fuel, hfuel⟩ := hrounds.failsWith hlocated ht
    refine failsWith_of_perform hlocated fuel ?_
    rw [perform, hi]
    refine nested_of_failed ?_
    cases henter
    exact hfuel
  | .call hcalls hargs hbuiltin hsignature hfunction hcount hdepth hopen hbody => by
    obtain ⟨fuel, hfuel⟩ := hbody.failsWith hlocated ht
    have hsame := (makes_resolveAll _).eq_of_done hargs
    subst hsame
    have henters := Enters.intro hargs hbuiltin hsignature hfunction hcount hdepth hopen
    exact failsWith_of_call hlocated hcalls ((henters.call_eq _).trans (bind_of_failed hfuel))

theorem BlockBegins.failsWith (hlocated : ∀ l, fault.locate l = fault) {t : Statement}
    {statements : List Statement} {n m : Machine} (ht : FailsWith fetcher program fault m' t n) :
    BlockBegins fetcher program t n statements m →
      ∃ fuel, block (execute fetcher program fuel) statements m = .failed fault m'
  | .head hs => by
    obtain ⟨fuel, hfuel⟩ := hs.failsWith hlocated ht
    exact ⟨fuel, bind_of_failed hfuel⟩
  | .tail hdone hrest => by
    obtain ⟨fuel, hfuel⟩ := hrest.failsWith hlocated ht
    exact block_cons_of_failed hdone hfuel

theorem LoopBegins.failsWith (hlocated : ∀ l, fault.locate l = fault) {t : Statement}
    {condition : Condition} {body : List Statement} {n m : Machine}
    (ht : FailsWith fetcher program fault m' t n) :
    LoopBegins fetcher program t n condition body m →
      ∃ fuel, repeatWhile (test condition) (block (execute fetcher program fuel) body) fuel m =
        .failed fault m'
  | .inside htest hbody => by
    obtain ⟨fuel, hfuel⟩ := hbody.failsWith hlocated ht
    exact repeatWhile_of_failed htest hfuel
  | .again htest hround hrounds => by
    obtain ⟨fuel, hfuel⟩ := hrounds.failsWith hlocated ht
    exact repeatWhile_of_later htest hround hfuel

end

theorem RunBegins.run_fails (hlocated : ∀ l, fault.locate l = fault) {t : Statement}
    {n m : Machine} (h : RunBegins fetcher program m t n)
    (ht : FailsWith fetcher program fault m' t n) :
    ∃ fuel, program.run fetcher fuel m = .failed fault m' := by
  obtain ⟨main, m₁, hmain, henter, hbody⟩ := h
  obtain ⟨fuel, hfuel⟩ := hbody.failsWith hlocated ht
  refine ⟨fuel, ?_⟩
  simp only [Program.run, hmain]
  rw [bind_of_done henter]
  exact bind_of_failed hfuel

end PassedFault

namespace Assembled

variable {program : Program} {m : Machine} {fetcher : Fetcher}

/-- A run that fails leaves off inside a statement that begins in it, whose location it reports. -/
theorem exists_situated_of_run (h : Assembled program m)
    (hmain : (program.function? entryFunction).isSome = true) {fuel : Nat} {fault : Fault}
    {m' : Machine} (hrun : program.run fetcher fuel m = .failed fault m') :
    ∃ t n, RunBegins fetcher program m t n ∧ Situated program t m' ∧
      Mistake (fun _ => True) program t (begun t n) ⟨fault.cause, none⟩ ∧
      fault.location = some t.location := by
  obtain ⟨t, n, hbegins, _, raised, -, hslip, rfl⟩ := exists_raised_of_run hrun hmain
  have hmistake := h.mistake Value.closed_trivial hbegins hslip
  obtain ⟨cause, location⟩ := raised
  obtain rfl : location = none := hmistake.location
  obtain ⟨hscope, hcallers, hframes⟩ := hslip.stays
  exact ⟨t, n, hbegins, (h.situated hbegins).of_stays hscope hcallers hframes, hmistake, rfl⟩

/-- A call is rejected for its depth exactly if it is right and has as many callers as there may
be. -/
theorem rejected_callDepth_iff (h : Assembled program m) {t : Statement} {n : Machine}
    (hbegins : RunBegins fetcher program m t n) {c : Call} (hcalls : t.Calls c) {args : List Value}
    (hargs : resolveAll c.args (begun t n) = .done args (begun t n)) :
    Rejected fetcher program t n (.callDepth maxCallDepth) ↔
      ∃ signature, program.Declares signature ∧ signature.name = c.name ∧
        signature.params.length = c.args.length ∧ n.callers.length = maxCallDepth := by
  have hbound := (h.situated hbegins).bound
  have hcallers : (begun t n).callers = n.callers := rfl
  rw [h.rejected_iff hbegins hcalls hargs rfl]
  rcases h.refusal?_eq (signatures_begun hbegins) c.name c.args.length with
    ⟨signature, hdeclares, hname, hrefusal⟩ | ⟨hnot, hrefusal⟩
  · rw [hrefusal, hcallers]
    constructor
    · rintro ⟨-, hdepth⟩
      split at hdepth
      · cases hdepth
      next hcount =>
      split at hdepth
      · next hfull =>
        exact ⟨signature, hdeclares, hname, not_not.1 hcount, Nat.le_antisymm hbound hfull⟩
      · cases hdepth
    · rintro ⟨other, hother, hothername, hcount, hfull⟩
      obtain rfl := h.declares_unique hother hdeclares (hothername.trans hname.symm)
      rw [if_neg (not_not.2 hcount), if_pos (Nat.le_of_eq hfull.symm)]
      exact ⟨hname ▸ h.isBuiltin_of_declares hother, rfl⟩
  · rw [hrefusal]
    constructor
    · rintro ⟨-, hdepth⟩
      cases hdepth
    · rintro ⟨signature, hdeclares, hname, -⟩
      exact absurd hname (hnot signature hdeclares)

/-- A run fails for the depth of its calls if a call in it is rejected for that, and only then. -/
theorem run_fails_callDepth_iff (h : Assembled program m)
    (hmain : (program.function? entryFunction).isSome = true) :
    (∃ fuel fault m', program.run fetcher fuel m = .failed fault m' ∧
      fault.cause = .callDepth maxCallDepth) ↔
    ∃ t n c args, RunBegins fetcher program m t n ∧ t.Calls c ∧
      resolveAll c.args (begun t n) = .done args (begun t n) ∧
      Rejected fetcher program t n (.callDepth maxCallDepth) := by
  constructor
  · rintro ⟨fuel, fault, m', hrun, hcause⟩
    obtain ⟨t, n, hbegins, -, hmistake, -⟩ := h.exists_situated_of_run hmain hrun
    rw [hcause] at hmistake
    obtain ⟨c, args, hcalls, hargs, hbuiltin, hrefused⟩ := hmistake.refused_of_origin rfl
    refine ⟨t, n, c, args, hbegins, hcalls, hargs, ?_⟩
    rw [h.rejected_iff hbegins hcalls hargs rfl, ← h.isBuiltin_begun hbegins,
      ← length_of_resolveAll hargs]
    exact ⟨hbuiltin, hrefused⟩
  · rintro ⟨t, n, c, args, hbegins, -, -, -, hfailed⟩
    obtain ⟨fuel, hrun⟩ := hbegins.run_fails (fun _ => rfl) hfailed
    exact ⟨fuel, _, _, hrun, rfl⟩

end Assembled

/-- When a run of an assembled program with an entry function fails, the fault has the location of a
statement in the function at hand. This function was called from the entry function by way of the
callers, of which there are at most 255, and there is a frame for each of these functions. The depth
of the calls is a cause exactly if a right call of a defined function has 255 callers. -/
theorem failure_reports_name_the_place {input : List InputLine} {sources : List (String × String)}
    {program : Program} {m : Machine}
    (h : ({ input } : Machine).assemble sources = (.ok program, m))
    (hmain : (program.function? entryFunction).isSome = true) (fetcher : Fetcher) :
    (∀ fuel fault m', program.run fetcher fuel m = .failed fault m' →
      (∃ function s, program.function? m'.scope = some function ∧ s ∈ preorder function.body ∧
        fault.location = some s.location) ∧
      (m'.callers.reverse ++ [m'.scope]).head? = some entryFunction ∧
      (m'.callers.reverse ++ [m'.scope]).IsChain program.CallsFrom ∧
      m'.callers.length ≤ 255 ∧ m'.store.frames.length = m'.callers.length + 1) ∧
    (∀ t n c args, RunBegins fetcher program m t n → t.Calls c →
      resolveAll c.args (begun t n) = .done args (begun t n) →
      (Rejected fetcher program t n (.callDepth 255) ↔
        ∃ signature, program.Declares signature ∧ signature.name = c.name ∧
          signature.params.length = c.args.length ∧ n.callers.length = 255)) ∧
    ((∃ fuel fault m', program.run fetcher fuel m = .failed fault m' ∧
        fault.cause = .callDepth 255) ↔
      ∃ t n c args signature, RunBegins fetcher program m t n ∧ t.Calls c ∧
        resolveAll c.args (begun t n) = .done args (begun t n) ∧ program.Declares signature ∧
        signature.name = c.name ∧ signature.params.length = c.args.length ∧
        n.callers.length = 255) := by
  have hassembled := assembled_of_assemble h
  refine ⟨?_, fun t n c args hbegins hcalls hargs =>
    hassembled.rejected_callDepth_iff hbegins hcalls hargs, ?_⟩
  · intro fuel fault m' hrun
    obtain ⟨t, n, hbegins, hsituated, -, hlocation⟩ := hassembled.exists_situated_of_run hmain hrun
    obtain ⟨function, hfunction, ht⟩ := hsituated.scope
    have hreverse : m'.callers.reverse ++ [m'.scope] = (m'.scope :: m'.callers).reverse :=
      List.reverse_cons.symm
    refine ⟨⟨function, t, hfunction, ht, hlocation⟩, ?_, ?_, hsituated.bound, hsituated.frames⟩
    · rw [hreverse, List.head?_reverse]
      exact hsituated.entry
    · rw [hreverse, List.isChain_reverse]
      exact hsituated.chain
  · refine (hassembled.run_fails_callDepth_iff hmain).trans ?_
    constructor
    · rintro ⟨t, n, c, args, hbegins, hcalls, hargs, hrejected⟩
      obtain ⟨signature, hsignature⟩ :=
        (hassembled.rejected_callDepth_iff hbegins hcalls hargs).1 hrejected
      exact ⟨t, n, c, args, signature, hbegins, hcalls, hargs, hsignature⟩
    · rintro ⟨t, n, c, args, signature, hbegins, hcalls, hargs, hsignature⟩
      have hrejected := (hassembled.rejected_callDepth_iff hbegins hcalls hargs).2
        ⟨signature, hsignature⟩
      exact ⟨t, n, c, args, hbegins, hcalls, hargs, hrejected⟩

def divingProgram : Program :=
  let line (number : Nat) : Location := ⟨number, "dive.neb"⟩
  ⟨[⟨.define ⟨"Main", [], none⟩, line 1,
      [.leaf (.call ⟨"dive", [.literal "deep"]⟩) (line 2)], []⟩,
    ⟨.define ⟨"dive", ["how"], none⟩, line 4,
      [⟨.branch ⟨false, .declared "how"⟩, line 5,
        [.leaf (.call ⟨"dive", [.name "how"]⟩) (line 6)], []⟩], []⟩]⟩

theorem diving_fails_at_depth_limit :
    let sources := [("dive.neb",
      "def Main():\ndive('deep')\nend\ndef dive(how):\nif how\ndive(how)\nend\nend")]
    let m := (({} : Machine).assemble sources).2
    ({} : Machine).assemble sources = (.ok divingProgram, m) ∧
      (divingProgram.function? entryFunction).isSome = true ∧
      ∃ fault m', divingProgram.run (fun _ _ => {}) 600 m = .failed fault m' ∧
        fault.cause = .callDepth 255 ∧ m'.callers.length ≤ 255 ∧
        (∃ function s, divingProgram.function? m'.scope = some function ∧
          s ∈ preorder function.body ∧ fault.location = some s.location) ∧
        ∃ t n c args signature, RunBegins (fun _ _ => {}) divingProgram m t n ∧ t.Calls c ∧
          resolveAll c.args (begun t n) = .done args (begun t n) ∧
          divingProgram.Declares signature ∧ signature.name = c.name ∧
          signature.params.length = c.args.length ∧ n.callers.length = 255 := by
  intro sources m
  have hassemble : ({} : Machine).assemble sources = (.ok divingProgram, m) := rfl
  have hmain : (divingProgram.function? entryFunction).isSome = true := rfl
  have hcause : (divingProgram.run (fun _ _ => {}) 600 m).cause? = some (.callDepth 255) := by
    decide +kernel
  obtain ⟨fault, m', hrun, hfault⟩ := Outcome.exists_of_cause? hcause
  obtain ⟨hreport, -, hdepth⟩ := failure_reports_name_the_place hassemble hmain fun _ _ => {}
  obtain ⟨hplace, -, -, hcallers, -⟩ := hreport 600 fault m' hrun
  have hcall := hdepth.1 ⟨600, fault, m', hrun, hfault⟩
  exact ⟨hassemble, hmain, fault, m', hrun, hfault, hcallers, hplace, hcall⟩

end ApiScript
