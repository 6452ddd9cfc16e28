import ApiScript.Proofs.AssembledProgram
import ApiScript.Proofs.Fuel
import ApiScript.Proofs.SoundRuns

/-!
# Assembled programs and defensive faults

Some causes guard against programs and machines that assembling never makes. A run of an assembled
program fails for no such cause. A call whose arguments have values is rejected before its function
is entered if the program does not define the function, or defines it with another number of
parameters.
-/
namespace ApiScript

open Run Statement

namespace Value

theorem origin_of_numberOf {text : String} {cause : Cause}
    (h : numberOf text = .error cause) : cause.origin = .number := by
  unfold numberOf at h
  split at h
  · cases h
  · cases h
    rfl

theorem origin_of_orderNumbers {lhs rhs : String} {cause : Cause}
    (h : orderNumbers lhs rhs = .error cause) : cause.origin = .number := by
  unfold orderNumbers at h
  cases hl : numberOf lhs with
  | error first =>
    rw [hl] at h
    cases h
    exact origin_of_numberOf hl
  | ok l =>
    cases hr : numberOf rhs with
    | error second =>
      rw [hl, hr] at h
      cases h
      exact origin_of_numberOf hr
    | ok r =>
      rw [hl, hr] at h
      dsimp only [bind, Except.bind] at h
      split at h
      · cases h
      · cases h
        rfl

theorem origin_of_order {kind : Kind} {lhs rhs : String} {cause : Cause}
    (h : order kind lhs rhs = .error cause) : cause.origin = .number := by
  cases kind with
  | str => cases h
  | num => exact origin_of_orderNumbers h

theorem origin_of_compare {l r : Value} {op : Comparison} {cause : Cause}
    (h : l.compare op r = .error cause) : cause.origin = .statement ∨ cause.origin = .number := by
  have horder (h : (order l.kind l.text r.text).map op.admits = .error cause) :
      cause.origin = .number := by
    cases hend : order l.kind l.text r.text with
    | ok o =>
      rw [hend] at h
      cases h
    | error cause' =>
      rw [hend] at h
      cases h
      exact origin_of_order hend
  unfold compare at h
  split at h
  · cases h
    exact .inl rfl
  · cases op with
    | equal => cases h
    | notEqual => cases h
    | _ => exact .inr (horder h)

end Value

theorem Misstep.origin {good : Value → Prop} {fault : Fault} (h : Misstep good fault) :
    fault.cause.origin = .statement ∨ fault.cause.origin = .number := by
  cases h with
  | ordinary hcause => exact .inl hcause
  | comparison _ _ hcompare => exact Value.origin_of_compare hcompare
  | number _ _ hnumber => exact .inr (Value.origin_of_numberOf hnumber)

theorem Program.origin_of_refusal? {program : Program} {m : Machine} {name : String}
    {count : Nat} {cause : Cause} (h : program.refusal? m name count = some cause) :
    cause.origin = .call := by
  unfold refusal? Store.signature at h
  split at h
  · next hsignature =>
    cases h
    split at hsignature <;> cases hsignature
    rfl
  split at h
  · cases h
    rfl
  split at h
  · cases h
    rfl
  split at h
  · cases h
    rfl
  · cases h

theorem Statement.Inner.isBoundary {s : Statement} (h : s.Inner) :
    s.instruction.isBoundary = false := by
  cases h with
  | simple hsimple => exact Assembly.isBoundary_of_isSimple hsimple
  | loop => rfl
  | branch => rfl

theorem Mistake.origin_ne_defensive {good : Value → Prop} {program : Program} {s : Statement}
    {m : Machine} {fault : Fault} (h : Mistake good program s m fault) (hs : s.Inner) :
    fault.cause.origin ≠ .defensive := by
  cases h with
  | misstep h => rcases h.origin with horigin | horigin <;> simp [horigin]
  | boundary hboundary => simp [hs.isBoundary] at hboundary
  | conversion => exact nofun
  | refused _ _ _ hrefused => simp [Program.origin_of_refusal? hrefused]

/-- Only a call that is refused fails for a cause to refuse one. -/
theorem Mistake.refused_of_origin {good : Value → Prop} {program : Program} {s : Statement}
    {m : Machine} {fault : Fault} (h : Mistake good program s m fault)
    (horigin : fault.cause.origin = .call) :
    ∃ c args, s.Calls c ∧ resolveAll c.args m = .done args m ∧ m.isBuiltin c.name = false ∧
      program.refusal? m c.name args.length = some fault.cause := by
  cases h with
  | misstep h => rcases h.origin with hother | hother <;> simp [hother] at horigin
  | boundary => cases horigin
  | conversion => cases horigin
  | refused hcalls hargs hbuiltin hrefused =>
    exact ⟨_, _, hcalls, hargs, hbuiltin, hrefused⟩

theorem Statement.Calls.unique {s : Statement} {c d : Call} (hc : s.Calls c) (hd : s.Calls d) :
    c = d := by
  rcases hc with hc | ⟨target, hc⟩
  · rcases hd with hd | ⟨target, hd⟩
    · rw [hc] at hd
      cases hd
      rfl
    · rw [hc] at hd
      cases hd
  · rcases hd with hd | ⟨target, hd⟩
    · rw [hc] at hd
      cases hd
    · rw [hc] at hd
      cases hd
      rfl

theorem Program.IsRead.isWritten {program : Program} (h : program.IsRead) : program.IsWritten := by
  intro s hs
  obtain ⟨raw, hraw⟩ := h s hs
  exact Instruction.isWritten_of_read? hraw

section Signatures

variable {fetcher : Fetcher} {program : Program}

/-- No statement changes the signatures. -/
theorem passedOn_signatures (fetcher : Fetcher) (program : Program)
    (signatures : Table (List String)) :
    PassedOn fetcher program fun _ m => m.store.signatures = signatures where
  inside hs _ := hs
  entered hs := hs
  tested hs _ htest :=
    (congrArg Store.signatures ((makes_test _).keeps _ _ _ htest).store).trans hs
  executed _ ht hdone :=
    (congrArg Store.signatures (keeps_execute _ _ _ _ _ _ _ hdone).store).trans ht
  called hs _ _ _ _ hopen _ := (congrArg Store.signatures (openFrame_eq_done hopen).1).trans hs

/-- What is executed by a statement has at least the callers of that statement. -/
theorem passedOn_callers (fetcher : Fetcher) (program : Program) (count : Nat) :
    PassedOn fetcher program fun _ m => count ≤ m.callers.length where
  inside hs _ := hs
  entered hs := hs
  tested hs _ htest := ((makes_test _).keeps _ _ _ htest).callers ▸ hs
  executed _ ht hdone := (keeps_execute _ _ _ _ _ _ _ hdone).callers ▸ ht
  called := by
    intro s t function m m₁ c args params hs _ _ _ _ hopen _
    obtain ⟨-, -, -, hcallers, -⟩ := openFrame_eq_done hopen
    rw [hcallers]
    exact Nat.le_succ_of_le hs

end Signatures

/-- The statement fails in the state that it begins in, before anything inside it or in a function
that it calls is executed. -/
def Rejected (fetcher : Fetcher) (program : Program) (t : Statement) (n : Machine)
    (cause : Cause) : Prop :=
  EndsIn (fun fuel => execute fetcher program fuel t) n
    (.failed ⟨cause, some t.location⟩ (begun t n))

namespace Run

variable {program : Program} {c : Call} {args : List Value} {cause : Cause} {m : Machine}

theorem length_of_resolveAll {operands : List Operand} {values : List Value} {m m' : Machine}
    (h : resolveAll operands m = .done values m') : values.length = operands.length := by
  induction operands generalizing values m with
  | nil =>
    cases h
    rfl
  | cons operand rest ih =>
    obtain ⟨value, m₁, -, h⟩ := bind_eq_done h
    obtain ⟨others, m₂, hrest, hpure⟩ := bind_eq_done h
    cases hpure
    rw [List.length_cons, List.length_cons, ih hrest]

theorem call_of_refused (exec : Statement → Run Flow) (hargs : resolveAll c.args m = .done args m)
    (hbuiltin : m.isBuiltin c.name = false)
    (hrefused : program.refusal? m c.name args.length = some cause) :
    call program exec c m = .failed ⟨cause, none⟩ m := by
  have hget : m.builtins.get? c.name = none := by
    simpa [Machine.isBuiltin, Table.contains] using hbuiltin
  rw [call, bind_apply, hargs]
  dsimp only
  rw [bind_apply, machine]
  dsimp only
  rw [hget]
  dsimp only
  rcases callFunction_cases program c.name args m with
    ⟨cause', hrefused', hfailed⟩ | ⟨hnone, -⟩
  · rw [hrefused] at hrefused'
    cases hrefused'
    exact hfailed exec
  · rw [hrefused] at hnone
    cases hnone

theorem execute_of_refused (fetcher : Fetcher) (fuel : Nat) {s : Statement} (hcalls : s.Calls c)
    (hargs : resolveAll c.args (begun s m) = .done args (begun s m))
    (hbuiltin : (begun s m).isBuiltin c.name = false)
    (hrefused : program.refusal? (begun s m) c.name args.length = some cause) :
    execute fetcher program (fuel + 1) s m =
      .failed ⟨cause, some s.location⟩ (begun s m) := by
  have hcall := call_of_refused (execute fetcher program fuel) hargs hbuiltin hrefused
  have hperform : perform fetcher program (execute fetcher program fuel) fuel s (begun s m) =
      .failed ⟨cause, none⟩ (begun s m) := by
    rcases hcalls with hi | ⟨target, hi⟩
    · simp only [perform, hi, andNext, callAndDrop, bind_apply, machine, hcall]
    · simp only [perform, hi, andNext, callInto, bind_apply, machine, hcall]
  have hexecute : execute fetcher program (fuel + 1) s m =
      locating s.location (perform fetcher program (execute fetcher program fuel) fuel s)
        (begun s m) := rfl
  rw [hexecute, locating, hperform]
  rfl

end Run

namespace Assembled

variable {program : Program} {m : Machine} {fetcher : Fetcher} {t : Statement} {n : Machine}

theorem isBuiltin (h : Assembled program m) : m.isBuiltin = Builtin.standard.contains := by
  obtain ⟨input, signatures, rfl⟩ := h.fresh
  rfl

theorem sound (h : Assembled program m) {good : Value → Prop} (hgood : Value.Closed good)
    (hbegins : RunBegins fetcher program m t n) : t.IsWritten ∧ Sound good n := by
  have hwritten := h.read.isWritten
  obtain ⟨input, signatures, rfl⟩ := h.fresh
  refine sound_of_runBegins hgood hwritten ⟨List.cons_ne_nil _ _, ?_⟩ ?_ rfl hbegins
  · intro frame hframe name symbol hget
    rw [List.mem_singleton.1 hframe] at hget
    cases hget
  · intro value hvalue
    cases hvalue

theorem situated (h : Assembled program m) (hbegins : RunBegins fetcher program m t n) :
    Situated program t n := by
  obtain ⟨input, signatures, rfl⟩ := h.fresh
  exact situated_of_runBegins rfl rfl hbegins

theorem inner (h : Assembled program m) (hbegins : RunBegins fetcher program m t n) : t.Inner := by
  obtain ⟨function, hfunction, ht⟩ := (h.situated hbegins).scope
  exact h.inner_of_function? hfunction ht

theorem signatures_begun (hbegins : RunBegins fetcher program m t n) :
    (begun t n).store.signatures = m.store.signatures := by
  change n.store.signatures = m.store.signatures
  refine (passedOn_signatures fetcher program m.store.signatures).runBegins ?_ hbegins
  intro main m₁ _ henter _ _
  cases henter
  rfl

theorem isBuiltin_begun (h : Assembled program m) (hbegins : RunBegins fetcher program m t n)
    (name : String) : (begun t n).isBuiltin name = m.isBuiltin name := by
  have hbuiltins := (h.sound Value.closed_trivial hbegins).2.builtins
  rw [h.isBuiltin, Machine.isBuiltin, begun, hbuiltins]

/-- A statement that slips makes a mistake. -/
theorem mistake (h : Assembled program m) {good : Value → Prop} (hgood : Value.Closed good)
    (hbegins : RunBegins fetcher program m t n) {raised : Fault} {m' : Machine}
    (hslip : Slip fetcher program t (begun t n) raised m') :
    Mistake good program t (begun t n) raised := by
  obtain ⟨hwritten, hsound⟩ := h.sound hgood hbegins
  exact hslip.mistake hgood h.read.isWritten hwritten (hsound.begun t)

theorem origin_of_run (h : Assembled program m) {fuel : Nat} {fault : Fault} {m' : Machine}
    (hrun : program.run fetcher fuel m = .failed fault m') : fault.cause.origin ≠ .defensive := by
  cases hmain : program.function? entryFunction with
  | none =>
    simp only [Program.run, hmain] at hrun
    cases hrun
    exact nofun
  | some main =>
    have hsome : (program.function? entryFunction).isSome = true := by rw [hmain]; rfl
    obtain ⟨t, n, hbegins, fuel, raised, -, hslip, rfl⟩ := exists_raised_of_run hrun hsome
    exact (h.mistake Value.closed_trivial hbegins hslip).origin_ne_defensive (h.inner hbegins)

/-- A call is rejected for the reason that its function has for refusing it. -/
theorem rejected_iff (h : Assembled program m) (hbegins : RunBegins fetcher program m t n)
    {c : Call} (hcalls : t.Calls c) {args : List Value}
    (hargs : resolveAll c.args (begun t n) = .done args (begun t n)) {cause : Cause}
    (horigin : cause.origin = .call) :
    Rejected fetcher program t n cause ↔ m.isBuiltin c.name = false ∧
      program.refusal? (begun t n) c.name c.args.length = some cause := by
  have hlength := length_of_resolveAll hargs
  constructor
  · rintro ⟨-, fuel, hfailed⟩
    obtain ⟨u, n', hinside, _, raised, -, hslip, hlocated⟩ :=
      blames_execute fetcher program fuel t n _ _ hfailed
    have hraised : raised.cause = cause := (congrArg Fault.cause hlocated).symm
    cases hinside with
    | self =>
      have hmistake := h.mistake Value.closed_trivial hbegins hslip
      obtain ⟨d, args', hcalls', hargs', hbuiltin, hrefused⟩ :=
        hmistake.refused_of_origin (by rwa [hraised])
      obtain rfl := hcalls'.unique hcalls
      rw [hargs] at hargs'
      cases hargs'
      rw [hraised, hlength] at hrefused
      exact ⟨(h.isBuiltin_begun hbegins _).symm.trans hbuiltin, hrefused⟩
    | branch hi =>
      rcases hcalls with hc | ⟨target, hc⟩ <;> simp [hc] at hi
    | loop hi =>
      rcases hcalls with hc | ⟨target, hc⟩ <;> simp [hc] at hi
    | call hcalls' hargs' _ _ _ _ _ hopen hbody =>
      -- inside the function there is one more caller
      exfalso
      have hbegun := (makes_resolveAll _).eq_of_done hargs'
      obtain ⟨-, -, -, hcallers, -⟩ := openFrame_eq_done hopen
      have hdeeper : n.callers.length + 1 ≤ n'.callers.length := by
        refine (passedOn_callers fetcher program _).blockBegins (fun s hs => ?_) hbody
        rw [hcallers, hbegun]
        exact Nat.le_refl _
      obtain ⟨-, hsame, -⟩ := hslip.stays
      have hlength : n.callers.length = n'.callers.length := congrArg List.length hsame
      omega
  · rintro ⟨hbuiltin, hrefused⟩
    refine ⟨rfl, 1, execute_of_refused fetcher 0 hcalls hargs ?_ (hlength ▸ hrefused)⟩
    rw [h.isBuiltin_begun hbegins]
    exact hbuiltin

theorem isBuiltin_of_declares (h : Assembled program m) {signature : Signature}
    (hdeclares : program.Declares signature) : m.isBuiltin signature.name = false :=
  h.free _ ((mem_definedNames _).2 ⟨signature, hdeclares, rfl⟩)

theorem rejected_argumentCount_iff (h : Assembled program m)
    (hbegins : RunBegins fetcher program m t n) {c : Call} (hcalls : t.Calls c) {args : List Value}
    (hargs : resolveAll c.args (begun t n) = .done args (begun t n)) :
    Rejected fetcher program t n (.argumentCount c.name) ↔
      ∃ signature, program.Declares signature ∧ signature.name = c.name ∧
        c.args.length ≠ signature.params.length := by
  rw [h.rejected_iff hbegins hcalls hargs rfl]
  rcases h.refusal?_eq (signatures_begun hbegins) c.name c.args.length with
    ⟨signature, hdeclares, hname, hrefusal⟩ | ⟨hnot, hrefusal⟩
  · rw [hrefusal]
    constructor
    · rintro ⟨-, hcount⟩
      refine ⟨signature, hdeclares, hname, fun heq => ?_⟩
      rw [if_neg (not_not.2 heq.symm)] at hcount
      split at hcount <;> cases hcount
    · rintro ⟨other, hother, hothername, hcount⟩
      obtain rfl := h.declares_unique hother hdeclares (hothername.trans hname.symm)
      exact ⟨hname ▸ h.isBuiltin_of_declares hother, if_pos hcount.symm⟩
  · rw [hrefusal]
    constructor
    · rintro ⟨-, hcount⟩
      cases hcount
    · rintro ⟨signature, hdeclares, hname, -⟩
      exact absurd hname (hnot signature hdeclares)

theorem rejected_undeclaredFunction_iff (h : Assembled program m)
    (hbegins : RunBegins fetcher program m t n) {c : Call} (hcalls : t.Calls c) {args : List Value}
    (hargs : resolveAll c.args (begun t n) = .done args (begun t n)) :
    Rejected fetcher program t n (.undeclaredFunction c.name) ↔
      m.isBuiltin c.name = false ∧
        ∀ signature, program.Declares signature → signature.name ≠ c.name := by
  rw [h.rejected_iff hbegins hcalls hargs rfl]
  refine and_congr_right fun _ => ?_
  rcases h.refusal?_eq (signatures_begun hbegins) c.name c.args.length with
    ⟨signature, hdeclares, hname, hrefusal⟩ | ⟨hnot, hrefusal⟩
  · rw [hrefusal]
    refine iff_of_false (fun hcause => ?_) fun hnot => hnot signature hdeclares hname
    split at hcause
    · cases hcause
    split at hcause <;> cases hcause
  · exact iff_of_true hrefusal hnot

end Assembled

/-- No run of an assembled program fails for a defensive cause. Its definitions have names of their
own, which are not those of builtins, and are found by these names with their own parameters. A call
whose arguments have values is rejected for their number exactly if its function is defined with
another one, and for its name exactly if that is neither defined nor a builtin. -/
theorem assembled_runs_meet_no_defensive_fault {input : List InputLine}
    {sources : List (String × String)} {program : Program} {m : Machine}
    (h : ({ input } : Machine).assemble sources = (.ok program, m)) (fetcher : Fetcher) :
    (∀ fuel fault m', program.run fetcher fuel m = .failed fault m' →
      fault.cause.origin ≠ .defensive) ∧
    ((preorder program.statements).filterMap name?).Nodup ∧
    (∀ s ∈ preorder program.statements, ∀ signature, s.instruction = .define signature →
      m.isBuiltin signature.name = false ∧
        m.store.signature signature.name = .ok signature.params ∧
        program.function? signature.name = some s) ∧
    ∀ t n c args, RunBegins fetcher program m t n → t.Calls c →
      resolveAll c.args (begun t n) = .done args (begun t n) →
      (Rejected fetcher program t n (.argumentCount c.name) ↔
        ∃ signature, program.Declares signature ∧ signature.name = c.name ∧
          c.args.length ≠ signature.params.length) ∧
      (Rejected fetcher program t n (.undeclaredFunction c.name) ↔
        m.isBuiltin c.name = false ∧
          ∀ signature, program.Declares signature → signature.name ≠ c.name) := by
  have hassembled := assembled_of_assemble h
  refine ⟨fun fuel fault m' => hassembled.origin_of_run, ?_, ?_, ?_⟩
  · rw [← definedNames_heads]
    exact hassembled.nodup
  · intro s hs signature hsignature
    have hdeclares : program.Declares signature := ⟨s, hs, hsignature⟩
    exact ⟨hassembled.isBuiltin_of_declares hdeclares,
      hassembled.signature_of_declares rfl hdeclares, hassembled.function?_of_define hs hsignature⟩
  · intro t n c args hbegins hcalls hargs
    exact ⟨hassembled.rejected_argumentCount_iff hbegins hcalls hargs,
      hassembled.rejected_undeclaredFunction_iff hbegins hcalls hargs⟩

def lopsidedProgram : Program :=
  let line (number : Nat) : Location := ⟨number, "pair.neb"⟩
  ⟨[⟨.define ⟨"Main", [], none⟩, line 1,
      [⟨.branch ⟨false, .compares (.literal "a") .less (.literal "b")⟩, line 2,
        [.leaf (.call ⟨"pair", [.literal "a"]⟩) (line 3)], []⟩], []⟩,
    ⟨.define ⟨"pair", ["x", "y"], none⟩, line 6,
      [.leaf (.print (.name "x")) (line 7)], []⟩]⟩

theorem lopsided_call_rejected :
    let sources := [("pair.neb",
      "def Main():\nif 'a' < 'b'\npair('a')\nend\nend\ndef pair(x, y):\nprint x\nend")]
    let m : Machine := { store := { signatures := .ofList [("Main", []), ("pair", ["x", "y"])] } }
    let t : Statement := .leaf (.call ⟨"pair", [.literal "a"]⟩) ⟨3, "pair.neb"⟩
    ({} : Machine).assemble sources = (.ok lopsidedProgram, m) ∧
      (∃ n, RunBegins (fun _ _ => {}) lopsidedProgram m t n ∧
        Rejected (fun _ _ => {}) lopsidedProgram t n (.argumentCount "pair")) ∧
      ∀ fuel fault m', lopsidedProgram.run (fun _ _ => {}) fuel m = .failed fault m' →
        fault.cause.origin ≠ .defensive := by
  intro sources m t
  have hassemble : ({} : Machine).assemble sources = (.ok lopsidedProgram, m) := rfl
  obtain ⟨hrun, -, -, hcalls⟩ := assembled_runs_meet_no_defensive_fault hassemble fun _ _ => {}
  have hbegins : ∃ n, RunBegins (fun _ _ => {}) lopsidedProgram m t n :=
    ⟨_, _, _, rfl, rfl, .head (.branch rfl rfl (.head .self))⟩
  obtain ⟨n, hn⟩ := hbegins
  refine ⟨hassemble, ⟨n, hn, ?_⟩, hrun⟩
  have hpair : lopsidedProgram.Declares ⟨"pair", ["x", "y"], none⟩ :=
    ⟨_, mem_preorder_self (List.mem_cons_of_mem _ List.mem_cons_self), rfl⟩
  exact (hcalls t n _ _ hn (.inl rfl) rfl).1.2 ⟨_, hpair, rfl, by decide⟩

end ApiScript
