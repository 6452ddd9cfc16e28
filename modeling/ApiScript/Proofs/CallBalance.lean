import ApiScript.Proofs.Kept

/-!
# Balance of calls

A call ends where it began: it pushes one frame and drops it with its records, and the caller finds
its frames, its depth and the chain of callers again. So statements keep what is outside the
innermost frame at any nesting of calls, and a whole run drops the one frame that it pushed.
-/
namespace ApiScript

/-- The caller finds all that it left, with returned values on top and without the records of frames
that are gone. -/
structure Restored (m m' : Machine) : Prop where
  frames : m'.store.frames = m.store.frames
  records : m'.store.records = Store.recordsBelow m.store.frames.length m.store.records
  signatures : m'.store.signatures = m.store.signatures
  builtins : m'.builtins = m.builtins
  depth : m'.depth = m.depth
  scope : m'.scope = m.scope
  callers : m'.callers = m.callers
  returns : m'.returns = m.returns
  returned : m.returned <:+ m'.returned

theorem Restored.kept {m m' : Machine} (h : Restored m m') : Kept m m' := by
  have hrecords : Store.recordsBelow (m.store.frames.length - 1) m'.store.records =
      Store.recordsBelow (m.store.frames.length - 1) m.store.records := by
    rw [h.records]
    apply Store.recordsBelow_filter
    intro r hr
    simp only [decide_eq_true_eq]
    omega
  have hstore : m'.store.outside = m.store.outside := by
    simp only [Store.outside, h.frames, h.signatures, hrecords]
  exact { h with store := hstore }

namespace Run

variable {exec : Statement → Run Flow}

theorem leaveFunction_of_callers {m : Machine} {caller : String} {rest : List String}
    (h : m.callers = caller :: rest) (returns : Option Kind) :
    leaveFunction returns m = .done () { m with scope := caller, callers := rest, returns } := by
  unfold leaveFunction modify
  simp only [h]

/-- The new frame lies on top of the frames of the caller, which is the innermost caller now. -/
theorem openFrame_eq_done {name : String} {params : List String} {args : List Value}
    {returns : Option Kind} {m m' : Machine}
    (h : openFrame name params args returns m = .done () m') :
    m'.store.outside = m.store.pushFrame.outside ∧ m'.builtins = m.builtins ∧
      m'.depth = m.depth ∧ m'.callers = m.scope :: m.callers ∧ m.returned <:+ m'.returned := by
  obtain ⟨caller, m₀, hm, h⟩ := bind_eq_done h
  cases hm
  obtain ⟨_, m₁, hpush, h⟩ := bind_eq_done h
  cases hpush
  obtain ⟨_, m₂, hbind, henter⟩ := bind_eq_done h
  cases henter
  have hbound : Kept { m with store := m.store.pushFrame } m₂ :=
    (silent_bindParams _ _).ofSilent.keeps _ _ _ hbind
  have hcallers : m₂.scope :: m₂.callers = m.scope :: m.callers := by
    rw [hbound.scope, hbound.callers]
  exact ⟨hbound.store, hbound.builtins, hbound.depth, hcallers, hbound.returned⟩

/-- An activation drops the frame that it pushed and goes back to the caller. -/
theorem restored_of_activate (hexec : ∀ s, Keeps (exec s)) {name : String} {params : List String}
    {args : List Value} {returns : Option Kind} {body : List Statement} {m m' : Machine}
    (h : activate exec name params args returns body m = .done () m') : Restored m m' := by
  obtain ⟨caller, m₀, hm, h⟩ := bind_eq_done h
  cases hm
  obtain ⟨_, m₁, hopen, h⟩ := bind_eq_done h
  obtain ⟨_, m₂, hbody, h⟩ := bind_eq_done h
  obtain ⟨_, m₃, hleave, hpop⟩ := bind_eq_done h
  obtain ⟨hstore, hbuiltins, hdepth, hcallers, hreturned⟩ := openFrame_eq_done hopen
  -- the body has left the caller on top of the callers, so that is where leaving goes back to
  have hran : Kept m₁ m₂ := keeps_block hexec body _ _ _ hbody
  rw [leaveFunction_of_callers (hran.callers.trans hcallers)] at hleave
  cases hleave
  obtain ⟨u, hu, rfl⟩ := onStore_eq_done hpop
  obtain ⟨hframes, hrecords, hsignatures⟩ :=
    Store.popFrame_of_outside_eq (hran.store.trans hstore) hu
  exact ⟨hframes, hrecords, hsignatures, hran.builtins.trans hbuiltins, hran.depth.trans hdepth,
    rfl, rfl, rfl, hreturned.trans hran.returned⟩

theorem restored_of_callFunction (hexec : ∀ s, Keeps (exec s)) {program : Program} {name : String}
    {args : List Value} {m m' : Machine}
    (h : callFunction program exec name args m = .done () m') : Restored m m' := by
  obtain ⟨_, m₀, hm, h⟩ := bind_eq_done h
  cases hm
  obtain ⟨params, m₁, hsignature, h⟩ := bind_eq_done h
  obtain rfl := lift_eq_done hsignature
  cases hfunction : program.function? name with
  | none =>
    rw [hfunction] at h
    cases h
  | some function =>
    rw [hfunction] at h
    dsimp only at h
    split at h
    · cases h
    · split at h
      · cases h
      · exact restored_of_activate hexec h

theorem keeps_call (hexec : ∀ s, Keeps (exec s)) (program : Program) (c : Call) :
    Keeps (call program exec c) := by
  refine (makes_resolveAll c.args).keeps.bind fun args => Makes.machine.keeps.bind fun m => ?_
  cases m.builtins.get? c.name with
  | none =>
    intro m₁ _ m₂ h
    exact (restored_of_callFunction hexec h).kept
  | some builtin =>
    refine (makes_builtin builtin args).keeps.bind fun result => ?_
    cases result with
    | none => exact (Makes.pure _).keeps
    | some value => exact (Makes.modify fun m => .returnValue m value).keeps

/-- Dropping what was returned on top of some values gives these values. -/
theorem truncateReturned_of_suffix {before : List Value} {m : Machine}
    (h : before <:+ m.returned) :
    truncateReturned before.length m = .done () { m with returned := before } := by
  obtain ⟨values, hvalues⟩ := h
  have hdrop : m.returned.drop (m.returned.length - before.length) = before := by
    rw [← hvalues, List.length_append, Nat.add_sub_cancel, List.drop_left]
  unfold truncateReturned modify
  simp only [hdrop]

theorem callAndDrop_eq_done (hexec : ∀ s, Keeps (exec s)) {program : Program} {c : Call}
    {m m' : Machine} (h : callAndDrop program exec c m = .done () m') :
    ∃ after, call program exec c m = .done () after ∧
      m' = { after with returned := m.returned } := by
  obtain ⟨before, m₀, hm, h⟩ := bind_eq_done h
  cases hm
  obtain ⟨_, after, hcall, htruncate⟩ := bind_eq_done h
  have hkept := keeps_call hexec program c m () after hcall
  rw [truncateReturned_of_suffix hkept.returned] at htruncate
  cases htruncate
  exact ⟨after, hcall, rfl⟩

theorem callInto_eq_done (hexec : ∀ s, Keeps (exec s)) {program : Program} {target : String}
    {c : Call} {m m' : Machine} (h : callInto program exec target c m = .done () m') :
    ∃ after value rest store, call program exec c m = .done () after ∧
      after.returned = value :: rest ∧ m.returned.length < after.returned.length ∧
      after.store.declare target value after.depth false none = .ok store ∧
      m' = { after with returned := m.returned, store } := by
  obtain ⟨before, m₀, hm, h⟩ := bind_eq_done h
  cases hm
  obtain ⟨_, after, hcall, h⟩ := bind_eq_done h
  obtain ⟨after', m₁, hafter, h⟩ := bind_eq_done h
  cases hafter
  have hkept := keeps_call hexec program c m () after hcall
  cases hreturned : after.returned with
  | nil =>
    rw [hreturned] at h
    cases h
  | cons value rest =>
    rw [hreturned] at h
    dsimp only at h
    split at h
    · cases h
    · next hlonger =>
      rw [← hreturned] at hlonger
      obtain ⟨_, m₂, htruncate, hdeclare⟩ := bind_eq_done h
      rw [truncateReturned_of_suffix hkept.returned] at htruncate
      cases htruncate
      obtain ⟨m₃, m₄, hm, hdeclare⟩ := bind_eq_done hdeclare
      cases hm
      obtain ⟨store, hstore, rfl⟩ := onStore_eq_done hdeclare
      exact ⟨after, value, rest, store, hcall, hreturned, by omega, hstore, rfl⟩

theorem keeps_perform (fetcher : Fetcher) (program : Program) (hexec : ∀ s, Keeps (exec s))
    (fuel : Nat) (s : Statement) : Keeps (perform fetcher program exec fuel s) := by
  by_cases hatomic : s.instruction.isAtomic = true
  · exact (makes_perform_of_isAtomic fetcher program exec fuel hatomic).keeps
  · have hnext : Keeps (pure Flow.next) := (Makes.pure _).keeps
    unfold perform
    cases hi : s.instruction with
    | branch condition => exact keeps_branch hexec condition s.body s.alt
    | loop condition => exact keeps_loop hexec fuel condition s.body
    | call c =>
      refine Keeps.bind ?_ fun _ => hnext
      intro m _ m' h
      obtain ⟨after, hcall, rfl⟩ := callAndDrop_eq_done hexec h
      have hkept := keeps_call hexec program c m () after hcall
      exact { hkept with returned := List.suffix_refl _ }
    | callInto target c =>
      refine Keeps.bind ?_ fun _ => hnext
      intro m _ m' h
      obtain ⟨after, value, rest, store, hcall, -, -, hstore, rfl⟩ := callInto_eq_done hexec h
      have hkept := keeps_call hexec program c m () after hcall
      have hdeclared := Store.outside_declare hstore
      exact { hkept with
        store := hdeclared.trans hkept.store
        returned := List.suffix_refl _ }
    | _ => simp [hi, Instruction.isAtomic] at hatomic

/-- A statement that ends well keeps all that is outside the innermost frame. -/
theorem keeps_execute (fetcher : Fetcher) (program : Program) (fuel : Nat) (s : Statement) :
    Keeps (execute fetcher program fuel s) := by
  induction fuel generalizing s with
  | zero => exact Makes.unfinished.keeps
  | succ fuel ih =>
    exact (makes_begin s).keeps.bind fun _ => .locating _ (keeps_perform fetcher program ih fuel s)

theorem restored_of_call (hexec : ∀ s, Keeps (exec s)) {program : Program} {c : Call}
    {m m' : Machine} (hcall : call program exec c m = .done () m')
    (hbuiltin : m.isBuiltin c.name = false) : Restored m m' := by
  obtain ⟨args, m₁, hargs, h⟩ := bind_eq_done hcall
  have hm : m₁ = m := (makes_resolveAll c.args).eq_of_done hargs
  subst hm
  obtain ⟨m₂, m₃, hm, hfunction⟩ := bind_eq_done h
  cases hm
  have hnone : m₁.builtins.get? c.name = none := by
    simpa [Machine.isBuiltin, Table.contains] using hbuiltin
  rw [hnone] at hfunction
  exact restored_of_callFunction hexec hfunction

end Run

/-- The frames with their records, the chain of callers, the declared kind, the depth and the
returned values are what they were. -/
structure Balanced (m m' : Machine) : Prop where
  frames : m'.store.frames = m.store.frames
  records : m'.store.records = m.store.records
  callers : m'.callers = m.callers
  scope : m'.scope = m.scope
  returns : m'.returns = m.returns
  depth : m'.depth = m.depth
  returned : m'.returned = m.returned

def Store.Tidy (s : Store) : Prop := recordsBelow s.frames.length s.records = s.records

namespace Run

variable {fetcher : Fetcher} {program : Program} {fuel : Nat} {s : Statement} {c : Call}
  {m m' : Machine} {flow : Flow}

theorem balanced_of_execute_call (htidy : m.store.Tidy) (hs : s.instruction = .call c)
    (hbuiltin : m.isBuiltin c.name = false) (h : execute fetcher program fuel s m = .done flow m') :
    Balanced m m' := by
  obtain ⟨rest, h⟩ := execute_eq_done h
  unfold perform at h
  rw [hs] at h
  have hexec := keeps_execute fetcher program rest
  obtain ⟨after, hcall, rfl⟩ := callAndDrop_eq_done hexec (andNext_eq_done h)
  have hrestored := restored_of_call hexec hcall hbuiltin
  exact { hrestored with records := hrestored.records.trans htidy, returned := rfl }

theorem balanced_of_execute_callInto {target : String} (htidy : m.store.Tidy)
    (hs : s.instruction = .callInto target c) (hbuiltin : m.isBuiltin c.name = false)
    (h : execute fetcher program fuel s m = .done flow m') :
    ∃ before value store, Balanced m before ∧
      before.store.declare target value m.depth false none = .ok store ∧
      m' = { before with store } := by
  obtain ⟨rest, h⟩ := execute_eq_done h
  unfold perform at h
  rw [hs] at h
  have hexec := keeps_execute fetcher program rest
  obtain ⟨after, value, values, store, hcall, -, -, hdeclare, rfl⟩ :=
    callInto_eq_done hexec (andNext_eq_done h)
  have hrestored := restored_of_call hexec hcall hbuiltin
  have hbalanced : Balanced m { after with returned := m.returned } :=
    { hrestored with records := hrestored.records.trans htidy, returned := rfl }
  rw [hrestored.depth] at hdeclare
  exact ⟨_, value, store, hbalanced, hdeclare, rfl⟩

/-- Before the frame of the entry function is dropped, only that frame has changed. -/
theorem leaveMain_eq_done {location : Location} (h : leaveMain location m = .done () m') :
    ∃ before store, Kept m before ∧ before.store.popFrame = .ok store ∧
      m' = { before with store } := by
  obtain ⟨_, m₁, hpurge, h⟩ := bind_eq_done h
  cases hpurge
  obtain ⟨m₂, m₃, hm, h⟩ := bind_eq_done h
  cases hm
  obtain ⟨_, m₄, hforget, h⟩ := bind_eq_done h
  cases hforget
  obtain ⟨_, m₅, hwarn, h⟩ := bind_eq_done h
  obtain ⟨_, m₆, hdump, h⟩ := bind_eq_done h
  obtain ⟨store, hpop, rfl⟩ := onStore_eq_done h
  have hpurged : Kept m (purgeScope { m with location }) := by
    have hlocated : Kept m { m with location } :=
      ⟨rfl, rfl, rfl, rfl, rfl, rfl, List.suffix_refl _⟩
    exact hlocated.trans (kept_purgeScope _)
  have hforgotten : Kept m { purgeScope { m with location } with unfetched := [] } :=
    { hpurged with }
  have hwarned := (makes_warnUnfetched _).keeps _ _ _ hwarn
  have hdumped := makes_dumpStore.keeps _ _ _ hdump
  exact ⟨m₆, store, hforgotten.trans (hwarned.trans hdumped), hpop, rfl⟩

theorem balanced_of_run (htidy : m.store.Tidy)
    (h : program.run fetcher fuel m = .done () m') :
    m'.store.frames = m.store.frames ∧ m'.store.records = m.store.records ∧
      m'.depth = m.depth ∧ m'.callers = m.callers := by
  unfold Program.run at h
  cases hmain : program.function? entryFunction with
  | none =>
    rw [hmain] at h
    cases h
  | some main =>
    rw [hmain] at h
    obtain ⟨_, m₁, henter, h⟩ := bind_eq_done h
    cases henter
    obtain ⟨_, m₂, hbody, h⟩ := bind_eq_done h
    obtain ⟨before, store, hleft, hpop, rfl⟩ := leaveMain_eq_done h
    have hran := keeps_block (keeps_execute fetcher program fuel) main.body _ _ _ hbody
    have hkept := hran.trans hleft
    obtain ⟨hframes, hrecords, -⟩ := Store.popFrame_of_outside_eq hkept.store hpop
    exact ⟨hframes, hrecords.trans htidy, hkept.depth, hkept.callers⟩

end Run

end ApiScript
