import ApiScript.Proofs.CallBalance
import ApiScript.Proofs.Twins

/-!
# Calls that do not see their caller

Blocks compare depths above the same base on both sides, so they keep twins too. A called function
begins with twins whose bases are the depths of its callers, whatever the callers hold. It therefore
does the same for each of them, and a caller that gets its frames back stays a twin.
-/
namespace ApiScript

variable {base₁ base₂ level : Nat}

namespace Run

/-- Twins drop the same symbols of the hosted frame. -/
theorem twin_purgeScope {m₁ m₂ : Machine} (h : Twin base₁ base₂ level m₁ m₂) :
    Twin base₁ base₂ level (purgeScope m₁) (purgeScope m₂) := by
  cases h with
  | mk m h₁ h₂ =>
    rename_i frame frames₁ frames₂ records₁ records₂
    unfold purgeScope
    by_cases hpurge : m.modes.purge = true
    · obtain ⟨frames₁', records₁', hclean₁, h₁'⟩ := Hosts.cleanup
        (s := { m.store with frames := frames₁, records := records₁ }) h₁ level
      obtain ⟨frames₂', records₂', hclean₂, h₂'⟩ := Hosts.cleanup
        (s := { m.store with frames := frames₂, records := records₂ }) h₂ level
      simp only [Machine.lodged, hpurge, ↓reduceIte, hclean₁, hclean₂]
      exact .mk m h₁' h₂'
    · simp only [Machine.lodged, hpurge]
      exact .mk m h₁ h₂

theorem tied_nested {x : Run Flow} (hx : Tied base₁ base₂ (level + 1) x) :
    Tied base₁ base₂ level (nested x) := by
  have henter : Pairs SameUnframed (Twin base₁ base₂ level) enterBlock enterBlock
      (Twin base₁ base₂ (level + 1)) := by
    refine .modify ?_
    rintro _ _ ⟨m, h₁, h₂⟩
    exact .mk m h₁ h₂
  have hleave : Pairs SameUnframed (Twin base₁ base₂ (level + 1)) leaveBlock leaveBlock
      (Twin base₁ base₂ level) := by
    refine .modify ?_
    rintro _ _ ⟨m, h₁, h₂⟩
    have hshallower : Twin base₁ base₂ level _ _ := .mk m h₁ h₂
    exact twin_purgeScope hshallower
  exact henter.bind fun _ => hx.bind fun _ => hleave.bind fun _ => .pure _

section Calls

variable {exec : Statement → Run Flow}

def Blind (exec : Statement → Run Flow) : Prop :=
  ∀ base₁ base₂ level s, Tied base₁ base₂ level (exec s)

theorem tied_block (hexec : Blind exec) (statements : List Statement) :
    Tied base₁ base₂ level (block exec statements) :=
  pairs_block (hexec base₁ base₂ level) tied_warnUnreachable statements

theorem hosts_recordsBelow {base : Nat} {frame : Frame} {frames : List Frame}
    {records : List ScopeRecord} (h : Hosts base frame frames records) :
    Hosts base frame frames (Store.recordsBelow frames.length records) := by
  cases h with
  | mk outer records hrecorded =>
    refine .mk outer _ fun name symbol hget => ?_
    refine List.mem_filter.2 ⟨hrecorded name symbol hget, ?_⟩
    simp

theorem eq_lodged_of_sameUnframed {m₁ m₂ : Machine} (h : SameUnframed m₁ m₂) :
    m₂ = m₁.lodged m₂.depth m₂.store.frames m₂.store.records := by
  have hlodged := congrArg
    (fun m : Machine => m.lodged m₂.depth m₂.store.frames m₂.store.records) h
  exact hlodged.symm

theorem pairs_bindParams (depth₁ depth₂ : Nat) (bindings : List (String × Value)) :
    Pairs SameUnframed (Twin depth₁ depth₂ 0) (bindParams depth₁ bindings)
      (bindParams depth₂ bindings) (Twin depth₁ depth₂ 0) := by
  induction bindings with
  | nil => exact .pure _
  | cons binding rest ih =>
    exact (pairs_declare binding.1 ⟨binding.2, 0, false, none⟩).bind fun _ => ih

/-- A function begins with twins, whose bases are the depths of the callers. -/
theorem agree_openFrame (m : Machine) (depth : Nat) (frames : List Frame)
    (records : List ScopeRecord) (name : String) (params : List String) (args : List Value)
    (returns : Option Kind) :
    Outcome.Agree SameUnframed (Twin m.depth depth 0) (openFrame name params args returns m)
      (openFrame name params args returns (m.lodged depth frames records)) := by
  -- a new frame is empty above any base
  have hempty : Twin m.depth depth 0 { m with store := m.store.pushFrame }
      (m.lodged depth (∅ :: frames) records) :=
    .mk m (Hosts.empty m.depth m.store.frames m.store.records) (Hosts.empty depth frames records)
  have hbound := pairs_bindParams m.depth depth (params.zip args)
  exact hbound.bind (fun _ => tied_modify fun _ _ _ _ => rfl) _ _ hempty

theorem tied_leaveFunction (returns : Option Kind) :
    Tied base₁ base₂ level (leaveFunction returns) := by
  refine tied_modify fun m depth frames records => ?_
  simp only [Machine.lodged]
  cases m.callers with
  | nil => rfl
  | cons caller rest => rfl

theorem pairs_popFrame :
    Pairs SameUnframed (Twin base₁ base₂ level) (onStore Store.popFrame) (onStore Store.popFrame)
      SameUnframed := by
  refine .onStore ?_
  rintro _ _ ⟨m, h₁, h₂⟩
  cases h₁ with
  | mk outer₁ records₁ _ =>
    cases h₂ with
    | mk outer₂ records₂ _ => exact .inr ⟨_, _, rfl, rfl, rfl⟩

/-- A function that is entered does the same whatever frames lie below its own. -/
theorem pairs_activate (hexec : Blind exec) (name : String) (params : List String)
    (args : List Value) (returns : Option Kind) (body : List Statement) :
    Pairs SameUnframed SameUnframed (activate exec name params args returns body)
      (activate exec name params args returns body) SameUnframed := by
  intro m₁ m₂ h
  -- the second machine is the first one, lodged at another depth on other frames
  have hm₂ := eq_lodged_of_sameUnframed h
  revert hm₂
  generalize m₂.depth = depth₂
  generalize m₂.store.frames = frames₂
  generalize m₂.store.records = records₂
  rintro rfl
  have hopen : Pairs SameUnframed (fun a b => a = m₁ ∧ b = m₁.lodged depth₂ frames₂ records₂)
      (openFrame name params args returns) (openFrame name params args returns)
      (Twin m₁.depth depth₂ 0) := by
    rintro _ _ ⟨rfl, rfl⟩
    exact agree_openFrame _ depth₂ frames₂ records₂ name params args returns
  have hrest (flow : Flow) : Pairs SameUnframed (Twin m₁.depth depth₂ 0)
      (do leaveFunction m₁.returns; onStore Store.popFrame)
      (do leaveFunction m₁.returns; onStore Store.popFrame) SameUnframed :=
    (tied_leaveFunction m₁.returns).bind fun _ => pairs_popFrame
  exact hopen.bind (fun _ => (tied_block hexec body).bind hrest) m₁ _ ⟨rfl, rfl⟩

theorem pairs_callFunction (hexec : Blind exec) (program : Program) (name : String)
    (args : List Value) :
    Pairs SameUnframed SameUnframed (callFunction program exec name args)
      (callFunction program exec name args) SameUnframed := by
  refine .look ?_
  intro m₁ m₂ h
  have hsignature : m₁.store.signature name = m₂.store.signature name := by
    have hsignatures := congrArg (fun m : Machine => m.store.signature name) h
    exact hsignatures
  have hcallers : m₁.callers = m₂.callers := by
    have hunframed := congrArg Machine.callers h
    exact hunframed
  rw [hsignature, hcallers]
  refine (Pairs.lift (fun _ _ hsame => hsame) _).bind (fun params => ?_) _ _ h
  cases program.function? name with
  | none => exact .raise (fun _ _ hsame => hsame) _
  | some function =>
    dsimp only
    split
    · exact .raise (fun _ _ hsame => hsame) _
    · split
      · exact .raise (fun _ _ hsame => hsame) _
      · exact pairs_activate hexec _ _ _ _ _

/-- After a call both callers find their frames again, so they are twins as before. -/
theorem twin_of_restored {m₁ m₂ m₁' m₂' : Machine} (h : Twin base₁ base₂ level m₁ m₂)
    (h₁ : Restored m₁ m₁') (h₂ : Restored m₂ m₂') (hsame : SameUnframed m₁' m₂') :
    Twin base₁ base₂ level m₁' m₂' := by
  have hm₁' : m₁' = m₁'.lodged m₁.depth m₁.store.frames
      (Store.recordsBelow m₁.store.frames.length m₁.store.records) := by
    rw [← h₁.depth, ← h₁.records, ← h₁.frames]
    rfl
  have hm₂' : m₂' = m₁'.lodged m₂.depth m₂.store.frames
      (Store.recordsBelow m₂.store.frames.length m₂.store.records) := by
    rw [← h₂.depth, ← h₂.records, ← h₂.frames]
    exact eq_lodged_of_sameUnframed hsame
  rw [hm₂', hm₁']
  cases h with
  | mk m hosts₁ hosts₂ => exact .mk m₁' (hosts_recordsBelow hosts₁) (hosts_recordsBelow hosts₂)

theorem tied_callFunction (hexec : Blind exec) (hkeeps : ∀ s, Keeps (exec s)) (program : Program)
    (name : String) (args : List Value) :
    Tied base₁ base₂ level (callFunction program exec name args) := by
  intro m₁ m₂ htwin
  have hagree := pairs_callFunction hexec program name args m₁ m₂ (Twin.same m₁ m₂ htwin)
  refine hagree.of_done ?_
  intro _ m₁' m₂' hend₁ hend₂ hsame
  have hrestored₁ := restored_of_callFunction hkeeps hend₁
  have hrestored₂ := restored_of_callFunction hkeeps hend₂
  exact twin_of_restored htwin hrestored₁ hrestored₂ hsame

theorem tied_call (hexec : Blind exec) (hkeeps : ∀ s, Keeps (exec s)) (program : Program)
    (c : Call) : Tied base₁ base₂ level (call program exec c) := by
  refine (tied_resolveAll c.args).bind fun args => tied_look (fun _ _ _ _ => rfl) fun m => ?_
  cases m.builtins.get? c.name with
  | none => exact tied_callFunction hexec hkeeps program c.name args
  | some builtin =>
    refine (tied_builtin builtin args).bind fun result => ?_
    cases result with
    | none => exact .pure _
    | some value => exact tied_modify fun _ _ _ _ => rfl

theorem tied_truncateReturned (count : Nat) : Tied base₁ base₂ level (truncateReturned count) :=
  tied_modify fun _ _ _ _ => rfl

theorem tied_callInto (hexec : Blind exec) (hkeeps : ∀ s, Keeps (exec s)) (program : Program)
    (target : String) (c : Call) : Tied base₁ base₂ level (callInto program exec target c) := by
  refine tied_look (fun _ _ _ _ => rfl) fun before => ?_
  refine (tied_call hexec hkeeps program c).bind fun _ => ?_
  refine tied_look (fun _ _ _ _ => rfl) fun after => ?_
  cases after.returned with
  | nil => exact .raise Twin.same _
  | cons value rest =>
    dsimp only
    split
    · exact .raise Twin.same _
    · exact (tied_truncateReturned _).bind fun _ => tied_declare _ _ _ _

theorem tied_perform (fetcher : Fetcher) (program : Program) (hexec : Blind exec)
    (hkeeps : ∀ s, Keeps (exec s)) (fuel : Nat) (s : Statement) :
    Tied base₁ base₂ level (perform fetcher program exec fuel s) := by
  by_cases hatomic : s.instruction.isAtomic = true
  · exact tied_perform_of_isAtomic fetcher program exec fuel hatomic
  · unfold perform
    cases hi : s.instruction with
    | branch condition =>
      exact tied_nested ((tied_test condition).bind fun _ => tied_block hexec _)
    | loop condition =>
      exact tied_nested
        (pairs_repeatWhile Twin.same (tied_test condition) (tied_block hexec s.body) fuel)
    | call c =>
      have hcall : Tied base₁ base₂ level (callAndDrop program exec c) :=
        tied_look (fun _ _ _ _ => rfl) fun before =>
          (tied_call hexec hkeeps program c).bind fun _ => tied_truncateReturned _
      exact hcall.bind fun _ => .pure _
    | callInto target c =>
      exact (tied_callInto hexec hkeeps program target c).bind fun _ => .pure _
    | _ => simp [hi, Instruction.isAtomic] at hatomic

end Calls

/-- No statement sees the caller of the function that it stands in. -/
theorem blind_execute (fetcher : Fetcher) (program : Program) (fuel : Nat) :
    Blind (execute fetcher program fuel) := by
  induction fuel with
  | zero => exact fun _ _ _ _ => .unfinished Twin.same
  | succ fuel ih =>
    intro base₁ base₂ level s
    have hperform : Tied base₁ base₂ level
        (perform fetcher program (execute fetcher program fuel) fuel s) :=
      tied_perform fetcher program ih (keeps_execute fetcher program fuel) fuel s
    exact (tied_modify fun _ _ _ _ => rfl).bind fun _ => .locating _ hperform

def callWith (fetcher : Fetcher) (program : Program) (name : String) (args : List Value)
    (fuel : Nat) : Run Unit :=
  callFunction program (execute fetcher program fuel) name args

theorem agree_callWith (fetcher : Fetcher) (program : Program) (name : String) (args : List Value)
    (fuel : Nat) {m₁ m₂ : Machine} (h : SameUnframed m₁ m₂) :
    Outcome.Agree SameUnframed SameUnframed (callWith fetcher program name args fuel m₁)
      (callWith fetcher program name args fuel m₂) :=
  pairs_callFunction (blind_execute fetcher program fuel) program name args m₁ m₂ h

theorem extends_callWith (fetcher : Fetcher) (program : Program) (name : String)
    (args : List Value) (fuel fuel' : Nat) (hfuel : fuel ≤ fuel') :
    Extends (callWith fetcher program name args fuel) (callWith fetcher program name args fuel') :=
  extends_callFunction (extends_execute fetcher program hfuel) program name args

theorem exists_endsIn_of_sameUnframed {fetcher : Fetcher} {program : Program} {name : String}
    {args : List Value} {m₁ m₂ : Machine} (h : SameUnframed m₁ m₂)
    (hends : ∃ o, EndsIn (callWith fetcher program name args) m₁ o) :
    ∃ o, EndsIn (callWith fetcher program name args) m₂ o :=
  (exists_endsIn_iff fun fuel => agree_callWith fetcher program name args fuel h).1 hends

/-- From two machines that differ at most in their depths, frames and records, a call of a function
comes to an end from both or from neither. Both ends are good or have the same fault, and after them
the machines still differ in no more: the returned values, the journal with its output and fetches,
the input left, the requests, the statuses and the modes are the same. -/
theorem called_function_blind_to_caller (fetcher : Fetcher) (program : Program) (name : String)
    (args : List Value) {m₁ m₂ : Machine} (h : m₁.unframed = m₂.unframed) :
    ((∃ o, EndsIn (callWith fetcher program name args) m₁ o) ↔
      ∃ o, EndsIn (callWith fetcher program name args) m₂ o) ∧
    ∀ o₁ o₂, EndsIn (callWith fetcher program name args) m₁ o₁ →
      EndsIn (callWith fetcher program name args) m₂ o₂ →
        Outcome.Agree SameUnframed SameUnframed o₁ o₂ := by
  refine ⟨⟨?_, ?_⟩, ?_⟩
  · exact exists_endsIn_of_sameUnframed h
  · exact exists_endsIn_of_sameUnframed h.symm
  · intro o₁ o₂ h₁ h₂
    obtain ⟨fuel, rfl, rfl⟩ :=
      h₁.exists_common_fuel (extends_callWith fetcher program name args) h₂
    exact agree_callWith fetcher program name args fuel h

/-- A function that declares a symbol in a block and then looks whether it is there, called with
symbols dropped after blocks by a machine without frames, and by one that holds a constant of that
name and is seven blocks deep. -/
theorem probe_blind_to_caller :
    let line (number : Nat) : Location := ⟨number, "probe.neb"⟩
    let program : Program :=
      ⟨[⟨.define ⟨"probe", ["x"], some .str⟩, line 1,
        [⟨.branch ⟨false, .declared "x"⟩, line 2,
            [.leaf (.assign "seen" (.name "x") false) (line 3)], []⟩,
          ⟨.branch ⟨false, .declared "seen"⟩, line 5, [.leaf (.print (.name "seen")) (line 6)], []⟩,
          .leaf (.leave (some (.name "x"))) (line 8)], []⟩]⟩
    let probe := callWith (fun _ _ => {}) program "probe" [.string "mine"]
    let bare : Machine :=
      { modes := { purge := true }, store := { signatures := .ofList [("probe", ["x"])] } }
    let deep : Machine :=
      bare.lodged 7 [.ofList [("seen", ⟨.string "secret", 7, true, none⟩)]] [⟨"seen", 7, 0⟩]
    bare.unframed = deep.unframed ∧
      ∃ o₁ o₂, EndsIn probe bare o₁ ∧ EndsIn probe deep o₂ ∧
        o₁.machine.returned = [.string "mine"] ∧ Outcome.Agree SameUnframed SameUnframed o₁ o₂ := by
  intro line program probe bare deep
  have hsame : bare.unframed = deep.unframed := rfl
  obtain ⟨-, hagree⟩ := called_function_blind_to_caller (fun _ _ => {}) program "probe"
    [.string "mine"] hsame
  have h₁ : EndsIn probe bare (probe 9 bare) := ⟨by decide +kernel, 9, rfl⟩
  have h₂ : EndsIn probe deep (probe 9 deep) := ⟨by decide +kernel, 9, rfl⟩
  exact ⟨hsame, probe 9 bare, probe 9 deep, h₁, h₂, by decide +kernel, hagree _ _ h₁ h₂⟩

end Run

end ApiScript
