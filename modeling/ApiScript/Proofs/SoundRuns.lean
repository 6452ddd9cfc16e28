import ApiScript.Proofs.Begun
import ApiScript.Proofs.Missteps

/-!
# Runs on sound machines

A run of a program whose values are as they are written keeps the machine sound, however it ends, and
so do the states in which statements begin. A statement that fails by itself then makes a misstep, is
a boundary that was never meant to be executed, converts a text that is no number, or calls a
function that refuses the call.
-/
namespace ApiScript

open Run Statement

def Statement.IsWritten (s : Statement) : Prop := ∀ t ∈ preorder [s], t.instruction.IsWritten

def Program.IsWritten (program : Program) : Prop :=
  ∀ s ∈ preorder program.statements, s.instruction.IsWritten

theorem Statement.IsWritten.instruction {s : Statement} (h : s.IsWritten) :
    s.instruction.IsWritten := Every.instruction h

theorem Statement.IsWritten.child {s t : Statement} (h : s.IsWritten) (ht : t ∈ s.children) :
    t.IsWritten := Every.child h ht

theorem Statement.IsWritten.condition {s : Statement} (h : s.IsWritten) {condition : Condition}
    (hi : s.instruction = .branch condition ∨ s.instruction = .loop condition) :
    ∀ operand ∈ condition.operands, operand.IsWritten := by
  have hwritten := h.instruction
  unfold Instruction.IsWritten at hwritten
  rcases hi with hi | hi
  · rwa [hi] at hwritten
  · rwa [hi] at hwritten

theorem Statement.IsWritten.args {s : Statement} (h : s.IsWritten) {c : Call} (hcalls : s.Calls c) :
    ∀ operand ∈ c.args, operand.IsWritten := by
  have hwritten := h.instruction
  unfold Instruction.IsWritten at hwritten
  rcases hcalls with hi | ⟨target, hi⟩
  · rwa [hi] at hwritten
  · rwa [hi] at hwritten

theorem Program.IsWritten.function {program : Program} (h : program.IsWritten) {name : String}
    {function t : Statement} (hfunction : program.function? name = some function)
    (ht : t ∈ function.body) : t.IsWritten := Every.of_function h hfunction ht

namespace Run

variable {good : Value → Prop} {F : Fault → Prop} {exec : Statement → Run Flow}

abbrev StaysSound {α : Type} (good : Value → Prop) (x : Run α) : Prop :=
  Yields (Sound good) (fun _ => True) (fun _ => True) x

theorem Yields.staysSound {α : Type} {P : α → Prop} {x : Run α} (hx : Yields (Sound good) P F x) :
    StaysSound good x := hx.mono (fun _ _ => trivial) fun _ _ => trivial

theorem staysSound_block {statements : List Statement}
    (hexec : ∀ s ∈ statements, StaysSound good (exec s)) :
    StaysSound good (block exec statements) := by
  induction statements with
  | nil => exact .pure trivial
  | cons s rest ih =>
    obtain ⟨hs, hrest⟩ := List.forall_mem_cons.1 hexec
    refine hs.bind fun flow _ => ?_
    cases flow with
    | next => exact ih hrest
    | leave => exact (yields_warnUnreachable rest).bind fun _ _ => .pure trivial

theorem staysSound_repeatWhile {holds : Run Bool} {body : Run Flow}
    (hholds : StaysSound good holds) (hbody : StaysSound good body) (fuel : Nat) :
    StaysSound good (repeatWhile holds body fuel) := by
  induction fuel with
  | zero => exact .unfinished
  | succ fuel ih =>
    refine hholds.bind fun again _ => ?_
    cases again with
    | false => exact .pure trivial
    | true =>
      refine hbody.bind fun flow _ => ?_
      cases flow with
      | next => exact ih
      | leave => exact .pure trivial

theorem sound_purgeScope {m : Machine} (h : Sound good m) : Sound good (purgeScope m) := by
  unfold purgeScope
  split
  · exact h.withStore (h.store.cleanup m.depth)
  · exact h

theorem staysSound_nested {x : Run Flow} (hx : StaysSound good x) : StaysSound good (nested x) := by
  have hleave : StaysSound good leaveBlock :=
    .modify fun _ hm => sound_purgeScope ⟨hm.store, hm.returned, hm.builtins⟩
  refine Yields.bind (yields_note (fun _ => rfl) (fun _ => rfl) fun _ => rfl) fun _ _ => ?_
  exact hx.bind fun flow _ => hleave.bind fun _ _ => .pure trivial

theorem staysSound_locating (location : Location) {x : Run Flow} (hx : StaysSound good x) :
    StaysSound good (locating location x) := by
  intro m hm
  have hend := hx m hm
  unfold locating
  cases h : x m with
  | done flow m' =>
    rw [h] at hend
    exact hend
  | failed fault m' =>
    rw [h] at hend
    exact hend
  | unfinished m' =>
    rw [h] at hend
    exact hend

theorem staysSound_openFrame {args : List Value} (hargs : ∀ v ∈ args, good v) (name : String)
    (params : List String) (returns : Option Kind) :
    StaysSound good (openFrame name params args returns) := by
  have hpush : StaysSound good (modify fun m => { m with store := m.store.pushFrame }) :=
    .modify fun _ hm => hm.withStore hm.store.pushFrame
  have hbindings : ∀ binding ∈ params.zip args, good binding.2 := by
    intro binding hbinding
    exact hargs binding.2 (List.of_mem_zip hbinding).2
  refine Yields.machine.bind fun caller _ => hpush.bind fun _ _ => ?_
  refine (yields_bindParams caller.depth hbindings).staysSound.bind fun _ _ => ?_
  exact yields_note (fun _ => rfl) (fun _ => rfl) fun _ => rfl

/-- The frames of the caller are sound again when the frame on top of them is dropped. -/
theorem staysSound_activate (hkeeps : ∀ s, Keeps (exec s)) {body : List Statement}
    (hexec : ∀ s ∈ body, StaysSound good (exec s)) {args : List Value}
    (hargs : ∀ v ∈ args, good v) (name : String) (params : List String) (returns : Option Kind) :
    StaysSound good (activate exec name params args returns body) := by
  intro m hm
  obtain ⟨_, m₁, hopen⟩ := succeeds_openFrame name params args returns m
  have hm₁ := ((staysSound_openFrame hargs name params returns).of_done hm hopen).1
  have hbody := staysSound_block hexec m₁ hm₁
  have hactivate : activate exec name params args returns body m =
      (do let _ ← block exec body; leaveFunction m.returns; onStore Store.popFrame) m₁ := by
    rw [activate, bind_apply, machine]
    dsimp only
    rw [bind_apply, hopen]
  rw [hactivate, bind_apply]
  cases hend : block exec body m₁ with
  | failed fault m₂ =>
    rw [hend] at hbody
    exact hbody
  | unfinished m₂ =>
    rw [hend] at hbody
    exact hbody
  | done flow m₂ =>
    rw [hend] at hbody
    have hran := keeps_block hkeeps body _ _ _ hend
    obtain ⟨houtside, -, -, hcallers, -⟩ := openFrame_eq_done hopen
    have hstore := hran.store.trans houtside
    obtain ⟨store, hpop⟩ : ∃ store, m₂.store.popFrame = .ok store := by
      apply exists_popFrame
      rw [frames_length_of_outside hstore]
      exact Nat.succ_pos _
    obtain ⟨hframes, -, -⟩ := Store.popFrame_of_outside_eq hstore hpop
    dsimp only
    rw [bind_apply, leaveFunction_of_callers (hran.callers.trans hcallers)]
    simp only [onStore, hpop]
    have hsound : store.Sound good := ⟨hframes ▸ hm.store.framed, hframes ▸ hm.store.values⟩
    exact ⟨⟨hsound, hbody.1.returned, hbody.1.builtins⟩, trivial⟩

theorem staysSound_callFunction (hkeeps : ∀ s, Keeps (exec s)) {program : Program} {name : String}
    (hexec : ∀ function, program.function? name = some function →
      ∀ s ∈ function.body, StaysSound good (exec s))
    {args : List Value} (hargs : ∀ v ∈ args, good v) :
    StaysSound good (callFunction program exec name args) := by
  intro m hm
  rcases callFunction_cases program name args m with
    ⟨cause, -, hfailed⟩ | ⟨-, params, function, -, hfunction, -, -, hactivate⟩
  · rw [hfailed]
    exact ⟨hm, trivial⟩
  · rw [hactivate]
    exact staysSound_activate hkeeps (hexec function hfunction) hargs _ _ _ m hm

end Run

theorem Builtin.mem_standard {name : String} {builtin : Builtin}
    (h : Builtin.standard.get? name = some builtin) :
    (name, builtin) ∈ [("atoi", .atoi), ("input", .input), ("itoa", .itoa), ("strcmp", .strcmp),
      ("strlen", .strlen), ("strrev", .strrev)] :=
  Table.get?_eq_some_iff_mem.1 h

theorem Builtin.ne_fixed_of_standard {name : String} {builtin : Builtin}
    (h : Builtin.standard.get? name = some builtin) (result : Option Value) :
    builtin ≠ .fixed result := by
  rintro rfl
  simpa using Builtin.mem_standard h

namespace Run

variable {good : Value → Prop} {exec : Statement → Run Flow} {program : Program} {c : Call}

theorem staysSound_call (hgood : Value.Closed good) (hkeeps : ∀ s, Keeps (exec s))
    (hexec : ∀ function, program.function? c.name = some function →
      ∀ s ∈ function.body, StaysSound good (exec s))
    (hargs : ∀ operand ∈ c.args, operand.IsWritten) : StaysSound good (call program exec c) := by
  refine (yields_resolveAll hgood hargs).mono (fun _ h => h) (fun _ _ => trivial) |>.bind ?_
  intro args hvalues
  refine Yields.machine.bind fun m hm => ?_
  cases hbuiltin : m.builtins.get? c.name with
  | none => exact staysSound_callFunction hkeeps hexec hvalues
  | some builtin =>
    rw [hm.builtins] at hbuiltin
    have hcall := yields_builtin hgood (Builtin.ne_fixed_of_standard hbuiltin) args
    refine (hcall.mono (fun _ h => h) fun _ _ => trivial).bind fun result hresult => ?_
    cases result with
    | none => exact .pure trivial
    | some value => exact yields_pushValue (hresult value rfl)

theorem staysSound_truncateReturned (count : Nat) : StaysSound good (truncateReturned count) :=
  .modify fun _ hm => ⟨hm.store, fun v hv => hm.returned v (List.mem_of_mem_drop hv), hm.builtins⟩

theorem staysSound_callInto (target : String) (hcall : StaysSound good (call program exec c)) :
    StaysSound good (callInto program exec target c) := by
  refine Yields.machine.bind fun before _ => hcall.bind fun _ _ => ?_
  refine Yields.machine.bind fun after hafter => ?_
  cases hreturned : after.returned with
  | nil => exact .raise trivial
  | cons value rest =>
    have hvalue : good value := hafter.returned value (hreturned ▸ List.mem_cons_self)
    dsimp only
    split
    · exact .raise trivial
    · refine (staysSound_truncateReturned _).bind fun _ _ => ?_
      exact (yields_declare target hvalue false none).staysSound

theorem staysSound_perform (hgood : Value.Closed good) (fetcher : Fetcher)
    (hprogram : program.IsWritten) (hkeeps : ∀ s, Keeps (exec s))
    (hexec : ∀ s : Statement, s.IsWritten → StaysSound good (exec s)) (fuel : Nat)
    {s : Statement} (hs : s.IsWritten) :
    StaysSound good (perform fetcher program exec fuel s) := by
  by_cases hatomic : s.instruction.isAtomic = true
  · exact (yields_atomic hgood fetcher program exec fuel hatomic hs.instruction).staysSound
  have hfunction (name : String) (function : Statement)
      (h : program.function? name = some function) :
      ∀ t ∈ function.body, StaysSound good (exec t) :=
    fun t ht => hexec t (hprogram.function h ht)
  unfold perform
  cases hi : s.instruction with
  | branch condition =>
    have htest := (yields_test hgood (hs.condition (.inl hi))).staysSound
    refine staysSound_nested (htest.bind fun holds _ => ?_)
    exact staysSound_block fun t ht => hexec t (hs.child (mem_children_of_taken ht))
  | loop condition =>
    have htest := (yields_test hgood (hs.condition (.inr hi))).staysSound
    have hbody : StaysSound good (block exec s.body) :=
      staysSound_block fun t ht => hexec t (hs.child (List.mem_append_left _ ht))
    exact staysSound_nested (staysSound_repeatWhile htest hbody fuel)
  | call c =>
    have hcall := staysSound_call hgood hkeeps (hfunction c.name) (hs.args (.inl hi))
    refine .andNext (Yields.machine.bind fun before _ => hcall.bind fun _ _ => ?_)
    exact staysSound_truncateReturned _
  | callInto target c =>
    have hcall := staysSound_call hgood hkeeps (hfunction c.name) (hs.args (.inr ⟨target, hi⟩))
    exact .andNext (staysSound_callInto target hcall)
  | _ => simp [hi, Instruction.isAtomic] at hatomic

/-- A statement as it is written keeps a machine sound, however it ends. -/
theorem staysSound_execute (hgood : Value.Closed good) (fetcher : Fetcher)
    (hprogram : program.IsWritten) (fuel : Nat) {s : Statement} (hs : s.IsWritten) :
    StaysSound good (execute fetcher program fuel s) := by
  induction fuel generalizing s with
  | zero => exact .unfinished
  | succ fuel ih =>
    refine (yields_begin s).bind fun _ _ => staysSound_locating s.location ?_
    exact staysSound_perform hgood fetcher hprogram (keeps_execute fetcher program fuel)
      (fun t ht => ih ht) fuel hs

end Run

section Begun

variable {good : Value → Prop} {fetcher : Fetcher} {program : Program}

theorem Sound.begun {m : Machine} (h : Sound good m) (s : Statement) : Sound good (begun s m) :=
  ⟨h.store, h.returned, h.builtins⟩

theorem passedOn_sound (hgood : Value.Closed good) (fetcher : Fetcher)
    (hprogram : program.IsWritten) :
    PassedOn fetcher program fun s m => s.IsWritten ∧ Sound good m where
  inside hs ht := ⟨hs.1.child ht, hs.2⟩
  entered hs := ⟨hs.1, hs.2.store, hs.2.returned, hs.2.builtins⟩
  tested := by
    intro s m m₁ condition holds hs hi htest
    exact ⟨hs.1, ((yields_test hgood (hs.1.condition hi)).of_done hs.2 htest).1⟩
  executed hs ht hdone :=
    ⟨ht.1, ((staysSound_execute hgood fetcher hprogram _ hs.1).of_done hs.2 hdone).1⟩
  called := by
    intro s t function m m₁ c args params hs hcalls hargs hfunction _ hopen ht
    have hbegun := hs.2.begun s
    have hvalues := ((yields_resolveAll hgood (hs.1.args hcalls)).of_done hbegun hargs).2
    have hopened := (staysSound_openFrame hvalues _ _ _).of_done hbegun hopen
    exact ⟨hprogram.function hfunction ht, hopened.1⟩

/-- From a machine that holds good values only, statements begin in sound states. -/
theorem sound_of_runBegins (hgood : Value.Closed good) (hprogram : program.IsWritten)
    {m n : Machine} {t : Statement} (hstore : m.store.pushFrame.Sound good)
    (hreturned : ∀ v ∈ m.returned, good v) (hbuiltins : m.builtins = Builtin.standard)
    (h : RunBegins fetcher program m t n) : t.IsWritten ∧ Sound good n := by
  refine (passedOn_sound hgood fetcher hprogram).runBegins ?_ h
  intro main m₁ hmain henter s hs
  cases henter
  exact ⟨hprogram.function hmain hs, hstore, hreturned, hbuiltins⟩

inductive Mistake (good : Value → Prop) (program : Program) (s : Statement) (m : Machine) :
    Fault → Prop
  | misstep {fault : Fault} : Misstep good fault → Mistake good program s m fault
  | boundary : s.instruction.isBoundary = true →
    Mistake good program s m ⟨.notInvocable s.instruction.keyword, none⟩
  | conversion {c : Call} {text : String} : s.Calls c → c.name = "atoi" →
    Mistake good program s m ⟨.invalidNumber text, none⟩
  | refused {c : Call} {args : List Value} {cause : Cause} : s.Calls c →
    resolveAll c.args m = .done args m → m.isBuiltin c.name = false →
    program.refusal? m c.name args.length = some cause → Mistake good program s m ⟨cause, none⟩

theorem Misstep.location {fault : Fault} (h : Misstep good fault) : fault.location = none := by
  cases h <;> rfl

theorem Mistake.location {s : Statement} {m : Machine} {fault : Fault}
    (h : Mistake good program s m fault) : fault.location = none := by
  cases h with
  | misstep h => exact h.location
  | boundary => rfl
  | conversion => rfl
  | refused => rfl

theorem Rounds.sound (hgood : Value.Closed good) (hprogram : program.IsWritten) {s : Statement}
    (hs : s.IsWritten) {condition : Condition}
    (hi : s.instruction = .branch condition ∨ s.instruction = .loop condition) {m m₁ : Machine}
    (h : Rounds fetcher program condition s.body m m₁) (hm : Sound good m) : Sound good m₁ := by
  induction h with
  | refl m => exact hm
  | @round m m₁ m₂ m₃ fuel htest hbody _ ih =>
    have htested := ((yields_test hgood (hs.condition hi)).of_done hm htest).1
    have hblock : StaysSound good (block (execute fetcher program fuel) s.body) :=
      staysSound_block fun t ht =>
        staysSound_execute hgood fetcher hprogram fuel (hs.child (List.mem_append_left _ ht))
    exact ih (hblock.of_done htested hbody).1

theorem Slip.mistake (hgood : Value.Closed good) (hprogram : program.IsWritten) {s : Statement}
    (hs : s.IsWritten) {m m' : Machine} (hm : Sound good m) {fault : Fault}
    (h : Slip fetcher program s m fault m') : Mistake good program s m fault := by
  have hfunction (fuel : Nat) (name : String) (function : Statement)
      (h : program.function? name = some function) :
      ∀ t ∈ function.body, StaysSound good (execute fetcher program fuel t) :=
    fun t ht => staysSound_execute hgood fetcher hprogram fuel (hprogram.function h ht)
  cases h with
  | @atomic _ _ fuel hatomic hperform =>
    have hend := (yields_atomic hgood fetcher program (execute fetcher program fuel) fuel hatomic
      hs.instruction).of_failed hm hperform
    rcases hend.2 with hmisstep | ⟨hboundary, rfl⟩
    · exact .misstep hmisstep
    · exact .boundary hboundary
  | test hi hrounds htest =>
    have hentered : Sound good { m with depth := m.depth + 1 } :=
      ⟨hm.store, hm.returned, hm.builtins⟩
    have hsound := hrounds.sound hgood hprogram hs hi hentered
    exact .misstep ((yields_test hgood (hs.condition hi)).of_failed hsound htest).2
  | args hcalls hargs =>
    exact .misstep ((yields_resolveAll hgood (hs.args hcalls)).of_failed hm hargs).2
  | @builtin c args builtin _ _ hcalls hargs hbuiltin hcall =>
    rw [hm.builtins] at hbuiltin
    have hend := (yields_builtin hgood (Builtin.ne_fixed_of_standard hbuiltin) args).of_failed hm
      hcall
    rcases hend.2 with hmisstep | ⟨rfl, text, rfl⟩
    · exact .misstep hmisstep
    · exact .conversion hcalls (by simpa using Builtin.mem_standard hbuiltin)
  | @refused c _ _ hcalls hargs hbuiltin hrefused =>
    have hnot : m.isBuiltin c.name = false := by simp [Machine.isBuiltin, Table.contains, hbuiltin]
    exact .refused hcalls hargs hnot hrefused
  | void => exact .misstep (.ordinary rfl)
  | @result target c after _ value fuel _ hi hcall hvalue hdeclare =>
    have hafter := ((staysSound_call hgood (keeps_execute fetcher program fuel)
      (hfunction fuel c.name) (hs.args (.inr ⟨target, hi⟩))).of_done hm hcall).1
    have hsound : Sound good { after with returned := m.returned } :=
      ⟨hafter.store, hm.returned, hafter.builtins⟩
    have hend := (yields_declare target (hafter.returned value hvalue) false none).of_failed hsound
      hdeclare
    exact .misstep hend.2

end Begun

end ApiScript
