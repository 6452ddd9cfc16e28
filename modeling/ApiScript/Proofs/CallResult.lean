import ApiScript.Proofs.Begun
import ApiScript.Proofs.FrameWrites

/-!
# Results of calls

A function is left by one `return` of its own, in a block at any depth, or it runs off its end. The
statements of its frame that it executes until then return nothing, since each call among them takes
back what the called function returned. So what lies on top of the returned values after a call is
what the `return` that ended it handed over.
-/
namespace ApiScript

open Run Statement

structure LeavesIn (level : Nat) (operand : Option Operand) (t : Statement) (n : Machine) :
    Prop where
  instruction : t.instruction = .leave operand
  frame : n.store.frames.length = level

inductive Hands (n : Machine) : Option Operand → Option Value → Prop
  | nothing : Hands n none none
  | value {operand : Operand} {value : Value} (h : resolve operand n = .done value n) :
    Hands n (some operand) (some value)

/-- How control left the statements that begin in a frame: none was a `return` and it went on, or
the only `return` among them handed something over, of the declared kind if one is declared. -/
inductive Exits (level : Nat) (returns : Option Kind) (b : Statement → Machine → Prop) :
    Flow → Option Value → Prop
  | on (h : ∀ t n operand, b t n → ¬ LeavesIn level operand t n) : Exits level returns b .next none
  | left {t : Statement} {n : Machine} {operand : Option Operand} {handed : Option Value}
    (hbegun : b t n) (hleaves : LeavesIn level operand t n)
    (honly : ∀ t' n' operand', b t' n' → LeavesIn level operand' t' n' → t' = t ∧ n' = n)
    (hhands : Hands (begun t n) operand handed)
    (hkind : ∀ value kind, handed = some value → returns = some kind → value.kind = kind) :
    Exits level returns b .leave handed

def Exited (level : Nat) (b : Statement → Machine → Prop) (flow : Flow) (m m' : Machine) : Prop :=
  ∃ handed : Option Value,
    Exits level m.returns b flow handed ∧ m'.returned = handed.toList ++ m.returned

namespace Exited

variable {level : Nat} {b b' : Statement → Machine → Prop} {flow flow₁ : Flow} {m m₁ m' : Machine}

theorem congr (hb : ∀ t n, b' t n ↔ b t n) :
    Exited level b' flow m m' ↔ Exited level b flow m m' := by
  have hsame : b' = b := funext fun t => funext fun n => propext (hb t n)
  rw [hsame]

theorem on (h : ∀ t n operand, b t n → ¬ LeavesIn level operand t n)
    (hreturned : m'.returned = m.returned) : Exited level b .next m m' :=
  ⟨none, .on h, hreturned⟩

/-- States around that agree on what is returned may be put in the place of the ends. -/
theorem around {m₀ m₂ : Machine} (h : Exited level b flow m m') (hreturns : m₀.returns = m.returns)
    (hbefore : m₀.returned = m.returned) (hafter : m₂.returned = m'.returned) :
    Exited level b flow m₀ m₂ := by
  obtain ⟨handed, hexits, hreturned⟩ := h
  refine ⟨handed, ?_, ?_⟩
  · rwa [hreturns]
  · rw [hafter, hbefore, hreturned]

/-- What comes after statements begins only if none of them was a `return`. -/
theorem trans (h₁ : Exited level b flow₁ m m₁) (hreturns : m₁.returns = m.returns)
    (hnext : flow₁ = .next → Exited level b' flow m₁ m')
    (hleave : flow₁ = .leave → flow = .leave ∧ m'.returned = m₁.returned) :
    Exited level (fun t n => b t n ∨ flow₁ = .next ∧ b' t n) flow m m' := by
  obtain ⟨handed₁, hexits₁, hreturned₁⟩ := h₁
  cases hexits₁ with
  | on hnone =>
    obtain ⟨handed, hexits, hreturned⟩ := hnext rfl
    rw [hreturns] at hexits
    refine ⟨handed, ?_, by rw [hreturned, hreturned₁]; rfl⟩
    cases hexits with
    | on hnone' =>
      apply Exits.on
      rintro t n operand (hb | ⟨-, hb'⟩)
      · exact hnone t n operand hb
      · exact hnone' t n operand hb'
    | left hbegun hleaves honly hhands hkind =>
      apply Exits.left (.inr ⟨rfl, hbegun⟩) hleaves ?_ hhands hkind
      rintro t' n' operand' (hb | ⟨-, hb'⟩) hleaves'
      · exact absurd hleaves' (hnone t' n' operand' hb)
      · exact honly t' n' operand' hb' hleaves'
  | left hbegun hleaves honly hhands hkind =>
    obtain ⟨rfl, hreturned⟩ := hleave rfl
    refine ⟨handed₁, ?_, hreturned.trans hreturned₁⟩
    apply Exits.left (.inl hbegun) hleaves ?_ hhands hkind
    rintro t' n' operand' (hb | ⟨hnever, -⟩) hleaves'
    · exact honly t' n' operand' hb hleaves'
    · cases hnever

/-- A statement that is no `return` itself begins before those inside it. -/
theorem self_or {s : Statement} (hs : ∀ operand, s.instruction ≠ .leave operand)
    (h : Exited level b flow m m') :
    Exited level (fun t n => (t = s ∧ n = m) ∨ b t n) flow m m' := by
  have hself : Exited level (fun t n => t = s ∧ n = m) .next m m := by
    apply Exited.on _ rfl
    rintro t n operand ⟨rfl, rfl⟩ hleaves
    exact hs operand hleaves.instruction
  have hboth := hself.trans rfl (fun _ => h) nofun
  exact (congr fun t n => by simp).1 hboth

end Exited

namespace Run

variable {α : Type}

theorem Makes.returned_eq {x : Run α} (hx : Makes SilentChange x) {a : α} {m m' : Machine}
    (h : x m = .done a m') : m'.returned = m.returned := by
  have hchanges := hx.of_done h
  clear h
  induction hchanges with
  | refl => rfl
  | tail _ hlast ih => exact hlast.returned.trans ih

theorem pushReturned_eq_done {value : Value} {m m' : Machine}
    (h : pushReturned value m = .done () m') :
    (∀ kind, m.returns = some kind → value.kind = kind) ∧
      m'.returned = value :: m.returned := by
  obtain ⟨_, m₁, hm, h⟩ := bind_eq_done h
  cases hm
  cases hreturns : m.returns with
  | none =>
    rw [hreturns] at h
    cases h
    exact ⟨nofun, rfl⟩
  | some kind =>
    rw [hreturns] at h
    dsimp only at h
    split at h
    · next hkind =>
      cases h
      exact ⟨by simp [hkind], rfl⟩
    · cases h

theorem returned_purgeScope (m : Machine) : (purgeScope m).returned = m.returned := by
  unfold purgeScope
  split
  · rfl
  · rfl

end Run

section Execution

variable {fetcher : Fetcher} {program : Program} {level fuel : Nat} {m m' : Machine} {flow : Flow}

def ExitsInside (fetcher : Fetcher) (program : Program) (level fuel : Nat) : Prop :=
  ∀ s m flow m', m.store.frames.length = level → execute fetcher program fuel s m = .done flow m' →
    Exited level (fun t n => Begins fetcher program t n s m) flow m m'

theorem exited_block (hexec : ExitsInside fetcher program level fuel) {statements : List Statement}
    (hlevel : m.store.frames.length = level)
    (h : block (execute fetcher program fuel) statements m = .done flow m') :
    Exited level (fun t n => BlockBegins fetcher program t n statements m) flow m m' := by
  induction statements generalizing m with
  | nil =>
    cases h
    exact .on (fun _ _ _ hbegins => absurd hbegins not_blockBegins_nil) rfl
  | cons s rest ih =>
    obtain ⟨flow₁, m₁, hs, hrest⟩ := bind_eq_done h
    have hkept := keeps_execute _ _ _ _ _ _ _ hs
    rw [Exited.congr fun t n => blockBegins_cons_iff hs]
    refine (hexec s m flow₁ m₁ hlevel hs).trans hkept.returns ?_ ?_
    · rintro rfl
      exact ih ((frames_length_of_outside hkept.store).trans hlevel) hrest
    · rintro rfl
      obtain ⟨_, m₂, hwarned, hpure⟩ := bind_eq_done hrest
      cases hpure
      exact ⟨rfl, (notes_warnUnreachable rest).silent.returned_eq hwarned⟩

theorem exited_repeatWhile (hexec : ExitsInside fetcher program level fuel) {condition : Condition}
    {body : List Statement} (rounds : Nat) (hlevel : m.store.frames.length = level)
    (h : repeatWhile (test condition) (block (execute fetcher program fuel) body) rounds m =
      .done flow m') :
    Exited level (fun t n => LoopBegins fetcher program t n condition body m) flow m m' := by
  induction rounds generalizing m with
  | zero => cases h
  | succ rounds ih =>
    obtain ⟨again, m₁, htest, h⟩ := bind_eq_done h
    have htested := (makes_test condition).keeps _ _ _ htest
    have hreturned := (notes_test condition).silent.returned_eq htest
    have hlevel₁ := (frames_length_of_outside htested.store).trans hlevel
    cases again with
    | false =>
      cases h
      exact .on (fun _ _ _ hbegins => absurd hbegins (not_loopBegins htest)) hreturned
    | true =>
      obtain ⟨flow₁, m₂, hbody, hrest⟩ := bind_eq_done h
      have hround := keeps_block (keeps_execute _ _ _) _ _ _ _ hbody
      rw [Exited.congr fun t n => loopBegins_iff htest hbody]
      refine Exited.around ?_ htested.returns.symm hreturned.symm rfl
      refine (exited_block hexec hlevel₁ hbody).trans hround.returns ?_ ?_
      · rintro rfl
        exact ih ((frames_length_of_outside hround.store).trans hlevel₁) hrest
      · rintro rfl
        cases hrest
        exact ⟨rfl, rfl⟩

theorem exited_branch (hexec : ExitsInside fetcher program level fuel) {s : Statement}
    {condition : Condition} (hs : s.instruction = .branch condition)
    (hlevel : m.store.frames.length = level)
    (h : branch (execute fetcher program fuel) condition s.body s.alt (begun s m) = .done flow m') :
    Exited level (fun t n => Begins fetcher program t n s m) flow m m' := by
  obtain ⟨m₂, hinside, rfl⟩ := nested_eq_done h
  obtain ⟨holds, m₁, htest, hbody⟩ := bind_eq_done hinside
  have htested := (makes_test condition).keeps _ _ _ htest
  have hreturned := (notes_test condition).silent.returned_eq htest
  have hlevel₁ : m₁.store.frames.length = level :=
    (frames_length_of_outside htested.store).trans hlevel
  rw [Exited.congr fun t n => begins_branch_iff hs htest]
  apply Exited.self_or (by simp [hs])
  refine (exited_block hexec hlevel₁ hbody).around htested.returns.symm hreturned.symm ?_
  rw [returned_purgeScope]

theorem exited_loop (hexec : ExitsInside fetcher program level fuel) {s : Statement}
    {condition : Condition} (rounds : Nat) (hs : s.instruction = .loop condition)
    (hlevel : m.store.frames.length = level)
    (h : loop (execute fetcher program fuel) rounds condition s.body (begun s m) = .done flow m') :
    Exited level (fun t n => Begins fetcher program t n s m) flow m m' := by
  obtain ⟨m₂, hinside, rfl⟩ := nested_eq_done h
  have hentered : ({ begun s m with depth := m.depth + 1 } : Machine).store.frames.length = level :=
    hlevel
  rw [Exited.congr fun t n => begins_loop_iff hs]
  apply Exited.self_or (by simp [hs])
  refine (exited_repeatWhile hexec rounds hentered hinside).around rfl rfl ?_
  rw [returned_purgeScope]

/-- A call takes back what was returned in the frames above that of the caller. -/
theorem exited_of_calls {s : Statement} {c : Call} (hs : s.Calls c)
    (hlevel : m.store.frames.length = level) (h : m'.returned = m.returned) :
    Exited level (fun t n => Begins fetcher program t n s m) .next m m' := by
  refine .on ?_ h
  intro t n operand hbegins hleaves
  rcases begins_of_calls hs hbegins with ⟨rfl, rfl⟩ | habove
  · have hleave := hleaves.instruction
    rcases hs with hi | ⟨target, hi⟩
    · simp [hi] at hleave
    · simp [hi] at hleave
  · rw [hleaves.frame, hlevel] at habove
    exact Nat.lt_irrefl _ habove

theorem exited_leave {s : Statement} {operand : Option Operand}
    (hs : s.instruction = .leave operand) (hlevel : m.store.frames.length = level)
    (h : leave operand (begun s m) = .done () m') :
    Exited level (fun t n => t = s ∧ n = m) .leave m m' := by
  have hleaves : LeavesIn level operand s m := ⟨hs, hlevel⟩
  have honly (t' : Statement) (n' : Machine) (operand' : Option Operand)
      (hself : t' = s ∧ n' = m) (_ : LeavesIn level operand' t' n') : t' = s ∧ n' = m := hself
  cases operand with
  | none =>
    cases h
    exact ⟨none, .left ⟨rfl, rfl⟩ hleaves honly .nothing nofun, rfl⟩
  | some operand =>
    obtain ⟨value, m₁, hvalue, hpush⟩ := bind_eq_done h
    obtain rfl := (makes_resolve operand).eq_of_done hvalue
    obtain ⟨hkind, hreturned⟩ := pushReturned_eq_done hpush
    refine ⟨some value, .left ⟨rfl, rfl⟩ hleaves honly (.value hvalue) ?_, hreturned⟩
    intro _ kind hhanded hreturns
    cases hhanded
    exact hkind kind hreturns

theorem flow_of_perform {s : Statement} {exec : Statement → Run Flow} {n : Machine}
    (hatomic : s.instruction.isAtomic = true) (hleave : ∀ operand, s.instruction ≠ .leave operand)
    (h : perform fetcher program exec fuel s n = .done flow m') : flow = .next := by
  have hnext {x : Run Unit} (hx : andNext x n = .done flow m') : flow = .next := by
    obtain ⟨_, m₁, -, hpure⟩ := bind_eq_done hx
    cases hpure
    rfl
  unfold perform at h
  cases hi : s.instruction with
  | define signature =>
    rw [hi] at h
    cases h
    rfl
  | leave operand => exact absurd hi (hleave operand)
  | otherwise chained =>
    rw [hi] at h
    cases h
  | close =>
    rw [hi] at h
    cases h
  | branch condition => simp [hi, Instruction.isAtomic] at hatomic
  | loop condition => simp [hi, Instruction.isAtomic] at hatomic
  | call c => simp [hi, Instruction.isAtomic] at hatomic
  | callInto target c => simp [hi, Instruction.isAtomic] at hatomic
  | _ =>
    rw [hi] at h
    exact hnext h

theorem exited_perform (hexec : ExitsInside fetcher program level fuel) {s : Statement}
    (hlevel : m.store.frames.length = level)
    (h : perform fetcher program (execute fetcher program fuel) fuel s (begun s m) =
      .done flow m') :
    Exited level (fun t n => Begins fetcher program t n s m) flow m m' := by
  have hkeeps := keeps_execute fetcher program fuel
  by_cases hatomic : s.instruction.isAtomic = true
  · rw [Exited.congr fun t n => begins_iff_of_isAtomic hatomic]
    by_cases hleave : ∃ operand, s.instruction = .leave operand
    · obtain ⟨operand, hs⟩ := hleave
      unfold perform at h
      rw [hs] at h
      obtain ⟨_, m₁, hleft, hpure⟩ := bind_eq_done h
      cases hpure
      exact exited_leave hs hlevel hleft
    · have hnot (operand : Option Operand) : s.instruction ≠ .leave operand :=
        fun hs => hleave ⟨operand, hs⟩
      have hsilent := silent_perform_of_isAtomic fetcher program (execute fetcher program fuel) fuel
        hatomic hnot
      obtain rfl : flow = .next := flow_of_perform hatomic hnot h
      have hreturned : m'.returned = (begun s m).returned := hsilent.returned_eq h
      refine .on ?_ hreturned
      rintro t n operand ⟨rfl, rfl⟩ hleaves
      exact hnot operand hleaves.instruction
  · unfold perform at h
    cases hi : s.instruction with
    | branch condition =>
      rw [hi] at h
      exact exited_branch hexec hi hlevel h
    | loop condition =>
      rw [hi] at h
      exact exited_loop hexec fuel hi hlevel h
    | call c =>
      rw [hi] at h
      obtain ⟨_, m₁, hcall, hpure⟩ := bind_eq_done h
      cases hpure
      obtain ⟨after, -, rfl⟩ := callAndDrop_eq_done hkeeps hcall
      exact exited_of_calls (.inl hi) hlevel rfl
    | callInto target c =>
      rw [hi] at h
      obtain ⟨_, m₁, hcall, hpure⟩ := bind_eq_done h
      cases hpure
      obtain ⟨after, value, rest, store, -, -, -, -, rfl⟩ := callInto_eq_done hkeeps hcall
      exact exited_of_calls (.inr ⟨target, hi⟩) hlevel rfl
    | _ => simp [hi, Instruction.isAtomic] at hatomic

/-- Whatever is executed in a frame leaves what its `return` handed over, and nothing else. -/
theorem exits_execute (fetcher : Fetcher) (program : Program) (level fuel : Nat) :
    ExitsInside fetcher program level fuel := by
  induction fuel with
  | zero =>
    intro s m flow m' _ h
    cases h
  | succ fuel ih =>
    intro s m flow m' hlevel h
    obtain ⟨_, m₁, hbegin, h⟩ := bind_eq_done h
    cases hbegin
    exact exited_perform ih hlevel (locating_eq_done h)

end Execution

namespace Run

variable {program : Program} {exec : Statement → Run Flow} {c : Call} {m m₁ m₂ after : Machine}
  {function : Statement} {flow : Flow}

theorem returned_of_openFrame {name : String} {params : List String} {args : List Value}
    {returns : Option Kind} (h : openFrame name params args returns m = .done () m₁) :
    m₁.returned = m.returned ∧ m₁.returns = returns := by
  obtain ⟨caller, _, hm, h⟩ := bind_eq_done h
  cases hm
  obtain ⟨_, _, hpush, h⟩ := bind_eq_done h
  cases hpush
  obtain ⟨_, m₂, hbind, henter⟩ := bind_eq_done h
  cases henter
  have hbound := (silent_bindParams _ _).returned_eq hbind
  exact ⟨hbound, rfl⟩

/-- A call whose body ends well ends well. -/
theorem Enters.exists_call (h : Enters program c m function m₁) (hexec : ∀ s, Keeps (exec s))
    (hbody : block exec function.body m₁ = .done flow m₂) :
    ∃ after, call program exec c m = .done () after ∧ after.returned = m₂.returned := by
  have hcall := h.call_eq exec
  obtain ⟨-, -, -, -, -, -, hopen⟩ := h
  obtain ⟨-, -, -, hcallers, -⟩ := openFrame_eq_done hopen
  have hkept := keeps_block hexec _ _ _ _ hbody
  have hframes : 0 < m₂.store.frames.length := by
    rw [frames_length_of_outside hkept.store, frames_length_of_openFrame hopen]
    exact Nat.succ_pos _
  obtain ⟨store, hpop⟩ := exists_popFrame hframes
  rw [bind_of_done hbody, bind_of_done (leaveFunction_of_callers (hkept.callers.trans hcallers) _),
    onStore, hpop] at hcall
  exact ⟨_, hcall, rfl⟩

theorem callInto_of_void (target : String) (hcall : call program exec c m = .done () after)
    (hreturned : after.returned = m.returned) :
    callInto program exec target c m = .failed ⟨.voidResult c.name, none⟩ after := by
  have hmachine (n : Machine) : machine n = .done n n := rfl
  rw [callInto, bind_of_done (hmachine m), bind_of_done hcall, bind_of_done (hmachine after),
    hreturned]
  cases m.returned with
  | nil => rfl
  | cons value rest =>
    dsimp only
    rw [if_pos (Nat.le_refl _)]
    rfl

theorem callInto_of_value (target : String) {value : Value}
    (hcall : call program exec c m = .done () after)
    (hreturned : after.returned = value :: m.returned) :
    callInto program exec target c m =
      declare target value false none { after with returned := m.returned } := by
  have hmachine (n : Machine) : machine n = .done n n := rfl
  have hdrop : truncateReturned m.returned.length after =
      .done () { after with returned := m.returned } :=
    truncateReturned_of_suffix (hreturned ▸ List.suffix_cons value m.returned)
  rw [callInto, bind_of_done (hmachine m), bind_of_done hcall, bind_of_done (hmachine after),
    hreturned]
  dsimp only
  rw [if_neg (by simp), bind_of_done hdrop]

end Run

/-- What a declaration does to the frames depends on the frames only. -/
theorem Store.declare_of_frames_eq {s s' t : Store} (h : t.frames = s.frames) {name : String}
    {value : Value} {depth : Nat} {constant : Bool} {status : Option Nat}
    (hdeclare : s.declare name value depth constant status = .ok s') :
    ∃ t', t.declare name value depth constant status = .ok t' ∧ t'.frames = s'.frames := by
  unfold Store.declare at hdeclare ⊢
  rw [h]
  split at hdeclare
  · cases hdeclare
  · split at hdeclare
    · cases hdeclare
      exact ⟨_, rfl, rfl⟩
    · split at hdeclare
      · cases hdeclare
      · next hvariable =>
        cases hdeclare
        dsimp only
        rw [if_neg hvariable]
        exact ⟨_, rfl, rfl⟩

section Result

variable {fetcher : Fetcher} {program : Program} {fuel : Nat} {s function : Statement}
  {target : String} {c : Call} {m m₁ m₂ : Machine} {flow : Flow}

theorem execute_callInto (hs : s.instruction = .callInto target c) :
    execute fetcher program (fuel + 1) s m =
      locating s.location (andNext (callInto program (execute fetcher program fuel) target c))
        (begun s m) := by
  have hexecute : execute fetcher program (fuel + 1) s m =
      locating s.location (perform fetcher program (execute fetcher program fuel) fuel s)
        (begun s m) := rfl
  rw [hexecute, perform, hs]

theorem execute_of_void {after : Machine} (hs : s.instruction = .callInto target c)
    (hcall : call program (execute fetcher program fuel) c (begun s m) = .done () after)
    (hreturned : after.returned = m.returned) :
    execute fetcher program (fuel + 1) s m =
      .failed ⟨.voidResult c.name, some s.location⟩ after := by
  have hvoid := callInto_of_void target hcall hreturned
  rw [execute_callInto hs, locating, andNext, bind_of_failed hvoid]
  rfl

/-- A call that returned a value ends as the declaration of its target does. -/
theorem execute_of_value {after : Machine} {value : Value}
    (hs : s.instruction = .callInto target c)
    (hcall : call program (execute fetcher program fuel) c (begun s m) = .done () after)
    (hreturned : after.returned = value :: m.returned) :
    execute fetcher program (fuel + 1) s m =
      match after.store.declare target value after.depth false none with
      | .ok store => .done .next { after with returned := m.returned, store }
      | .error cause => .failed ⟨cause, some s.location⟩ { after with returned := m.returned } := by
  have hinto : callInto program (execute fetcher program fuel) target c (begun s m) =
      match after.store.declare target value after.depth false none with
      | .ok store => .done () { after with returned := m.returned, store }
      | .error cause => .failed ⟨cause, none⟩ { after with returned := m.returned } :=
    callInto_of_value target hcall hreturned
  rw [execute_callInto hs, locating, andNext, bind_apply, hinto]
  cases after.store.declare target value after.depth false none with
  | ok store => rfl
  | error cause => rfl

/-- A call whose body ends well gives what the `return` that ended the body handed over: the value
that its operand had there, of the declared kind if one is declared. The target is declared with
that value unless it is a constant. Without a `return`, or with a bare one, the call has no
result, whatever was returned before and inside. -/
theorem calls_give_what_return_handed_over (hs : s.instruction = .callInto target c)
    (henters : Enters program c (begun s m) function m₁)
    (hbody : block (execute fetcher program fuel) function.body m₁ = .done flow m₂) :
    ∃ handed : Option Value,
      Exits m₁.store.frames.length (returnsOf function)
        (fun t n => BlockBegins fetcher program t n function.body m₁) flow handed ∧
      match handed with
      | none => ∃ m', execute fetcher program (fuel + 1) s m =
          .failed ⟨.voidResult c.name, some s.location⟩ m'
      | some value =>
        (∀ symbol, m.store.symbol? target = some symbol → symbol.constant = true →
          ∃ m', execute fetcher program (fuel + 1) s m =
            .failed ⟨.constantModified target, some s.location⟩ m') ∧
        (m.store.frames ≠ [] →
          (∀ symbol, m.store.symbol? target = some symbol → symbol.constant = false) →
          ∃ store m', m.store.declare target value m.depth false none = .ok store ∧
            execute fetcher program (fuel + 1) s m = .done .next m' ∧
            m'.store.frames = store.frames ∧ m'.returned = m.returned) := by
  have hkeeps := keeps_execute fetcher program fuel
  obtain ⟨after, hcall, hafter⟩ := henters.exists_call hkeeps hbody
  obtain ⟨-, hbuiltin, -, -, -, -, hopen⟩ := henters
  obtain ⟨hopened, hreturns⟩ := returned_of_openFrame hopen
  obtain ⟨handed, hexits, hreturned⟩ :=
    exited_block (exits_execute fetcher program _ fuel) rfl hbody
  have hrestored := restored_of_call hkeeps hcall hbuiltin
  rw [hreturns] at hexits
  rw [← hafter, hopened] at hreturned
  refine ⟨handed, hexits, ?_⟩
  cases handed with
  | none => exact ⟨after, execute_of_void hs hcall hreturned⟩
  | some value =>
    have hexecute := execute_of_value hs hcall hreturned
    have hframes : after.store.frames = m.store.frames := hrestored.frames
    rw [hrestored.depth] at hexecute
    constructor
    · intro symbol hsymbol hconstant
      rw [← Store.symbol?_congr hframes target] at hsymbol
      rw [Store.declare_of_constant hsymbol hconstant] at hexecute
      exact ⟨_, hexecute⟩
    · intro hne hvariable
      obtain ⟨store, hdeclare⟩ := Store.exists_declare hne hvariable value m.depth false none
      obtain ⟨written, hwritten, hsame⟩ := Store.declare_of_frames_eq hframes hdeclare
      change execute fetcher program (fuel + 1) s m =
        match after.store.declare target value m.depth false none with
        | .ok store => _
        | .error cause => _ at hexecute
      rw [hwritten] at hexecute
      exact ⟨store, _, hdeclare, hexecute, hsame, rfl⟩

end Result

def relayProgram : Program :=
  let line (number : Nat) : Location := ⟨number, "relay.neb"⟩
  ⟨[⟨.define ⟨"count", [], some .num⟩, line 1,
      [⟨.branch ⟨true, .declared "done"⟩, line 2,
        [.leaf (.call ⟨"label", []⟩) (line 3), .leaf (.callInto "text" ⟨"label", []⟩) (line 4),
          .leaf (.assign "seven" (.number "7") false) (line 5),
          .leaf (.leave (some (.name "seven"))) (line 6)], []⟩,
        .leaf (.leave (some (.number "8"))) (line 8)], []⟩,
    ⟨.define ⟨"label", [], some .str⟩, line 10,
      [.leaf (.leave (some (.literal "label"))) (line 11)], []⟩]⟩

theorem relayProgram_gives_seven :
    let s : Statement := .leaf (.callInto "x" ⟨"count", []⟩) ⟨20, "relay.neb"⟩
    let m : Machine :=
      { store := { frames := [∅], signatures := .ofList [("count", []), ("label", [])] },
        returned := [.string "old"] }
    let function := relayProgram.statements.head (by decide)
    let m₁ := (openFrame "count" [] [] (some .num) (begun s m)).machine
    Enters relayProgram ⟨"count", []⟩ (begun s m) function m₁ ∧
      ∃ value : Value,
        Exits 2 (some .num)
          (fun t n => BlockBegins (fun _ _ => {}) relayProgram t n function.body m₁)
          .leave (some value) ∧
        ∃ store m', m.store.declare "x" value 0 false none = .ok store ∧
          execute (fun _ _ => {}) relayProgram 10 s m = .done .next m' ∧
          m'.store.frames = store.frames ∧
          m'.store.symbol? "x" = some ⟨.number "7", 0, false, none⟩ ∧ m'.returned = [.string "old"] := by
  intro s m function m₁
  have henters : Enters relayProgram ⟨"count", []⟩ (begun s m) function m₁ :=
    .intro rfl rfl rfl rfl rfl (by decide) rfl
  let o := block (execute (fun _ _ => {}) relayProgram 9) function.body m₁
  have hends : o.isDone = true := by decide +kernel
  obtain ⟨flow, m₂, hbody⟩ := Outcome.exists_of_isDone hends
  obtain ⟨handed, hexits, hresult⟩ := calls_give_what_return_handed_over rfl henters hbody
  let after := execute (fun _ _ => {}) relayProgram 10 s m
  have hafter : after.isDone = true ∧
      after.machine.store.symbol? "x" = some ⟨.number "7", 0, false, none⟩ := by decide +kernel
  cases handed with
  | none =>
    obtain ⟨m', hfailed⟩ := hresult
    exact absurd hafter.1 (by rw [show after = _ from hfailed]; nofun)
  | some value =>
    obtain ⟨store, m', hdeclare, hdone, hframes, hreturned⟩ := hresult.2 nofun nofun
    have hx := hafter.2
    rw [show after = _ from hdone] at hx
    have hleft : flow = .leave := by cases hexits; rfl
    rw [hleft] at hexits
    exact ⟨henters, value, hexits, store, m', hdeclare, hdone, hframes, hx, hreturned⟩

end ApiScript
