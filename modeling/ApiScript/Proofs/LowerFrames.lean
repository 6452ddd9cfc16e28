import ApiScript.Proofs.FrameWrites
import ApiScript.Proofs.Slips

/-!
# The frames below

Whatever is executed in a frame, the frames below it and their scope records are left as they are,
also if it fails or does not finish. A call works in a frame of its own, so it leaves all frames of
its caller, however it ends.
-/
namespace ApiScript

namespace Store

structure LiesOn (s below : Store) : Prop where
  frames : below.frames <:+ s.frames
  records : recordsBelow below.frames.length s.records =
    recordsBelow below.frames.length below.records

structure Above (s below : Store) : Prop extends LiesOn s below where
  length : below.frames.length < s.frames.length

theorem LiesOn.refl (s : Store) : s.LiesOn s := ⟨List.suffix_refl _, rfl⟩

variable {below s t : Store}

theorem tail_frames_of_outside (h : t.outside = s.outside) : t.frames.tail = s.frames.tail := by
  have htail (u : Store) : u.outside.frames.tail = u.frames.tail := by
    obtain ⟨frames, requests, signatures, records⟩ := u
    cases frames with
    | nil => rfl
    | cons frame outer => rfl
  rw [← htail, h, htail]

theorem suffix_tail_iff (h : below.frames.length < s.frames.length) :
    below.frames <:+ s.frames.tail ↔ below.frames <:+ s.frames := by
  obtain ⟨frames, requests, signatures, records⟩ := s
  cases frames with
  | nil => cases h
  | cons frame outer =>
    rw [List.suffix_cons_iff]
    refine ⟨.inr, fun hsuffix => ?_⟩
    rcases hsuffix with hall | houter
    · exact absurd (congrArg List.length hall) (Nat.ne_of_lt h)
    · exact houter

theorem recordsBelow_recordsBelow {level limit : Nat} (h : level ≤ limit)
    (records : List ScopeRecord) :
    recordsBelow level (recordsBelow limit records) = recordsBelow level records := by
  refine recordsBelow_filter fun r hr => ?_
  simpa using Nat.lt_of_lt_of_le hr h

/-- The frames below the innermost one are told by what is outside of it. -/
theorem Above.of_outside (hs : s.Above below) (h : t.outside = s.outside) : t.Above below := by
  have hlength := Run.frames_length_of_outside h
  have hlevel : below.frames.length ≤ s.frames.length - 1 := Nat.le_sub_one_of_lt hs.length
  refine ⟨⟨?_, ?_⟩, hlength ▸ hs.length⟩
  · rw [← suffix_tail_iff (hlength ▸ hs.length), tail_frames_of_outside h,
      suffix_tail_iff hs.length]
    exact hs.frames
  · have hrecords : recordsBelow (s.frames.length - 1) t.records =
        recordsBelow (s.frames.length - 1) s.records := by
      have houtside := congrArg Store.records h
      rwa [outside, outside, hlength] at houtside
    rw [← recordsBelow_recordsBelow hlevel, hrecords, recordsBelow_recordsBelow hlevel]
    exact hs.records

theorem LiesOn.pushFrame (hs : s.LiesOn below) : s.pushFrame.Above below where
  frames := hs.frames.trans (List.suffix_cons _ _)
  records := hs.records
  length := Nat.lt_succ_of_le hs.frames.length_le

theorem Above.popFrame (hs : s.Above below) (hpop : s.popFrame = .ok t) : t.LiesOn below := by
  have hsuffix := (suffix_tail_iff hs.length).2 hs.frames
  have hlength := hs.length
  unfold Store.popFrame at hpop
  split at hpop
  · cases hpop
  · next frame outer hframes =>
    cases hpop
    rw [hframes] at hsuffix hlength
    refine ⟨hsuffix, ?_⟩
    rw [← hs.records]
    exact recordsBelow_recordsBelow (Nat.le_of_lt_succ hlength) s.records

end Store

namespace Run

variable {α β : Type} {below : Store}

def Rests (below : Store) (x : Run α) : Prop :=
  ∀ m, m.store.LiesOn below → (x m).machine.store.LiesOn below

namespace Rests

theorem notes {x : Run α} (hx : Makes Note x) : Rests below x := by
  intro m hm
  rwa [(hx.notes_machine m).1]

theorem bind {x : Run α} {f : α → Run β} (hx : Rests below x) (hf : ∀ a, Rests below (f a)) :
    Rests below (x >>= f) := by
  intro m hm
  have hlies := hx m hm
  rw [bind_apply]
  cases hend : x m with
  | done a m₁ =>
    rw [hend] at hlies
    exact hf a m₁ hlies
  | failed fault m₁ => rwa [hend] at hlies
  | unfinished m₁ => rwa [hend] at hlies

end Rests

/-- The computation leaves the frames below the innermost one, however it ends, and that one is
still there if it ends well. -/
def StaysAbove (below : Store) (x : Run α) : Prop :=
  ∀ m, m.store.Above below →
    match x m with
    | .done _ m' => m'.store.Above below
    | .failed _ m' => m'.store.LiesOn below
    | .unfinished m' => m'.store.LiesOn below

namespace StaysAbove

theorem of_outside {x : Run α} (hx : ∀ m, (x m).machine.store.outside = m.store.outside) :
    StaysAbove below x := by
  intro m hm
  have hend := hm.of_outside (hx m)
  cases hx : x m with
  | done a m' => rwa [hx] at hend
  | failed fault m' =>
    rw [hx] at hend
    exact hend.toLiesOn
  | unfinished m' =>
    rw [hx] at hend
    exact hend.toLiesOn

theorem locally {x : Run α} (hx : Makes LocalChange x) : StaysAbove below x :=
  .of_outside fun m => (LocalChange.kept_of_reflTransGen (hx m)).store

theorem pure (a : α) : StaysAbove below (Pure.pure a : Run α) := .locally (.pure a)

theorem bind {x : Run α} {f : α → Run β} (hx : StaysAbove below x)
    (hf : ∀ a, StaysAbove below (f a)) : StaysAbove below (x >>= f) := by
  intro m hm
  have habove := hx m hm
  rw [bind_apply]
  cases hend : x m with
  | done a m₁ =>
    rw [hend] at habove
    exact hf a m₁ habove
  | failed fault m₁ => rwa [hend] at habove
  | unfinished m₁ => rwa [hend] at habove

theorem locating (location : Location) {x : Run α} (hx : StaysAbove below x) :
    StaysAbove below (Run.locating location x) := by
  intro m hm
  have habove := hx m hm
  unfold Run.locating
  cases hend : x m with
  | done a m₁ => rwa [hend] at habove
  | failed fault m₁ => rwa [hend] at habove
  | unfinished m₁ => rwa [hend] at habove

/-- The innermost frame can be dropped afterwards. -/
theorem popFrame {x : Run α} (hx : StaysAbove below x) {m : Machine} (hm : m.store.Above below) :
    ((x >>= fun _ => onStore Store.popFrame) m).machine.store.LiesOn below := by
  have habove := hx m hm
  rw [bind_apply]
  cases hend : x m with
  | failed fault m₁ => rwa [hend] at habove
  | unfinished m₁ => rwa [hend] at habove
  | done a m₁ =>
    rw [hend] at habove
    have hlength : 0 < m₁.store.frames.length := Nat.zero_lt_of_lt habove.length
    obtain ⟨store, hpop⟩ := exists_popFrame hlength
    dsimp only
    rw [onStore, hpop]
    exact habove.popFrame hpop

end StaysAbove

variable {exec : Statement → Run Flow}

theorem staysAbove_block (hexec : ∀ s, StaysAbove below (exec s)) (statements : List Statement) :
    StaysAbove below (block exec statements) := by
  induction statements with
  | nil => exact .pure _
  | cons s rest ih =>
    refine (hexec s).bind fun flow => ?_
    cases flow with
    | next => exact ih
    | leave => exact (StaysAbove.locally (makes_warnUnreachable rest)).bind fun _ => .pure _

theorem staysAbove_repeatWhile {holds : Run Bool} {body : Run Flow}
    (hholds : StaysAbove below holds) (hbody : StaysAbove below body) (fuel : Nat) :
    StaysAbove below (repeatWhile holds body fuel) := by
  induction fuel with
  | zero => exact .locally .unfinished
  | succ fuel ih =>
    refine hholds.bind fun again => ?_
    cases again with
    | false => exact .pure _
    | true =>
      refine hbody.bind fun flow => ?_
      cases flow with
      | next => exact ih
      | leave => exact .pure _

theorem staysAbove_nested {x : Run Flow} (hx : StaysAbove below x) :
    StaysAbove below (nested x) := by
  have henter : StaysAbove below enterBlock := .of_outside fun _ => rfl
  have hleave : StaysAbove below leaveBlock :=
    .of_outside fun m => (kept_purgeScope { m with depth := m.depth - 1 }).store
  exact henter.bind fun _ => hx.bind fun _ => hleave.bind fun _ => .pure _

theorem store_leaveFunction (returns : Option Kind) (m : Machine) :
    (leaveFunction returns m).machine.store = m.store := by
  cases hcallers : m.callers with
  | nil => simp [leaveFunction, modify, Outcome.machine, hcallers]
  | cons caller rest => rw [leaveFunction_of_callers hcallers, Outcome.machine]

/-- The body of a function works in a frame of its own, which only a good end drops. -/
theorem rests_activate (hexec : ∀ s, StaysAbove below (exec s)) (name : String)
    (params : List String) (args : List Value) (returns : Option Kind) (body : List Statement) :
    Rests below (activate exec name params args returns body) := by
  intro m hm
  have hmachine : machine m = .done m m := rfl
  obtain ⟨_, m₁, hopen⟩ := succeeds_openFrame name params args returns m
  have hopened : m₁.store.Above below := hm.pushFrame.of_outside (openFrame_eq_done hopen).1
  have hleave : StaysAbove below (leaveFunction m.returns) :=
    .of_outside fun n => by rw [store_leaveFunction]
  have hran := (staysAbove_block hexec body).bind fun _ => hleave
  rw [activate, bind_of_done hmachine, bind_of_done hopen, ← bind_assoc]
  exact hran.popFrame hopened

theorem rests_call (hexec : ∀ s, StaysAbove below (exec s)) (program : Program) (c : Call) :
    Rests below (call program exec c) := by
  refine (Rests.notes (makes_resolveAll c.args)).bind fun args => ?_
  refine (Rests.notes .machine).bind fun m => ?_
  cases m.builtins.get? c.name with
  | some builtin =>
    refine (Rests.notes (notes_builtin builtin args)).bind fun result => ?_
    cases result with
    | none => exact .notes (.pure _)
    | some value => exact fun n hn => hn
  | none =>
    intro n hn
    rcases callFunction_cases program c.name args n with
      ⟨cause, -, hrefused⟩ | ⟨-, params, function, -, -, -, -, hcall⟩
    · dsimp only
      rw [hrefused]
      exact hn
    · dsimp only
      rw [hcall]
      exact rests_activate hexec c.name params args _ function.body n hn

section Statements

variable (hexec : ∀ s, StaysAbove below (exec s)) (hkeeps : ∀ s, Keeps (exec s))
include hexec hkeeps

/-- A call that ends well has dropped its frame and no other. -/
theorem staysAbove_call (program : Program) (c : Call) :
    StaysAbove below (call program exec c) := by
  intro m hm
  have hlies := rests_call hexec program c m hm.toLiesOn
  cases hend : call program exec c m with
  | done a m₁ =>
    rw [hend] at hlies
    have hframes := (frames_of_call hkeeps hend).1
    exact ⟨hlies, by rw [hframes]; exact hm.length⟩
  | failed fault m₁ => rwa [hend] at hlies
  | unfinished m₁ => rwa [hend] at hlies

theorem staysAbove_callInto (program : Program) (target : String) (c : Call) :
    StaysAbove below (callInto program exec target c) := by
  refine (StaysAbove.locally .machine).bind fun before => ?_
  refine (staysAbove_call hexec hkeeps program c).bind fun _ => ?_
  refine (StaysAbove.locally .machine).bind fun after => ?_
  have htruncate : StaysAbove below (truncateReturned before.returned.length) :=
    .of_outside fun _ => rfl
  split
  · exact .locally (.raise _)
  · split
    · exact .locally (.raise _)
    · exact htruncate.bind fun _ => .locally (silent_declare _ _ _ _).ofSilent

theorem staysAbove_perform (fetcher : Fetcher) (program : Program) (fuel : Nat) (s : Statement) :
    StaysAbove below (perform fetcher program exec fuel s) := by
  by_cases hatomic : s.instruction.isAtomic = true
  · exact .locally (makes_perform_of_isAtomic fetcher program exec fuel hatomic)
  · have htest (condition : Condition) : StaysAbove below (test condition) :=
      .locally (makes_test condition)
    unfold perform
    cases hi : s.instruction with
    | branch condition =>
      exact staysAbove_nested ((htest condition).bind fun _ => staysAbove_block hexec _)
    | loop condition =>
      exact staysAbove_nested
        (staysAbove_repeatWhile (htest condition) (staysAbove_block hexec s.body) fuel)
    | call c =>
      refine StaysAbove.bind ?_ fun _ => .pure Flow.next
      refine (StaysAbove.locally .machine).bind fun before => ?_
      exact (staysAbove_call hexec hkeeps program c).bind fun _ => .of_outside fun _ => rfl
    | callInto target c =>
      exact (staysAbove_callInto hexec hkeeps program target c).bind fun _ => .pure Flow.next
    | _ => simp [hi, Instruction.isAtomic] at hatomic

end Statements

/-- However a statement ends, the frames below the innermost one are left with their records. -/
theorem staysAbove_execute (below : Store) (fetcher : Fetcher) (program : Program) (fuel : Nat)
    (s : Statement) : StaysAbove below (execute fetcher program fuel s) := by
  induction fuel generalizing s with
  | zero => exact .locally .unfinished
  | succ fuel ih =>
    have hbegin : StaysAbove below (begin s) := .of_outside fun _ => rfl
    refine hbegin.bind fun _ => .locating s.location ?_
    exact staysAbove_perform ih (keeps_execute fetcher program fuel) fetcher program fuel s

end Run

end ApiScript
