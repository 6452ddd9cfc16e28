import ApiScript.Proofs.LowerFrames
import ApiScript.Proofs.Settling
import ApiScript.Proofs.Stepping

/-!
# Constants

A constant of a frame stays what it is for as long as its frame exists, through all that happens in
the frame and in those above it, until a `del` of its name or the clean-up of a block in that frame
removes it. A statement whose target is a constant never ends well, and leaves the frames that it
found with their records.
-/
namespace ApiScript

open Run

/-- The symbol with a name in the frame with a number, of which the outermost has the least. -/
def symbolIn? (frames : List Frame) (level : Nat) (name : String) : Option Symbol :=
  frames.reverse[level]?.bind fun frame => frame.get? name

section Frames

variable {frames outer : List Frame} {frame : Frame} {level : Nat} {name : String}
  {symbol : Symbol} {s t : Store}

theorem lt_of_symbolIn? (h : symbolIn? frames level name = some symbol) :
    level < frames.length := by
  obtain ⟨frame, hframe, -⟩ := Option.bind_eq_some_iff.1 h
  simpa using (List.getElem?_eq_some_iff.1 hframe).1

theorem symbolIn?_cons (h : level < outer.length) :
    symbolIn? (frame :: outer) level name = symbolIn? outer level name := by
  unfold symbolIn?
  rw [List.reverse_cons, List.getElem?_append_left (by simpa using h)]

theorem symbolIn?_innermost : symbolIn? (frame :: outer) outer.length name = frame.get? name := by
  unfold symbolIn?
  rw [List.reverse_cons, List.getElem?_append_right (by simp)]
  simp

theorem symbolIn?_eq_symbol? (h : s.frames.length = level + 1) :
    symbolIn? s.frames level name = s.symbol? name := by
  obtain ⟨frames, requests, signatures, records⟩ := s
  cases frames with
  | nil => cases h
  | cons frame outer =>
    have hlevel : level = outer.length := (Nat.succ.inj h).symm
    rw [hlevel]
    exact symbolIn?_innermost

/-- Below the innermost frame, what is outside of it tells the symbols. -/
theorem symbolIn?_of_outside (h : t.outside = s.outside) (hlevel : level + 1 < s.frames.length) :
    symbolIn? t.frames level name = symbolIn? s.frames level name := by
  have hlength := frames_length_of_outside h
  have htail := Store.tail_frames_of_outside h
  obtain ⟨frames, requests, signatures, records⟩ := s
  obtain ⟨frames', requests', signatures', records'⟩ := t
  cases frames with
  | nil => cases hlevel
  | cons frame outer =>
    cases frames' with
    | nil => cases hlength
    | cons frame' outer' =>
      cases htail
      rw [symbolIn?_cons (Nat.lt_of_succ_lt_succ hlevel),
        symbolIn?_cons (Nat.lt_of_succ_lt_succ hlevel)]

/-- A change of the innermost frame leaves a symbol, or the symbol is in that frame. -/
theorem symbolIn?_cases (h : t.outside = s.outside) (hlevel : level < s.frames.length)
    (name : String) : symbolIn? t.frames level name = symbolIn? s.frames level name ∨
      s.frames.length = level + 1 ∧ symbolIn? s.frames level name = s.symbol? name ∧
        symbolIn? t.frames level name = t.symbol? name := by
  by_cases hbelow : level + 1 < s.frames.length
  · exact .inl (symbolIn?_of_outside h hbelow)
  · have hlength : s.frames.length = level + 1 := Nat.le_antisymm (Nat.not_lt.1 hbelow) hlevel
    have hlength' := (frames_length_of_outside h).trans hlength
    exact .inr ⟨hlength, symbolIn?_eq_symbol? hlength, symbolIn?_eq_symbol? hlength'⟩

end Frames

inductive FrameStep (c : Moment) : List Frame → Prop
  | same : FrameStep c c.machine.store.frames
  | declared {store : Store} {target : String} {value : Value} {depth : Nat} {constant : Bool}
    {status : Option Nat}
    (h : c.machine.store.declare target value depth constant status = .ok store) :
    FrameStep c store.frames
  | deleted {s : Statement} {rest : List Statement} {tasks : List Task} {target : String}
    (hflow : c.flow = .next) (htasks : c.tasks = .statements (s :: rest) :: tasks)
    (hs : s.instruction = .delete target) :
    FrameStep c (c.machine.store.eraseSymbol target).frames
  | cleaned {tasks : List Task} {depth : Nat} (htasks : c.tasks = .leaveBlock :: tasks)
    (hpurge : c.machine.modes.purge = true) : FrameStep c (c.machine.store.cleanup depth).frames
  | pushed (frame : Frame) : FrameStep c (frame :: c.machine.store.frames)
  | popped : FrameStep c c.machine.store.frames.tail

theorem FrameStep.of_eq {c : Moment} {frames : List Frame} (h : frames = c.machine.store.frames) :
    FrameStep c frames :=
  h ▸ .same

def StepsFrom {α : Type} (c : Moment) (x : Run α) : Prop :=
  ∀ m, m.store = c.machine.store → FrameStep c (x m).machine.store.frames

section StepsFrom

variable {α β : Type} {c : Moment} {fetcher : Fetcher} {program : Program}

namespace StepsFrom

theorem of_store {x : Run α} (hx : ∀ m, (x m).machine.store = m.store) : StepsFrom c x :=
  fun m hm => .of_eq (congrArg Store.frames ((hx m).trans hm))

theorem notes {x : Run α} (hx : Makes Note x) : StepsFrom c x :=
  .of_store fun m => (hx.notes_machine m).1

theorem raise (cause : Cause) : StepsFrom c (Run.raise cause : Run α) := .of_store fun _ => rfl

/-- What comes before the step leaves the store. -/
theorem bind {x : Run α} {f : α → Run β} (hx : ∀ m, (x m).machine.store = m.store)
    (hf : ∀ a, StepsFrom c (f a)) : StepsFrom c (x >>= f) := by
  intro m hm
  have hstore := (hx m).trans hm
  rw [bind_apply]
  cases hend : x m with
  | done a m₁ =>
    rw [hend] at hstore
    exact hf a m₁ hstore
  | failed fault m₁ =>
    rw [hend] at hstore
    exact .of_eq (congrArg Store.frames hstore)
  | unfinished m₁ =>
    rw [hend] at hstore
    exact .of_eq (congrArg Store.frames hstore)

theorem noting {x : Run α} {f : α → Run β} (hx : Makes Note x) (hf : ∀ a, StepsFrom c (f a)) :
    StepsFrom c (x >>= f) :=
  .bind (fun m => (hx.notes_machine m).1) hf

theorem map {x : Run α} (hx : StepsFrom c x) (g : α → β) :
    StepsFrom c (x >>= fun a => pure (g a)) := by
  intro m hm
  have hstep := hx m hm
  rw [bind_apply]
  cases hend : x m with
  | done a m₁ => rwa [hend] at hstep
  | failed fault m₁ => rwa [hend] at hstep
  | unfinished m₁ => rwa [hend] at hstep

theorem onStore {f : Store → Except Cause Store}
    (hf : ∀ store, f c.machine.store = .ok store → FrameStep c store.frames) :
    StepsFrom c (Run.onStore f) := by
  intro m hm
  unfold Run.onStore
  rw [hm]
  cases hstore : f c.machine.store with
  | ok store => exact hf store hstore
  | error cause => exact .of_eq (congrArg Store.frames hm)

end StepsFrom

theorem stepsFrom_declare (target : String) (value : Value) (constant : Bool)
    (status : Option Nat) : StepsFrom c (declare target value constant status) :=
  .bind (fun _ => rfl) fun _ => .onStore fun _ h => .declared h

theorem frames_onStore_popFrame (m : Machine) :
    (onStore Store.popFrame m).machine.store.frames = m.store.frames.tail := by
  unfold onStore Store.popFrame
  cases hframes : m.store.frames with
  | nil => exact hframes
  | cons frame outer => rfl

theorem stepsFrom_popFrame : StepsFrom c (onStore Store.popFrame) := by
  intro m hm
  rw [frames_onStore_popFrame, hm]
  exact .popped

theorem stepsFrom_takeReturned (target name : String) (count : Nat) :
    StepsFrom c (takeReturned target name count) := by
  refine .bind (fun _ => rfl) fun after => ?_
  split
  · exact .raise _
  · split
    · exact .raise _
    · exact .bind (fun _ => rfl) fun _ => stepsFrom_declare _ _ _ _

theorem stepsFrom_leaveFunction (returns : Option Kind) :
    StepsFrom c (do leaveFunction returns; onStore Store.popFrame) :=
  .bind (store_leaveFunction returns) fun _ => stepsFrom_popFrame

theorem stepsFrom_leaveMain (location : Location) : StepsFrom c (leaveMain location) := by
  intro m hm
  obtain ⟨before, hkept, hleave⟩ := exists_leaveMain location m
  rw [hleave, frames_onStore_popFrame, Store.tail_frames_of_outside hkept.store, hm]
  exact .popped

/-- A function is entered in a new frame on top of those of the caller. -/
theorem stepsFrom_openFrame (name : String) (params : List String) (args : List Value)
    (returns : Option Kind) : StepsFrom c (openFrame name params args returns) := by
  intro m hm
  obtain ⟨_, m₁, hopen⟩ := succeeds_openFrame name params args returns m
  have htail := Store.tail_frames_of_outside (openFrame_eq_done hopen).1
  have hlength := frames_length_of_openFrame hopen
  rw [hopen]
  change FrameStep c m₁.store.frames
  cases hopened : m₁.store.frames with
  | nil =>
    rw [hopened] at hlength
    cases hlength
  | cons frame outer =>
    rw [hopened] at htail
    have houter : outer = c.machine.store.frames := by
      rw [← hm]
      exact htail
    exact houter ▸ .pushed frame

theorem stepsFrom_startFunction (name : String) (args : List Value) :
    StepsFrom c (startFunction program name args) := by
  refine .bind (fun _ => rfl) fun m => .noting (.lift _) fun params => ?_
  cases program.function? name with
  | none => exact .raise _
  | some function =>
    dsimp only
    split
    · exact .raise _
    · split
      · exact .raise _
      · exact (stepsFrom_openFrame name params args _).map fun _ => some (function.body, m.returns)

theorem stepsFrom_startCall (call : Call) : StepsFrom c (startCall program call) := by
  refine .noting (makes_resolveAll call.args) fun args => .bind (fun _ => rfl) fun m => ?_
  cases m.builtins.get? call.name with
  | none => exact stepsFrom_startFunction call.name args
  | some builtin =>
    refine .noting (notes_builtin builtin args) fun result => ?_
    cases result with
    | none => exact .of_store fun _ => rfl
    | some value => exact .of_store fun _ => rfl

section Statements

variable {s : Statement} {rest : List Statement} {tasks : List Task}

theorem stepsFrom_perform (hflow : c.flow = .next)
    (htasks : c.tasks = .statements (s :: rest) :: tasks) (hatomic : s.instruction.isAtomic = true)
    (exec : Statement → Run Flow) (fuel : Nat) :
    StepsFrom c (perform fetcher program exec fuel s) := by
  intro m hm
  have hsettles := settles_perform_of_isAtomic fetcher program exec fuel hatomic
  rcases hsettles.done_or_failed m with ⟨flow, m', hend⟩ | ⟨fault, m', hend, hstore⟩
  · rw [hend]
    change FrameStep c m'.store.frames
    by_cases hdelete : ∃ target, s.instruction = .delete target
    · obtain ⟨target, hi⟩ := hdelete
      unfold perform at hend
      rw [hi] at hend
      rcases delete_eq_done (andNext_eq_done hend) with ⟨-, rfl⟩ | ⟨-, -, rfl⟩
      · exact .of_eq (congrArg Store.frames hm :)
      · rw [hm]
        exact .deleted hflow htasks hi
    · have hwrites := writes_of_perform hatomic (fun target hi => hdelete ⟨target, hi⟩) hend
      generalize s.instruction.target? = target at hwrites
      generalize m'.store.frames = frames at hwrites ⊢
      cases hwrites with
      | nothing => exact .of_eq (congrArg Store.frames hm)
      | declared hdeclare _ =>
        rw [hm] at hdeclare
        exact .declared hdeclare
  · rw [hend]
    exact .of_eq (congrArg Store.frames (hstore.trans hm))

theorem stepsFrom_startStatement (hflow : c.flow = .next)
    (htasks : c.tasks = .statements (s :: rest) :: tasks) :
    StepsFrom c (startStatement fetcher program s) := by
  by_cases hatomic : s.instruction.isAtomic = true
  · rw [Moment.startStatement_of_isAtomic hatomic (fun _ => unfinished) 0]
    exact (stepsFrom_perform hflow htasks hatomic _ 0).map fun flow => (flow, [])
  · cases hi : s.instruction with
    | branch condition =>
      rw [Moment.startStatement_branch fetcher program hi]
      exact .map (.bind (fun _ => rfl) fun _ => .notes (notes_test condition)) _
    | loop condition =>
      rw [Moment.startStatement_loop fetcher program hi]
      exact .map (.of_store fun _ => rfl) _
    | call call =>
      intro m hm
      rw [Moment.startStatement_call fetcher program (.inl hi) m]
      exact (stepsFrom_startCall call).map _ m hm
    | callInto target call =>
      intro m hm
      rw [Moment.startStatement_call fetcher program (.inr ⟨target, hi⟩) m]
      exact (stepsFrom_startCall call).map _ m hm
    | _ => simp [hi, Instruction.isAtomic] at hatomic

end Statements

/-- A task does one step of the frames. -/
theorem frameStep_of_doTask {task : Task} {tasks : List Task} (htasks : c.tasks = task :: tasks) :
    FrameStep c (doTask fetcher program c.flow task c.machine).machine.store.frames := by
  cases task with
  | run =>
    unfold doTask
    cases program.function? entryFunction with
    | none => exact .same
    | some main => exact .pushed ∅
  | statements statements =>
    cases hflow : c.flow with
    | leave =>
      rw [doTask]
      exact (StepsFrom.notes (notes_warnUnreachable statements)).map _ c.machine rfl
    | next =>
      cases statements with
      | nil => exact .same
      | cons s rest =>
        rw [Moment.doTask_statements]
        exact (stepsFrom_startStatement hflow htasks).map _ (begun s c.machine) rfl
  | rounds condition body =>
    cases c.flow with
    | leave => exact .same
    | next => exact (StepsFrom.notes (notes_test condition)).map _ c.machine rfl
  | leaveBlock =>
    have hleave : (doTask fetcher program c.flow .leaveBlock c.machine).machine =
        purgeScope { c.machine with depth := c.machine.depth - 1 } := by
      cases c.flow <;> rfl
    rw [hleave, purgeScope]
    split
    · next hpurge => exact .cleaned htasks hpurge
    · exact .same
  | leaveFunction returns =>
    have hleave : doTask fetcher program c.flow (.leaveFunction returns) =
        (do leaveFunction returns; onStore Store.popFrame) >>= fun _ => pure (Flow.next, []) := by
      rw [bind_assoc]
      cases c.flow <;> rfl
    rw [hleave]
    exact (stepsFrom_leaveFunction returns).map _ c.machine rfl
  | dropReturned count =>
    cases c.flow <;> exact .same
  | takeReturned target name count =>
    cases c.flow <;> exact (stepsFrom_takeReturned target name count).map _ c.machine rfl
  | leaveMain location =>
    cases c.flow <;> exact (stepsFrom_leaveMain location).map _ c.machine rfl

theorem Moment.machine_after (flow : Flow) (rest : List Task) (o : Outcome (Flow × List Task)) :
    (after flow rest o).machine = o.machine := by
  cases o <;> rfl

theorem frameStep_of_next {d : Moment} (h : c.next fetcher program = some d) :
    FrameStep c d.machine.store.frames := by
  unfold Moment.next at h
  split at h
  · cases h
  · next task rest htasks =>
    cases h
    rw [Moment.machine_after]
    exact frameStep_of_doTask htasks

end StepsFrom

inductive Moment.Removes (level : Nat) (name : String) (c : Moment) : Prop
  | deletes {s : Statement} {rest : List Statement} {tasks : List Task}
    (hframe : c.machine.store.frames.length = level + 1) (hflow : c.flow = .next)
    (htasks : c.tasks = .statements (s :: rest) :: tasks) (hs : s.instruction = .delete name)
  | cleans {tasks : List Task} (hframe : c.machine.store.frames.length = level + 1)
    (htasks : c.tasks = .leaveBlock :: tasks) (hpurge : c.machine.modes.purge = true)

structure Moment.Holds (level : Nat) (name : String) (symbol : Symbol) (c : Moment) : Prop where
  found : symbolIn? c.machine.store.frames level name = some symbol
  constant : symbol.constant = true

structure Moment.Loses (fetcher : Fetcher) (program : Program) (level : Nat) (name : String)
    (c d : Moment) : Prop where
  next : c.next fetcher program = some d
  lost : d.machine.store.frames.length ≤ level ∨
    c.Removes level name ∧ symbolIn? d.machine.store.frames level name = none

def Moment.LosesBetween (fetcher : Fetcher) (program : Program) (level : Nat) (name : String)
    (symbol : Symbol) (c d : Moment) : Prop :=
  ∃ e e', Reaches fetcher program c e ∧ e.Holds level name symbol ∧
    e.Loses fetcher program level name e' ∧ Reaches fetcher program e' d

section Constants

variable {level : Nat} {name : String} {symbol : Symbol} {c d : Moment} {frames : List Frame}
  {fetcher : Fetcher} {program : Program}

/-- A step of the frames leaves a constant, drops its frame or removes it. -/
theorem FrameStep.held (h : FrameStep c frames) (hheld : c.Holds level name symbol) :
    symbolIn? frames level name = some symbol ∨ frames.length ≤ level ∨
      c.Removes level name ∧ symbolIn? frames level name = none := by
  have hfound := hheld.found
  have hlevel := lt_of_symbolIn? hfound
  cases h with
  | same => exact .inl hfound
  | declared hdeclare =>
    -- in its own frame the constant cannot be the name that is declared
    left
    rcases symbolIn?_cases (Store.outside_declare hdeclare) hlevel name with hsame | ⟨-, hs, ht⟩
    · rw [hsame, hfound]
    · rw [hs] at hfound
      rw [ht, Store.symbol?_declare hdeclare]
      split
      · next htarget =>
        rw [htarget] at hfound
        rw [Store.declare_of_constant hfound hheld.constant] at hdeclare
        cases hdeclare
      · exact hfound
  | @deleted s rest tasks target hflow htasks hs =>
    rcases symbolIn?_cases (Store.outside_eraseSymbol c.machine.store target) hlevel name with
      hsame | ⟨hframe, hs', ht⟩
    · exact .inl (hsame.trans hfound)
    · rw [ht, Store.symbol?_eraseSymbol]
      split
      · next htarget =>
        rw [← htarget] at hs
        exact .inr (.inr ⟨.deletes hframe hflow htasks hs, rfl⟩)
      · exact .inl (hs'.symm.trans hfound)
  | @cleaned tasks depth htasks hpurge =>
    rcases symbolIn?_cases (Store.outside_cleanup c.machine.store depth) hlevel name with
      hsame | ⟨hframe, hs, ht⟩
    · exact .inl (hsame.trans hfound)
    · obtain ⟨p, -, hcleaned⟩ := Store.symbol?_cleanup c.machine.store depth name
      rw [ht, hcleaned, ← hs, hfound]
      cases hp : p symbol with
      | true => exact .inl (by simp [hp])
      | false => exact .inr (.inr ⟨.cleans hframe htasks hpurge, by simp [hp]⟩)
  | pushed frame => exact .inl ((symbolIn?_cons hlevel).trans hfound)
  | popped =>
    cases hframes : c.machine.store.frames with
    | nil =>
      rw [hframes] at hlevel
      cases hlevel
    | cons frame outer =>
      by_cases houter : level < outer.length
      · rw [hframes, symbolIn?_cons houter] at hfound
        exact .inl hfound
      · exact .inr (.inl (Nat.not_lt.1 houter))

/-- As long as no step loses a constant, it is what it was. -/
theorem held_of_reaches (hheld : c.Holds level name symbol)
    (h : Moment.Reaches fetcher program c d) :
    d.Holds level name symbol ∨ c.LosesBetween fetcher program level name symbol d := by
  induction h with
  | refl => exact .inl hheld
  | @tail e e' hreach hnext ih =>
    rcases ih with hkept | ⟨f, f', hf, hfheld, hlost, hf'⟩
    · rcases (frameStep_of_next hnext).held hkept with hfound | hlost
      · exact .inl ⟨hfound, hheld.constant⟩
      · exact .inr ⟨e, e', hreach, hkept, ⟨hnext, hlost⟩, .refl⟩
    · exact .inr ⟨f, f', hf, hfheld, hlost, hf'.tail hnext⟩

/-- A computation that neither ends well nor touches the frames that it finds. -/
structure Outcome.Refuses {α : Type} (o : Outcome α) (before : Store) : Prop where
  isDone : o.isDone = false
  liesOn : o.machine.store.LiesOn before

section Writes

variable {m : Machine} {exec : Statement → Run Flow} {fuel : Nat} {s : Statement}

theorem exists_takeReturned_failed (hsymbol : m.store.symbol? name = some symbol)
    (hconstant : symbol.constant = true) (function : String) (count : Nat) :
    ∃ fault n, takeReturned name function count m = .failed fault n ∧ n.store = m.store := by
  have hmachine (n : Machine) : Run.machine n = .done n n := rfl
  have htruncate : truncateReturned count m =
    .done () { m with returned := m.returned.drop (m.returned.length - count) } := rfl
  rw [takeReturned, bind_of_done (hmachine m)]
  generalize m.returned = returned
  cases returned with
  | nil => exact ⟨_, m, rfl, rfl⟩
  | cons value rest =>
    dsimp only
    split
    · exact ⟨_, m, rfl, rfl⟩
    · rw [bind_of_done htruncate, declare, bind_of_done (hmachine _), onStore,
        Store.declare_of_constant hsymbol hconstant]
      exact ⟨_, _, rfl, rfl⟩

theorem refuses_perform (hexec : ∀ s, StaysAbove m.store (exec s)) (hkeeps : ∀ s, Keeps (exec s))
    (htarget : s.instruction.target? = some name) (hsymbol : m.store.symbol? name = some symbol)
    (hconstant : symbol.constant = true) :
    (perform fetcher program exec fuel s m).Refuses m.store := by
  by_cases hatomic : s.instruction.isAtomic = true
  · have hsettles := settles_perform_of_isAtomic fetcher program exec fuel hatomic
    rcases hsettles.done_or_failed m with ⟨flow, m', hend⟩ | ⟨fault, m', hend, hstore⟩
    · have hdelete (target : String) : s.instruction ≠ .delete target := by
        intro hi
        rw [hi] at htarget
        cases htarget
      have hwrites := writes_of_perform hatomic hdelete hend
      rw [htarget] at hwrites
      generalize m'.store.frames = frames at hwrites
      cases hwrites with
      | declared hdeclare _ =>
        rw [Store.declare_of_constant hsymbol hconstant] at hdeclare
        cases hdeclare
    · rw [hend]
      exact ⟨rfl, hstore ▸ .refl m.store⟩
  -- the call goes on in frames of its own, and only its result meets the constant
  · have hmachine : Run.machine m = .done m m := rfl
    unfold perform
    cases hi : s.instruction with
    | callInto target call =>
      rw [hi] at htarget
      cases htarget
      dsimp only
      rw [andNext, callInto_eq, bind_assoc, bind_of_done hmachine, bind_assoc]
      have hlies := rests_call hexec program call m (.refl m.store)
      rw [bind_apply]
      cases hend : Run.call program exec call m with
      | failed fault m₁ =>
        rw [hend] at hlies
        exact ⟨rfl, hlies⟩
      | unfinished m₁ =>
        rw [hend] at hlies
        exact ⟨rfl, hlies⟩
      | done a m₁ =>
        rw [hend] at hlies
        rw [← Store.symbol?_congr (frames_of_call hkeeps hend).1] at hsymbol
        obtain ⟨fault, n, htake, hstore⟩ :=
          exists_takeReturned_failed hsymbol hconstant call.name m.returned.length
        dsimp only
        rw [bind_of_failed htake]
        exact ⟨rfl, hstore ▸ hlies⟩
    | branch condition => simp [hi, Instruction.target?] at htarget
    | loop condition => simp [hi, Instruction.target?] at htarget
    | call c => simp [hi, Instruction.target?] at htarget
    | _ => simp [hi, Instruction.isAtomic] at hatomic

/-- A statement whose target is a constant of the innermost frame does not end well, and all frames
that there were are left. -/
theorem refuses_execute (fetcher : Fetcher) (program : Program) (fuel : Nat)
    (htarget : s.instruction.target? = some name) (hsymbol : m.store.symbol? name = some symbol)
    (hconstant : symbol.constant = true) : (execute fetcher program fuel s m).Refuses m.store := by
  cases fuel with
  | zero => exact ⟨rfl, .refl m.store⟩
  | succ fuel =>
    have hrefuses : (perform fetcher program (execute fetcher program fuel) fuel s
        (begun s m)).Refuses m.store :=
      refuses_perform (m := begun s m) (staysAbove_execute m.store fetcher program fuel)
        (keeps_execute fetcher program fuel) htarget hsymbol hconstant
    have hexecute : execute fetcher program (fuel + 1) s m =
        locating s.location (perform fetcher program (execute fetcher program fuel) fuel s)
          (begun s m) := rfl
    rw [hexecute, locating]
    cases hend : perform fetcher program (execute fetcher program fuel) fuel s (begun s m) with
    | done flow m' => rwa [hend] at hrefuses
    | failed fault m' =>
      rw [hend] at hrefuses
      exact ⟨rfl, hrefuses.liesOn⟩
    | unfinished m' => rwa [hend] at hrefuses

end Writes

end Constants

section Result

open Moment

/-- A run goes from moment to moment, and the state at its end and those in which its statements
begin are among them. A constant of a frame is the same at all later moments, unless a step has
dropped the frame, or a `del` or the clean-up of a block in that frame has removed the name. A
statement whose target is a constant of the innermost frame does not end well, and leaves all
frames that there were with their records. -/
theorem constants_stay_constant (fetcher : Fetcher) (program : Program) :
    (∀ fuel m, ∃ d, Reaches fetcher program (start m) d ∧
      d.machine = (program.run fetcher fuel m).machine ∧
      ((program.run fetcher fuel m).isFinished = true →
        ∀ c, Reaches fetcher program (start m) c → Reaches fetcher program c d)) ∧
    (∀ m t n, RunBegins fetcher program m t n → ∃ rest tasks,
      Reaches fetcher program (start m) ⟨.next, .statements (t :: rest) :: tasks, n⟩) ∧
    (∀ level name symbol c d, c.Holds level name symbol → Reaches fetcher program c d →
      d.Holds level name symbol ∨ c.LosesBetween fetcher program level name symbol d) ∧
    ∀ fuel s m name symbol, s.instruction.target? = some name →
      m.store.symbol? name = some symbol → symbol.constant = true →
      (execute fetcher program fuel s m).isDone = false ∧
        (execute fetcher program fuel s m).machine.store.LiesOn m.store := by
  refine ⟨fun fuel m => ?_, fun m t n hbegins => reachesBegin_of_runBegins hbegins,
    fun level name symbol c d hheld hreach => held_of_reaches hheld hreach,
    fun fuel s m name symbol htarget hsymbol hconstant => ?_⟩
  · obtain ⟨d, hd, hmachine, hended⟩ := exists_last fetcher program fuel m
    exact ⟨d, hd, hmachine, fun hfinished c hc => reaches_of_ended (hended hfinished) hd hc⟩
  · obtain ⟨hdone, hlies⟩ := refuses_execute fetcher program fuel htarget hsymbol hconstant
    exact ⟨hdone, hlies⟩

def sternProgram : Program :=
  let line (number : Nat) : Location := ⟨number, "stern.neb"⟩
  ⟨[⟨.define ⟨"Main", [], none⟩, line 1,
      [.leaf (.assign "k" (.number "1") true) (line 2), .leaf (.call ⟨"f", []⟩) (line 3),
        .leaf (.increment "k") (line 4)], []⟩,
    ⟨.define ⟨"f", [], none⟩, line 6, [.leaf (.assign "k" (.number "2") false) (line 7)], []⟩]⟩

theorem sternProgram_keeps_its_constant :
    let fetcher : Fetcher := fun _ _ => {}
    let m : Machine := { store := { signatures := .ofList [("Main", []), ("f", [])] } }
    let moment (count : Nat) := (advance fetcher sternProgram)^[count] (start m)
    let one : Symbol := ⟨.number "1", 0, true, none⟩
    let two : Symbol := ⟨.number "2", 0, false, none⟩
    let first : Statement := .leaf (.assign "k" (.number "1") true) ⟨2, "stern.neb"⟩
    let last : Statement := .leaf (.increment "k") ⟨4, "stern.neb"⟩
    let before := (moment 7).machine
    let after := execute fetcher sternProgram 5 last before
    (∃ d, d.machine = (sternProgram.run fetcher 5 m).machine ∧
      Reaches fetcher sternProgram (moment 4) d) ∧
    (∃ n rest tasks, RunBegins fetcher sternProgram m first n ∧
      Reaches fetcher sternProgram (start m) ⟨.next, .statements (first :: rest) :: tasks, n⟩) ∧
    (moment 2).Holds 0 "k" one ∧ symbolIn? (moment 4).machine.store.frames 1 "k" = some two ∧
    ((moment 4).Holds 0 "k" one ∨
      (moment 2).LosesBetween fetcher sternProgram 0 "k" one (moment 4)) ∧
    before.store.symbol? "k" = some one ∧ after.isDone = false ∧
      after.machine.store.LiesOn before.store := by
  intro fetcher m moment one two first last before after
  obtain ⟨hend, hbegins, hheld, hrefuses⟩ := constants_stay_constant fetcher sternProgram
  have hmoments (count : Nat) : Reaches fetcher sternProgram (start m) (moment count) :=
    reaches_iterate_advance count (start m)
  have hlater : Reaches fetcher sternProgram (moment 2) (moment 4) :=
    reaches_iterate_advance 2 (moment 2)
  have hconstant : (moment 2).Holds 0 "k" one := ⟨by decide +kernel, rfl⟩
  have hvariable : symbolIn? (moment 4).machine.store.frames 1 "k" = some two := by decide +kernel
  have hbefore : before.store.symbol? "k" = some one := by decide +kernel
  have hfirst : RunBegins fetcher sternProgram m first (enterMain sternProgram m).machine :=
    ⟨_, _, rfl, rfl, .head .self⟩
  obtain ⟨d, -, hd, hall⟩ := hend 5 m
  have hfinished : (sternProgram.run fetcher 5 m).isFinished = true := by decide +kernel
  obtain ⟨rest, tasks, hreach⟩ := hbegins m first _ hfirst
  exact ⟨⟨d, hd, hall hfinished _ (hmoments 4)⟩, ⟨_, rest, tasks, hfirst, hreach⟩, hconstant,
    hvariable, hheld 0 "k" one _ _ hconstant hlater, hbefore,
    hrefuses 5 last before "k" one rfl hbefore rfl⟩

end Result

end ApiScript
