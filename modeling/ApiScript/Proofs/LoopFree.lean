import ApiScript.Proofs.Preorder
import ApiScript.Proofs.Settling

/-!
# Programs without loops

Without loops a program comes to an end on every machine, however its functions call each other.
Statements lie inside one another to a fixed height, and each call that is entered leaves room for
one call fewer. A call that ends well gives the room back, so what follows it has as much as before.
-/
namespace ApiScript

namespace Statement

mutual

/-- How many statements lie around the innermost one of a statement, that one included. -/
def height : Statement → Nat
  | ⟨_, _, body, alt⟩ => max (heightAll body) (heightAll alt) + 1

def heightAll : List Statement → Nat
  | [] => 0
  | s :: rest => max s.height (heightAll rest)

end

theorem height_le_heightAll {s : Statement} {ss : List Statement} (h : s ∈ ss) :
    s.height ≤ heightAll ss := by
  induction ss with
  | nil => cases h
  | cons first rest ih =>
    rw [heightAll]
    rcases List.mem_cons.1 h with rfl | h
    · exact Nat.le_max_left _ _
    · exact Nat.le_trans (ih h) (Nat.le_max_right _ _)

theorem height_lt_of_mem_children {s t : Statement} (h : t ∈ s.children) : t.height < s.height := by
  obtain ⟨i, l, body, alt⟩ := s
  rw [height]
  rcases List.mem_append.1 h with h | h
  · have hbody : t.height ≤ heightAll body := height_le_heightAll h
    omega
  · have halt : t.height ≤ heightAll alt := height_le_heightAll h
    omega

end Statement

def Instruction.isLoop : Instruction → Bool
  | .loop _ => true
  | _ => false

namespace Program

def LoopFree (program : Program) : Prop :=
  ∀ function ∈ program.statements, ∀ s ∈ Statement.preorder function.body,
    s.instruction.isLoop = false

instance (program : Program) : Decidable program.LoopFree :=
  inferInstanceAs (Decidable (∀ function ∈ program.statements,
    ∀ s ∈ Statement.preorder function.body, s.instruction.isLoop = false))

def height (program : Program) : Nat := Statement.heightAll program.statements

theorem LoopFree.every_of_mem {program : Program} (h : program.LoopFree) {function s : Statement}
    (hfunction : function ∈ program.statements) (hs : s ∈ Statement.preorder function.body) :
    s.Every fun i => i.isLoop = false :=
  fun t ht => h function hfunction t (Statement.mem_preorder_trans function.body hs ht)

theorem LoopFree.every {program : Program} (h : program.LoopFree) {name : String}
    {function s : Statement} (hfunction : program.function? name = some function)
    (hs : s ∈ function.body) : s.Every fun i => i.isLoop = false :=
  h.every_of_mem (List.mem_of_find?_eq_some hfunction) (Statement.mem_preorder_self hs)

theorem height_lt_of_function? {program : Program} {name : String} {function s : Statement}
    (hfunction : program.function? name = some function) (hs : s ∈ function.body) :
    s.height < program.height := by
  have hinside : s.height < function.height :=
    Statement.height_lt_of_mem_children (List.mem_append_left _ hs)
  have hlisted : function.height ≤ program.height :=
    Statement.height_le_heightAll (List.mem_of_find?_eq_some hfunction)
  omega

end Program

namespace Run

variable {α β : Type} {P Q : Machine → Prop}

def Finishes (P : Machine → Prop) (x : Run α) : Prop := ∀ m, P m → (x m).isFinished = true

theorem Settles.finishes {x : Run α} (hx : Settles x) : Finishes P x := fun m _ => hx.isFinished m

theorem Succeeds.finishes {x : Run α} (hx : Succeeds x) : Finishes P x :=
  (Settles.of_succeeds hx).finishes

namespace Finishes

theorem bind {x : Run α} {f : α → Run β} (hx : Finishes P x)
    (hpost : ∀ m a m', P m → x m = .done a m' → Q m') (hf : ∀ a, Finishes Q (f a)) :
    Finishes P (x >>= f) := by
  intro m hm
  have hfinished := hx m hm
  rw [bind_apply]
  cases h : x m with
  | done a m₁ => exact hf a m₁ (hpost m a m₁ hm h)
  | failed fault m₁ => rfl
  | unfinished m₁ =>
    rw [h] at hfinished
    cases hfinished

/-- What follows may be such that it comes to an end anywhere. -/
theorem bind_anywhere {x : Run α} {f : α → Run β} (hx : Finishes P x)
    (hf : ∀ a, Finishes (fun _ => True) (f a)) : Finishes P (x >>= f) :=
  hx.bind (fun _ _ _ _ _ => trivial) hf

theorem locating (location : Location) {x : Run α} (hx : Finishes P x) :
    Finishes P (Run.locating location x) := by
  intro m hm
  have hfinished := hx m hm
  unfold Run.locating
  cases h : x m with
  | done a m₁ => rfl
  | failed fault m₁ => rfl
  | unfinished m₁ =>
    rw [h] at hfinished
    cases hfinished

end Finishes

def HasRoom (room : Nat) (m : Machine) : Prop := maxCallDepth ≤ m.callers.length + room

theorem Keeps.hasRoom {room : Nat} {x : Run α} (hx : Keeps x) (m : Machine) (a : α) (m' : Machine)
    (hm : HasRoom room m) (h : x m = .done a m') : HasRoom room m' := by
  unfold HasRoom
  rwa [(hx m a m' h).callers]

variable {program : Program} {exec : Statement → Run Flow} {room : Nat}

theorem finishes_block (hkeeps : ∀ s, Keeps (exec s)) {statements : List Statement}
    (hexec : ∀ s ∈ statements, Finishes (HasRoom room) (exec s)) :
    Finishes (HasRoom room) (block exec statements) := by
  induction statements with
  | nil => exact (Settles.pure _).finishes
  | cons s rest ih =>
    obtain ⟨hs, hrest⟩ := List.forall_mem_cons.1 hexec
    refine hs.bind (hkeeps s).hasRoom fun flow => ?_
    cases flow with
    | next => exact ih hrest
    | leave => exact ((succeeds_warnUnreachable rest).bind fun _ => .pure _).finishes

theorem finishes_branch (hkeeps : ∀ s, Keeps (exec s)) (condition : Condition)
    {body alt : List Statement} (hexec : ∀ s ∈ body ++ alt, Finishes (HasRoom room) (exec s)) :
    Finishes (HasRoom room) (branch exec condition body alt) := by
  have htaken (holds : Bool) :
      Finishes (HasRoom room) (block exec (if holds then body else alt)) := by
    apply finishes_block hkeeps
    intro s hs
    cases holds with
    | true => exact hexec s (List.mem_append_left _ hs)
    | false => exact hexec s (List.mem_append_right _ hs)
  have htest : Finishes (HasRoom room) (test condition) := (settles_test condition).finishes
  have hinside := htest.bind (makes_test condition).keeps.hasRoom htaken
  have henter (m : Machine) (a : Unit) (m' : Machine) (hm : HasRoom room m)
      (h : enterBlock m = .done a m') : HasRoom room m' := by
    cases h
    exact hm
  refine (Succeeds.modify _).finishes.bind henter fun _ => hinside.bind_anywhere fun flow => ?_
  exact ((Succeeds.modify _).bind fun _ => .pure flow).finishes

/-- An activation takes the room of one call and leaves the rest to the body. -/
theorem finishes_activate (hkeeps : ∀ s, Keeps (exec s)) (name : String) (params : List String)
    (args : List Value) (returns : Option Kind) {body : List Statement}
    (hexec : ∀ s ∈ body, Finishes (HasRoom room) (exec s)) :
    Finishes (HasRoom (room + 1)) (activate exec name params args returns body) := by
  have hopened (m : Machine) (a : Unit) (m' : Machine) (hm : HasRoom (room + 1) m)
      (h : openFrame name params args returns m = .done a m') : HasRoom room m' := by
    have hcallers : m'.callers = m.scope :: m.callers := (openFrame_eq_done h).2.2.2.1
    unfold HasRoom at hm ⊢
    rw [hcallers, List.length_cons]
    omega
  have hpop : Finishes (fun _ => True) (onStore Store.popFrame) := (Settles.onStore _).finishes
  refine Succeeds.machine.finishes.bind Makes.machine.keeps.hasRoom fun caller => ?_
  refine (succeeds_openFrame name params args returns).finishes.bind hopened fun _ => ?_
  refine (finishes_block hkeeps hexec).bind_anywhere fun _ => ?_
  exact (Succeeds.modify _).finishes.bind_anywhere fun _ => hpop

/-- A function is entered only if there is room for one more call. -/
theorem finishes_callFunction (hkeeps : ∀ s, Keeps (exec s)) (name : String) (args : List Value)
    (hexec : ∀ function less, program.function? name = some function → room = less + 1 →
      ∀ s ∈ function.body, Finishes (HasRoom less) (exec s)) :
    Finishes (HasRoom room) (callFunction program exec name args) := by
  intro m hm
  rcases callFunction_cases program name args m with
    ⟨cause, -, hrefused⟩ | ⟨-, params, function, -, hfunction, -, hdepth, hentered⟩
  · rw [hrefused]
    rfl
  · unfold HasRoom at hm
    obtain ⟨less, rfl⟩ : ∃ less, room = less + 1 := ⟨room - 1, by omega⟩
    rw [hentered]
    have hbody := hexec function less hfunction rfl
    exact finishes_activate hkeeps name params args (returnsOf function) hbody m hm

theorem finishes_call (hkeeps : ∀ s, Keeps (exec s)) (c : Call)
    (hexec : ∀ function less, program.function? c.name = some function → room = less + 1 →
      ∀ s ∈ function.body, Finishes (HasRoom less) (exec s)) :
    Finishes (HasRoom room) (call program exec c) := by
  refine (settles_resolveAll c.args).finishes.bind (makes_resolveAll c.args).keeps.hasRoom ?_
  refine fun args => Succeeds.machine.finishes.bind Makes.machine.keeps.hasRoom fun m => ?_
  cases m.builtins.get? c.name with
  | none => exact finishes_callFunction hkeeps c.name args hexec
  | some builtin =>
    refine (settles_builtin builtin args).finishes.bind_anywhere fun result => ?_
    cases result with
    | none => exact (Settles.pure _).finishes
    | some value => exact (Succeeds.modify _).finishes

theorem finishes_callInto (target : String) {c : Call}
    (hcall : Finishes (HasRoom room) (call program exec c)) :
    Finishes (HasRoom room) (callInto program exec target c) := by
  refine Succeeds.machine.finishes.bind Makes.machine.keeps.hasRoom fun before => ?_
  refine hcall.bind_anywhere fun _ => Succeeds.machine.finishes.bind_anywhere fun after => ?_
  cases after.returned with
  | nil => exact (Settles.raise _).finishes
  | cons value rest =>
    dsimp only
    split
    · exact (Settles.raise _).finishes
    · exact (Succeeds.modify _).finishes.bind_anywhere fun _ => (settles_declare _ _ _ _).finishes

/-- A statement without loops needs fuel for its own height, and for the height of the program in
each call that there is room for. -/
theorem finishes_execute (fetcher : Fetcher) (hprogram : program.LoopFree) {fuel room : Nat}
    {s : Statement}
    (hs : s.Every fun i => i.isLoop = false) (hfuel : s.height + room * program.height ≤ fuel) :
    Finishes (HasRoom room) (execute fetcher program fuel s) := by
  induction fuel generalizing s room with
  | zero =>
    obtain ⟨i, l, body, alt⟩ := s
    rw [Statement.height] at hfuel
    omega
  | succ fuel ih =>
    have hkeeps := keeps_execute fetcher program fuel
    have hcall (c : Call) :
        Finishes (HasRoom room) (call program (execute fetcher program fuel) c) := by
      refine finishes_call hkeeps c fun function less hfunction hroom t ht => ?_
      refine ih (hprogram.every hfunction ht) ?_
      have hheight := Program.height_lt_of_function? hfunction ht
      rw [hroom, Nat.add_mul] at hfuel
      omega
    have hnext {x : Run Unit} (hx : Finishes (HasRoom room) x) :
        Finishes (HasRoom room) (andNext x) := hx.bind_anywhere fun _ => (Settles.pure _).finishes
    refine (Succeeds.modify _).finishes.bind (makes_begin s).keeps.hasRoom fun _ => .locating _ ?_
    by_cases hatomic : s.instruction.isAtomic = true
    · exact (settles_perform_of_isAtomic fetcher program _ fuel hatomic).finishes
    · unfold perform
      cases hi : s.instruction with
      | branch condition =>
        refine finishes_branch hkeeps condition fun t ht => ih (hs.child ht) ?_
        have hheight := Statement.height_lt_of_mem_children ht
        omega
      | loop condition =>
        have hloop := hs.instruction
        simp [hi, Instruction.isLoop] at hloop
      | call c =>
        refine hnext (Succeeds.machine.finishes.bind Makes.machine.keeps.hasRoom fun before => ?_)
        exact (hcall c).bind_anywhere fun _ => (Succeeds.modify _).finishes
      | callInto target c => exact hnext (finishes_callInto target (hcall c))
      | _ => simp [hi, Instruction.isAtomic] at hatomic

theorem finishes_leaveMain (location : Location) : Finishes P (leaveMain location) := by
  have hpop : Finishes (fun _ => True) (onStore Store.popFrame) := (Settles.onStore _).finishes
  refine (Succeeds.modify _).finishes.bind_anywhere fun _ => ?_
  refine Succeeds.machine.finishes.bind_anywhere fun m => ?_
  refine (Succeeds.modify _).finishes.bind_anywhere fun _ => ?_
  refine (succeeds_warnUnfetched m.unfetched).finishes.bind_anywhere fun _ => ?_
  exact succeeds_dumpStore.finishes.bind_anywhere fun _ => hpop

/-- Every machine has room for the calls up to the limit at most. -/
theorem hasRoom_maxCallDepth (m : Machine) : HasRoom maxCallDepth m := Nat.le_add_left _ _

theorem finishes_run (fetcher : Fetcher) (hprogram : program.LoopFree) :
    Finishes (fun _ => True) (program.run fetcher ((maxCallDepth + 1) * program.height)) := by
  unfold Program.run
  cases hmain : program.function? entryFunction with
  | none => exact (Settles.raise _).finishes
  | some main =>
    have hbody : Finishes (HasRoom maxCallDepth)
        (block (execute fetcher program ((maxCallDepth + 1) * program.height)) main.body) := by
      refine finishes_block (keeps_execute fetcher program _) fun s hs => ?_
      refine finishes_execute fetcher hprogram (hprogram.every hmain hs) ?_
      have hheight := Program.height_lt_of_function? hmain hs
      rw [Nat.add_mul, Nat.one_mul]
      omega
    refine (Succeeds.modify _).finishes.bind (fun _ _ m _ _ => hasRoom_maxCallDepth m) fun _ => ?_
    exact hbody.bind_anywhere fun _ => finishes_leaveMain main.location

end Run

open Run

/-- A program without loops comes to an end on every machine with every fetcher, and so does every
statement of its functions wherever it begins. It is enough to nest statements as deep as the
height of the program for the entry function and for each call up to the limit. -/
theorem loop_free_programs_end (program : Program) (h : program.LoopFree) (fetcher : Fetcher)
    (m : Machine) :
    (∃ o : Outcome Unit, o.isFinished = true ∧ ∀ fuel,
      (maxCallDepth + 1) * program.height ≤ fuel → program.run fetcher fuel m = o) ∧
    ∀ function ∈ program.statements, ∀ s ∈ Statement.preorder function.body,
      ∃ o : Outcome Flow, o.isFinished = true ∧ ∀ fuel,
        s.height + maxCallDepth * program.height ≤ fuel →
          execute fetcher program fuel s m = o := by
  constructor
  · have hends := finishes_run fetcher h m trivial
    exact ⟨_, hends, fun fuel hfuel => extends_run fetcher program _ fuel hfuel m hends⟩
  · intro function hfunction s hs
    have hends := finishes_execute fetcher h (h.every_of_mem hfunction hs)
      (Nat.le_refl _) m (hasRoom_maxCallDepth m)
    exact ⟨_, hends, fun fuel hfuel => extends_execute fetcher program hfuel s m hends⟩

def volleyProgram : Program :=
  let line (number : Nat) : Location := ⟨number, "volley.neb"⟩
  ⟨[⟨.define ⟨"Main", [], none⟩, line 1, [.leaf (.call ⟨"ping", []⟩) (line 2)], []⟩,
    ⟨.define ⟨"ping", [], none⟩, line 4,
      [⟨.branch ⟨true, .declared "net"⟩, line 5,
        [⟨.branch ⟨false, .declared "out"⟩, line 6, [],
          [.leaf (.callInto "out" ⟨"pong", []⟩) (line 8)]⟩], []⟩], []⟩,
    ⟨.define ⟨"pong", [], some .num⟩, line 12, [.leaf (.call ⟨"ping", []⟩) (line 13)], []⟩]⟩

theorem volleyProgram_ends :
    let m : Machine :=
      { store := { signatures := .ofList [("Main", []), ("ping", []), ("pong", [])] } }
    volleyProgram.LoopFree ∧
      ∃ o : Outcome Unit, o.cause? = some (.callDepth 255) ∧ ∀ fuel, 1024 ≤ fuel →
        volleyProgram.run (fun _ _ => {}) fuel m = o := by
  intro m
  have hfree : volleyProgram.LoopFree := by decide
  obtain ⟨o, -, hends⟩ := (loop_free_programs_end volleyProgram hfree (fun _ _ => {}) m).1
  have hcause : (volleyProgram.run (fun _ _ => {}) 1024 m).cause? = some (.callDepth 255) := by
    decide +kernel
  rw [hends 1024 (by decide)] at hcause
  exact ⟨hfree, o, hcause, hends⟩

end ApiScript
