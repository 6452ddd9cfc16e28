import ApiScript.Proofs.Begun
import ApiScript.Proofs.FullerFrames

/-!
# Purging only removes names

A program that declares no constants, tests no name for its presence and changes no mode but that
of warnings cannot tell whether blocks are purged, other than by names that are missing. A run that
ends well with purging on ends well without it: every statement that begins in the one begins in the
other, where all frames hold at least the same symbols.
-/
namespace ApiScript

open Run Statement

def Condition.asksForName (condition : Condition) : Bool :=
  match condition.test with
  | .declared _ => true
  | _ => false

def Instruction.ignoresPurging : Instruction → Bool
  | .assign _ _ constant => !constant
  | .branch condition => !condition.asksForName
  | .loop condition => !condition.asksForName
  | .use mode => decide (mode = .warns)
  | _ => true

abbrev Statement.IgnoresPurging (s : Statement) : Prop :=
  s.Every fun i => i.ignoresPurging = true

abbrev Program.IgnoresPurging (program : Program) : Prop :=
  ∀ s ∈ preorder program.statements, s.instruction.ignoresPurging = true

theorem Condition.test_ne_declared {condition : Condition} (h : (!condition.asksForName) = true)
    (name : String) : condition.test ≠ .declared name := by
  intro htest
  simp [Condition.asksForName, htest] at h

namespace Run

variable {fetcher : Fetcher} {program : Program} {fuel : Nat}

theorem fullerHere_purgeScope {m₁ m₂ : Machine} (h : FullerHere m₁ m₂) :
    FullerHere (purgeScope m₁) (purgeScope m₂) := by
  obtain ⟨⟨store, hstore, hdebug, rfl⟩, hwritable⟩ := h
  have hoff : purgeScope (m₁.unpurged store) = m₁.unpurged store := rfl
  rw [hoff]
  unfold purgeScope
  split
  · exact ⟨⟨store, hstore.cleanup m₁.depth, hdebug, rfl⟩, hwritable⟩
  · exact ⟨⟨store, hstore, hdebug, rfl⟩, hwritable⟩

theorem led_begin (s : Statement) : Led (begin s) :=
  led_modify (fun _ _ => rfl) fun _ => ⟨rfl, rfl⟩

theorem led_enterBlock : Led enterBlock := led_modify (fun _ _ => rfl) fun _ => ⟨rfl, rfl⟩

theorem led_nested {x : Run Flow} (hx : Led x) : Led (nested x) := by
  have hleave : Led leaveBlock := by
    refine .modify ?_
    rintro m _ ⟨⟨store, hstore, hdebug, rfl⟩, hwritable⟩
    have hback : FullerHere { m with depth := m.depth - 1 }
        { m.unpurged store with depth := m.depth - 1 } :=
      ⟨⟨store, hstore, hdebug, rfl⟩, hwritable⟩
    exact fullerHere_purgeScope hback
  exact led_enterBlock.bind fun _ => hx.bind fun _ => hleave.bind fun _ => .pure _

theorem led_bindParams (depth : Nat) (bindings : List (String × Value)) :
    Led (bindParams depth bindings) := by
  induction bindings with
  | nil => exact .pure _
  | cons binding rest ih => exact (leads_declare _ _ _ _ _).bind fun _ => ih

/-- A new frame is writable, whatever the frames below hold. -/
theorem leads_openFrame (name : String) (params : List String) (args : List Value)
    (returns : Option Kind) :
    Leads Fuller (openFrame name params args returns) (openFrame name params args returns)
      FullerHere := by
  refine .look ?_
  rintro m _ ⟨store, hstore, hdebug, rfl⟩
  have hpush : Leads Fuller (modify fun m => { m with store := m.store.pushFrame })
      (modify fun m => { m with store := m.store.pushFrame }) FullerHere := by
    refine .modify ?_
    rintro m _ ⟨store, hstore, hdebug, rfl⟩
    exact ⟨⟨store.pushFrame, hstore.pushFrame, hdebug, rfl⟩, store.writable_pushFrame⟩
  have henter : Led (enterFunction name returns) :=
    led_modify (fun _ _ => rfl) fun _ => ⟨rfl, rfl⟩
  refine (hpush.bind fun _ => ?_) _ _ ⟨store, hstore, hdebug, rfl⟩
  exact (led_bindParams m.depth (params.zip args)).bind fun _ => henter

theorem leads_popFrame :
    Leads FullerHere (onStore Store.popFrame) (onStore Store.popFrame) Fuller := by
  refine .onStore ?_
  rintro m _ s₁ ⟨⟨store, hstore, hdebug, rfl⟩, -⟩ hpop
  obtain ⟨s₂, hpop', hwithin⟩ := hstore.popFrame hpop
  exact ⟨s₂, hpop', s₂, hwithin, hdebug, rfl⟩

def LedStatements (fetcher : Fetcher) (program : Program) (fuel : Nat) : Prop :=
  ∀ s : Statement, s.IgnoresPurging → Led (execute fetcher program fuel s)

theorem led_block (hexec : LedStatements fetcher program fuel) {statements : List Statement}
    (h : ∀ s ∈ statements, s.IgnoresPurging) :
    Led (block (execute fetcher program fuel) statements) :=
  leads_block (fun s hs => hexec s (h s hs)) led_warnUnreachable

/-- The frame of the caller is found again as it was left, so it is still writable. -/
theorem led_activate (hexec : LedStatements fetcher program fuel) (name : String)
    (params : List String) (args : List Value) (returns : Option Kind) {body : List Statement}
    (h : ∀ s ∈ body, s.IgnoresPurging) :
    Led (activate (execute fetcher program fuel) name params args returns body) := by
  have hleave (returns : Option Kind) : Led (leaveFunction returns) := by
    refine led_modify (fun m store => ?_) fun m => ?_
    · cases hcallers : m.callers with
      | nil => simp [Machine.unpurged, hcallers]
      | cons caller rest => simp [Machine.unpurged, hcallers]
    · cases m.callers with
      | nil => exact ⟨rfl, rfl⟩
      | cons caller rest => exact ⟨rfl, rfl⟩
  have hopen : Led (openFrame name params args returns) :=
    fun m₁ m₂ hm => leads_openFrame name params args returns m₁ m₂ hm.1
  have hends : Leads FullerHere
      (activate (execute fetcher program fuel) name params args returns body)
      (activate (execute fetcher program fuel) name params args returns body) Fuller := by
    refine led_look (fun _ _ _ => rfl) fun caller => hopen.bind fun _ => ?_
    exact (led_block hexec h).bind fun _ => (hleave _).bind fun _ => leads_popFrame
  intro m₁ m₂ hm a m₁' hdone
  obtain ⟨m₂', hdone', hfuller⟩ := hends m₁ m₂ hm a m₁' hdone
  refine ⟨m₂', hdone', hfuller, ?_⟩
  have hframes := (restored_of_activate (keeps_execute fetcher program fuel) hdone').frames
  intro other symbol hsymbol
  rw [Store.symbol?_congr hframes] at hsymbol
  exact hm.2 other symbol hsymbol

theorem leads_enterMain (program : Program) :
    Leads Fuller (enterMain program) (enterMain program) FullerHere := by
  refine .modify ?_
  rintro m _ ⟨store, hstore, hdebug, rfl⟩
  exact ⟨⟨store.pushFrame, hstore.pushFrame, hdebug, rfl⟩, store.writable_pushFrame⟩

theorem led_dumpStore : Led dumpStore := by
  refine .look ?_
  rintro m _ ⟨⟨store, hstore, hdebug, rfl⟩, hwritable⟩
  have hoff : (m.unpurged store).modes.debug = false := hdebug
  rw [hoff, hdebug]
  exact Leads.pure () _ _ ⟨⟨store, hstore, hdebug, rfl⟩, hwritable⟩

theorem leads_leaveMain (location : Location) :
    Leads FullerHere (leaveMain location) (leaveMain location) Fuller := by
  have hpurge : Led (modify fun m => purgeScope { m with location }) := by
    refine .modify ?_
    rintro m _ ⟨⟨store, hstore, hdebug, rfl⟩, hwritable⟩
    have hback : FullerHere { m with location } { m.unpurged store with location } :=
      ⟨⟨store, hstore, hdebug, rfl⟩, hwritable⟩
    exact fullerHere_purgeScope hback
  have hwarn (ids : List String) : Led (warnUnfetched ids) := by
    induction ids with
    | nil => exact .pure _
    | cons id rest ih => exact (led_warn _).bind fun _ => ih
  have hforget : Led (modify fun m => { m with unfetched := [] }) :=
    led_modify (fun _ _ => rfl) fun _ => ⟨rfl, rfl⟩
  refine hpurge.bind fun _ => led_look (fun _ _ _ => rfl) fun m => hforget.bind fun _ => ?_
  exact (hwarn _).bind fun _ => led_dumpStore.bind fun _ => leads_popFrame

variable (hprogram : program.IgnoresPurging)

include hprogram

theorem led_callFunction (hexec : LedStatements fetcher program fuel) (name : String)
    (args : List Value) : Led (callFunction program (execute fetcher program fuel) name args) := by
  refine led_look (fun m store hstore => ?_) fun m => (Leads.lift _).bind fun params => ?_
  · change (lift (store.signature name) >>= fun params => _) = _
    rw [hstore.signature]
    rfl
  · cases hfunction : program.function? name with
    | none => exact .raise _ _
    | some function =>
      dsimp only
      split
      · exact .raise _ _
      · split
        · exact .raise _ _
        · exact led_activate hexec _ _ _ _ fun s hs => .of_function hprogram hfunction hs

theorem led_call (hexec : LedStatements fetcher program fuel) (c : Call) :
    Led (call program (execute fetcher program fuel) c) := by
  refine (led_resolveAll c.args).bind fun args => led_look (fun _ _ _ => rfl) fun m => ?_
  cases m.builtins.get? c.name with
  | none => exact led_callFunction hprogram hexec c.name args
  | some builtin =>
    refine (led_builtin builtin args).bind fun result => ?_
    cases result with
    | none => exact .pure _
    | some value => exact led_returnValue value

theorem led_callAndDrop (hexec : LedStatements fetcher program fuel) (c : Call) :
    Led (callAndDrop program (execute fetcher program fuel) c) := by
  refine led_look (fun _ _ _ => rfl) fun before => (led_call hprogram hexec c).bind fun _ => ?_
  exact led_modify (fun _ _ => rfl) fun _ => ⟨rfl, rfl⟩

theorem led_callInto (hexec : LedStatements fetcher program fuel) (target : String) (c : Call) :
    Led (callInto program (execute fetcher program fuel) target c) := by
  refine led_look (fun _ _ _ => rfl) fun before => (led_call hprogram hexec c).bind fun _ => ?_
  refine led_look (fun _ _ _ => rfl) fun after => ?_
  have htruncate : Led (truncateReturned before.returned.length) :=
    led_modify (fun _ _ => rfl) fun _ => ⟨rfl, rfl⟩
  cases after.returned with
  | nil => exact .raise _ _
  | cons value rest =>
    dsimp only
    split
    · exact .raise _ _
    · exact htruncate.bind fun _ => led_declare _ _ _

theorem led_perform (hexec : LedStatements fetcher program fuel) {s : Statement}
    (hs : s.IgnoresPurging) :
    Led (perform fetcher program (execute fetcher program fuel) fuel s) := by
  have hinstruction := hs.instruction
  have hbody : ∀ t ∈ s.body, t.IgnoresPurging := fun t ht => hs.child (List.mem_append_left _ ht)
  have halt : ∀ t ∈ s.alt, t.IgnoresPurging := fun t ht => hs.child (List.mem_append_right _ ht)
  unfold perform
  cases hi : s.instruction with
  | define signature => exact .pure _
  | assign target value constant =>
    obtain rfl : constant = false := by simpa [hi, Instruction.ignoresPurging] using hinstruction
    exact .andNext ((led_resolve value).bind fun _ => led_declare _ _ _)
  | branch condition =>
    have htest : Led (test condition) := by
      rw [hi] at hinstruction
      exact led_test (Condition.test_ne_declared hinstruction)
    refine led_nested (htest.bind fun holds => ?_)
    cases holds with
    | true => exact led_block hexec hbody
    | false => exact led_block hexec halt
  | loop condition =>
    have htest : Led (test condition) := by
      rw [hi] at hinstruction
      exact led_test (Condition.test_ne_declared hinstruction)
    exact led_nested (leads_repeatWhile htest (led_block hexec hbody) fuel)
  | otherwise chained => exact .raise _ _
  | close => exact .raise _ _
  | delete target => exact .andNext (led_delete target)
  | status target reference => exact .andNext (led_bindStatus target reference)
  | fetch target reference => exact .andNext (led_fetch fetcher target reference)
  | request request => exact .andNext (led_register request)
  | use mode =>
    have hmode : mode = .warns := by simpa [hi, Instruction.ignoresPurging] using hinstruction
    exact .andNext (led_use hmode)
  | print value => exact .andNext ((led_resolve value).bind fun _ => led_emit _)
  | read target => exact .andNext (led_read target)
  | leave value => exact (led_leave value).bind fun _ => .pure _
  | call c => exact .andNext (led_callAndDrop hprogram hexec c)
  | callInto target c => exact .andNext (led_callInto hprogram hexec target c)
  | index target source position => exact .andNext (led_charAt target source position)
  | increment target => exact .andNext (led_step target 1)
  | decrement target => exact .andNext (led_step target (-1))

/-- A statement that ends well does so on a fuller machine, which stays fuller. -/
theorem led_execute (fetcher : Fetcher) (fuel : Nat) : LedStatements fetcher program fuel := by
  induction fuel with
  | zero => exact fun s _ => .unfinished _
  | succ fuel ih =>
    intro s hs
    exact (led_begin s).bind fun _ => .locating _ (led_perform hprogram ih hs)

theorem leads_run (fetcher : Fetcher) (fuel : Nat) :
    Leads Fuller (program.run fetcher fuel) (program.run fetcher fuel) Fuller := by
  unfold Program.run
  cases hmain : program.function? entryFunction with
  | none => exact .raise _ _
  | some main =>
    refine (leads_enterMain program).bind fun _ => ?_
    refine (led_block (led_execute hprogram fetcher fuel) ?_).bind fun _ => leads_leaveMain _
    exact fun s hs => .of_function hprogram hmain hs

end Run

section Begun

variable {fetcher : Fetcher} {program : Program} {t : Statement} {n₁ : Machine}

mutual

/-- Where a statement begins on a machine that purges, it begins on a fuller one. -/
theorem Begins.led (hprogram : program.IgnoresPurging) {s : Statement} {m₁ m₂ : Machine}
    (hs : s.IgnoresPurging) (hm : FullerHere m₁ m₂) :
    Begins fetcher program t n₁ s m₁ →
      ∃ n₂, Begins fetcher program t n₂ s m₂ ∧ FullerHere n₁ n₂
  | .self => ⟨m₂, .self, hm⟩
  | .branch hi htest hbody => by
    have hinstruction := hs.instruction
    rw [hi] at hinstruction
    have hled := (led_begin s).bind fun _ => led_enterBlock.bind fun _ =>
      led_test (Condition.test_ne_declared hinstruction)
    obtain ⟨m₂', htest', hm'⟩ := hled m₁ m₂ hm _ _ htest
    obtain ⟨n₂, hbegins, hn⟩ :=
      hbody.led hprogram (fun u hu => hs.child (mem_children_of_taken hu)) hm'
    exact ⟨n₂, .branch hi htest' hbegins, hn⟩
  | .loop hi henter hrounds => by
    have hinstruction := hs.instruction
    rw [hi] at hinstruction
    have hled := (led_begin s).bind fun _ => led_enterBlock
    obtain ⟨m₂', henter', hm'⟩ := hled m₁ m₂ hm _ _ henter
    have htest := led_test (Condition.test_ne_declared hinstruction)
    obtain ⟨n₂, hbegins, hn⟩ :=
      hrounds.led hprogram htest (fun u hu => hs.child (List.mem_append_left _ hu)) hm'
    exact ⟨n₂, .loop hi henter' hbegins, hn⟩
  | .call hcalls hargs hbuiltin hsignature hfunction hcount hdepth hopen hbody => by
    have hled (operands : List Operand) : Led (do begin s; resolveAll operands) :=
      (led_begin s).bind fun _ => led_resolveAll operands
    obtain ⟨m₂', hargs', hm'⟩ := hled _ m₁ m₂ hm _ _ hargs
    obtain ⟨m₂'', hopen', hm''⟩ := leads_openFrame _ _ _ _ _ m₂' hm'.1 _ _ hopen
    obtain ⟨n₂, hbegins, hn⟩ :=
      hbody.led hprogram (fun u hu => .of_function hprogram hfunction hu) hm''
    obtain ⟨⟨store, hstore, -, rfl⟩, -⟩ := hm'
    have hsignature' := (hstore.signature _).trans hsignature
    exact ⟨n₂, .call hcalls hargs' hbuiltin hsignature' hfunction hcount hdepth hopen' hbegins, hn⟩

theorem BlockBegins.led (hprogram : program.IgnoresPurging) {statements : List Statement}
    {m₁ m₂ : Machine} (hs : ∀ s ∈ statements, s.IgnoresPurging) (hm : FullerHere m₁ m₂) :
    BlockBegins fetcher program t n₁ statements m₁ →
      ∃ n₂, BlockBegins fetcher program t n₂ statements m₂ ∧ FullerHere n₁ n₂
  | .head hbegins => by
    obtain ⟨n₂, hbegins', hn⟩ := hbegins.led hprogram (hs _ List.mem_cons_self) hm
    exact ⟨n₂, .head hbegins', hn⟩
  | .tail hdone hbegins => by
    obtain ⟨hfirst, hrest⟩ := List.forall_mem_cons.1 hs
    obtain ⟨m₂', hdone', hm'⟩ := led_execute hprogram fetcher _ _ hfirst m₁ m₂ hm _ _ hdone
    obtain ⟨n₂, hbegins', hn⟩ := hbegins.led hprogram hrest hm'
    exact ⟨n₂, .tail hdone' hbegins', hn⟩

theorem LoopBegins.led (hprogram : program.IgnoresPurging) {condition : Condition}
    {body : List Statement} {m₁ m₂ : Machine} (hcondition : Led (test condition))
    (hbody : ∀ s ∈ body, s.IgnoresPurging) (hm : FullerHere m₁ m₂) :
    LoopBegins fetcher program t n₁ condition body m₁ →
      ∃ n₂, LoopBegins fetcher program t n₂ condition body m₂ ∧ FullerHere n₁ n₂
  | .inside htest hbegins => by
    obtain ⟨m₂', htest', hm'⟩ := hcondition m₁ m₂ hm _ _ htest
    obtain ⟨n₂, hbegins', hn⟩ := hbegins.led hprogram hbody hm'
    exact ⟨n₂, .inside htest' hbegins', hn⟩
  | .again htest hround hbegins => by
    obtain ⟨m₂', htest', hm'⟩ := hcondition m₁ m₂ hm _ _ htest
    obtain ⟨m₂'', hround', hm''⟩ :=
      led_block (led_execute hprogram fetcher _) hbody _ m₂' hm' _ _ hround
    obtain ⟨n₂, hbegins', hn⟩ := hbegins.led hprogram hcondition hbody hm''
    exact ⟨n₂, .again htest' hround' hbegins', hn⟩

end

end Begun

/-- The same was done to the world outside, and each frame of the second machine has the symbols of
the first, with their values and statuses. -/
structure Retains (m₁ m₂ : Machine) : Prop where
  output : m₂.output = m₁.output
  calls : m₂.calls = m₁.calls
  input : m₂.input = m₁.input
  frames : List.Forall₂ Frame.Within m₁.store.frames m₂.store.frames

theorem Fuller.retains {m₁ m₂ : Machine} (h : Fuller m₁ m₂) : Retains m₁ m₂ := by
  obtain ⟨store, hstore, -, rfl⟩ := h
  exact ⟨rfl, rfl, rfl, hstore.frames⟩

def Machine.withPurging (m : Machine) (on : Bool) : Machine :=
  { m with modes := { m.modes with purge := on } }

/-- Take a program without constants, without tests for the presence of a name, and without a change
of the modes for debugging and purging, and a machine that is not debugged. Whatever statement
begins in the run with purging on begins in the run with purging off, on a machine that retains all
names. If the body of the entry function ends well with purging, so it does without, and so does the
whole run. -/
theorem purging_only_removes_names (fetcher : Fetcher) (program : Program)
    (hprogram : program.IgnoresPurging) (m : Machine) (hdebug : m.modes.debug = false) :
    (∀ t n₁, RunBegins fetcher program (m.withPurging true) t n₁ →
      ∃ n₂, RunBegins fetcher program (m.withPurging false) t n₂ ∧ Retains n₁ n₂) ∧
    (∀ main fuel flow n₁, program.function? entryFunction = some main →
      (do enterMain program; block (execute fetcher program fuel) main.body)
        (m.withPurging true) = .done flow n₁ →
      ∃ n₂, (do enterMain program; block (execute fetcher program fuel) main.body)
        (m.withPurging false) = .done flow n₂ ∧ Retains n₁ n₂) ∧
    ∀ n₁, EndsIn (fun fuel => program.run fetcher fuel) (m.withPurging true) (.done () n₁) →
      ∃ n₂, EndsIn (fun fuel => program.run fetcher fuel) (m.withPurging false) (.done () n₂) ∧
        Retains n₁ n₂ := by
  have hfuller : Fuller (m.withPurging true) (m.withPurging false) :=
    ⟨m.store, .refl m.store, hdebug, rfl⟩
  refine ⟨?_, ?_, ?_⟩
  · rintro t n₁ ⟨main, e₁, hmain, henter, hbody⟩
    obtain ⟨e₂, henter', hentered⟩ := leads_enterMain program _ _ hfuller _ _ henter
    obtain ⟨n₂, hbody', hn⟩ :=
      hbody.led hprogram (fun s hs => .of_function hprogram hmain hs) hentered
    exact ⟨n₂, ⟨main, e₂, hmain, henter', hbody'⟩, hn.1.retains⟩
  · intro main fuel flow n₁ hmain hdone
    have hled : Led (block (execute fetcher program fuel) main.body) :=
      led_block (led_execute hprogram fetcher fuel) fun s hs => .of_function hprogram hmain hs
    obtain ⟨n₂, hdone', hn⟩ := (leads_enterMain program).bind (fun _ => hled) _ _ hfuller _ _ hdone
    exact ⟨n₂, hdone', hn.1.retains⟩
  · rintro n₁ ⟨-, fuel, hdone⟩
    obtain ⟨n₂, hdone', hn⟩ := leads_run hprogram fetcher fuel _ _ hfuller _ _ hdone
    exact ⟨n₂, ⟨rfl, fuel, hdone'⟩, hn.retains⟩

def leakyProgram : Program :=
  let line (number : Nat) : Location := ⟨number, "leaky.neb"⟩
  ⟨[⟨.define ⟨"Main", [], none⟩, line 1,
      [.leaf (.assign "x" (.number "1") false) (line 2),
        ⟨.loop ⟨false, .compares (.name "x") .less (.number "3")⟩, line 3,
          [.leaf (.assign "y" (.name "x") false) (line 4), .leaf (.increment "x") (line 5)], []⟩,
        .leaf (.assign "y" (.number "9") false) (line 7),
        ⟨.branch ⟨false, .compares (.name "y") .equal (.number "9")⟩, line 8,
          [.leaf (.delete "y") (line 9), .leaf (.assign "y" (.number "4") false) (line 10),
            .leaf (.call ⟨"show", [.name "y"]⟩) (line 11)], []⟩,
        .leaf (.print (.name "x")) (line 13)], []⟩,
    ⟨.define ⟨"show", ["k"], none⟩, line 15,
      [⟨.branch ⟨false, .compares (.name "k") .greater (.number "0")⟩, line 16,
        [.leaf (.assign "z" (.name "k") false) (line 17), .leaf (.print (.name "z")) (line 18)],
        []⟩], []⟩]⟩

theorem leakyProgram_retains_names :
    let m : Machine := { store := { signatures := .ofList [("show", ["k"])] } }
    let run (fuel : Nat) := leakyProgram.run (fun _ _ => {}) fuel
    leakyProgram.IgnoresPurging ∧
    ∃ n₁ n₂, EndsIn run (m.withPurging true) (.done () n₁) ∧
      EndsIn run (m.withPurging false) (.done () n₂) ∧ n₁.output = ["4", "3"] ∧
      Retains n₁ n₂ := by
  intro m run
  have hprogram : leakyProgram.IgnoresPurging := by decide +kernel
  obtain ⟨-, -, hends⟩ := purging_only_removes_names (fun _ _ => {}) leakyProgram hprogram m rfl
  have hdone : (run 9 (m.withPurging true)).isDone = true := by decide +kernel
  have houtput : (run 9 (m.withPurging true)).machine.output = ["4", "3"] := by decide +kernel
  obtain ⟨_, n₁, hrun⟩ := Outcome.exists_of_isDone hdone
  rw [hrun] at houtput
  have hend : EndsIn run (m.withPurging true) (.done () n₁) := ⟨rfl, 9, hrun⟩
  obtain ⟨n₂, hend', hretains⟩ := hends n₁ hend
  exact ⟨hprogram, n₁, n₂, hend, hend', houtput, hretains⟩

end ApiScript
