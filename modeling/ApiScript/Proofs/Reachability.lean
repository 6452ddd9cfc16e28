import ApiScript.Machine.Assembling
import ApiScript.Proofs.CallBalance
import ApiScript.Proofs.Changes
import ApiScript.Proofs.PlainStore

/-!
# Reachable machines

A machine rests between runs: it may be fresh, have assembled programs, have had operations made on
its store, or have been left by a run that ended well, with a fault or not at all. While a rested
machine runs a program, statements begin in further states. In every reachable machine each symbol
has one record, so a call and a whole run give back exactly what they found.
-/
namespace ApiScript

open Relation (ReflTransGen)
open Run

mutual

/-- A statement begins in a state while another one is executed: that one itself, or one inside a
block or a function that it enters. -/
inductive Begins (fetcher : Fetcher) (program : Program) (t : Statement) (n : Machine) :
    Statement → Machine → Prop
  | self : Begins fetcher program t n t n
  | branch {s : Statement} {m m₁ : Machine} {condition : Condition} {holds : Bool} :
    s.instruction = .branch condition →
      (do begin s; enterBlock; test condition) m = .done holds m₁ →
      BlockBegins fetcher program t n (if holds then s.body else s.alt) m₁ →
      Begins fetcher program t n s m
  | loop {s : Statement} {m m₁ : Machine} {condition : Condition} :
    s.instruction = .loop condition → (do begin s; enterBlock) m = .done () m₁ →
      LoopBegins fetcher program t n condition s.body m₁ → Begins fetcher program t n s m
  | call {s function : Statement} {m m₁ m₂ : Machine} {c : Call} {args : List Value}
    {params : List String} :
    (s.instruction = .call c ∨ ∃ target, s.instruction = .callInto target c) →
      (do begin s; resolveAll c.args) m = .done args m₁ → m₁.isBuiltin c.name = false →
      m₁.store.signature c.name = .ok params → program.function? c.name = some function →
      params.length = args.length → m₁.callers.length < maxCallDepth →
      openFrame c.name params args (returnsOf function) m₁ = .done () m₂ →
      BlockBegins fetcher program t n function.body m₂ → Begins fetcher program t n s m

inductive BlockBegins (fetcher : Fetcher) (program : Program) (t : Statement) (n : Machine) :
    List Statement → Machine → Prop
  | head {s : Statement} {rest : List Statement} {m : Machine} :
    Begins fetcher program t n s m → BlockBegins fetcher program t n (s :: rest) m
  | tail {s : Statement} {rest : List Statement} {m m₁ : Machine} {fuel : Nat} :
    execute fetcher program fuel s m = .done .next m₁ →
      BlockBegins fetcher program t n rest m₁ → BlockBegins fetcher program t n (s :: rest) m

inductive LoopBegins (fetcher : Fetcher) (program : Program) (t : Statement) (n : Machine) :
    Condition → List Statement → Machine → Prop
  | inside {condition : Condition} {body : List Statement} {m m₁ : Machine} :
    test condition m = .done true m₁ → BlockBegins fetcher program t n body m₁ →
      LoopBegins fetcher program t n condition body m
  | again {condition : Condition} {body : List Statement} {m m₁ m₂ : Machine} {fuel : Nat} :
    test condition m = .done true m₁ →
      block (execute fetcher program fuel) body m₁ = .done .next m₂ →
      LoopBegins fetcher program t n condition body m₂ →
      LoopBegins fetcher program t n condition body m

end

theorem Run.Makes.of_done {α : Type} {r : Machine → Machine → Prop} {x : Run α} (hx : Makes r x)
    {m m' : Machine} {a : α} (h : x m = .done a m') : ReflTransGen r m m' := by
  have hm := hx m
  rwa [h] at hm

section Changes

variable {fetcher : Fetcher} {program : Program} {t : Statement} {n : Machine}

mutual

/-- The machine comes to the beginning of a statement by changes. -/
theorem Begins.changes {s : Statement} {m : Machine} :
    Begins fetcher program t n s m → ReflTransGen Change m n
  | .self => .refl
  | .branch _ htest hbody => by
    refine (Makes.of_done ?_ htest).trans hbody.changes
    exact (makes_begin s).change.bind fun _ => makes_enterBlock.bind fun _ => (makes_test _).change
  | .loop _ henter hrounds => by
    refine (Makes.of_done ?_ henter).trans hrounds.changes
    exact (makes_begin s).change.bind fun _ => makes_enterBlock
  | .call _ hargs _ _ _ _ _ hopen hbody => by
    have hopened := (makes_openFrame _ _ _ _).of_done hopen
    refine (Makes.of_done ?_ hargs).trans (hopened.trans hbody.changes)
    exact (makes_begin s).change.bind fun _ => makes_resolveAll _

theorem BlockBegins.changes {statements : List Statement} {m : Machine} :
    BlockBegins fetcher program t n statements m → ReflTransGen Change m n
  | .head hs => hs.changes
  | .tail hs hrest => ((makes_execute _ _ _ _).of_done hs).trans hrest.changes

theorem LoopBegins.changes {condition : Condition} {body : List Statement} {m : Machine} :
    LoopBegins fetcher program t n condition body m → ReflTransGen Change m n
  | .inside htest hbody => ((makes_test _).change.of_done htest).trans hbody.changes
  | .again htest hround hrounds => by
    have hran := (makes_block (makes_execute _ _ _) _).of_done hround
    exact ((makes_test _).change.of_done htest).trans (hran.trans hrounds.changes)

end

end Changes

inductive Rests : Machine → Prop
  | fresh (input : List InputLine) : Rests { input }
  | supply {m : Machine} (h : Rests m) (input : List InputLine) : Rests { m with input }
  | assemble {m : Machine} (h : Rests m) (sources : List (String × String)) :
    Rests (m.assemble sources).2
  | operate {m : Machine} (h : Rests m) (op : Operation) :
    Rests { m with store := (m.store.perform op).2 }
  | prompt {m : Machine} (h : Rests m) (text : String) : Rests (m.record (.prompted text))
  | readLine {m : Machine} (h : Rests m) : Rests (readLine m).machine
  | run {m : Machine} (h : Rests m) (fetcher : Fetcher) (fuel : Nat) (program : Program) :
    Rests (program.run fetcher fuel m).machine

/-- The states between runs, and those in which a statement of a run begins. -/
inductive Reachable : Machine → Prop
  | rests {m : Machine} (h : Rests m) : Reachable m
  | begins {m m₁ n : Machine} {fetcher : Fetcher} {program : Program} {main t : Statement}
    (h : Rests m) (hmain : program.function? entryFunction = some main)
    (henter : enterMain program m = .done () m₁)
    (hbegins : BlockBegins fetcher program t n main.body m₁) : Reachable n

theorem Change.recorded {m m' : Machine} (h : Change m m') (hm : m.store.Recorded) :
    m'.store.Recorded := by
  cases h with
  | locally h =>
    cases h with
    | declare h => exact hm.declare h
    | eraseSymbol name => exact hm.eraseSymbol name
    | registerRequest h =>
      unfold Store.registerRequest at h
      split at h
      · cases h
      · cases h
        exact hm
    | eraseRequest id => exact hm
    | returnValue value => exact hm
    | note h =>
      rw [h]
      exact hm
  | nest depth => exact hm
  | cleanup depth => exact hm.cleanup depth
  | pushFrame => exact hm.pushFrame
  | popFrame h => exact hm.popFrame h
  | switch scope callers returns => exact hm
  | dropReturned count => exact hm

theorem Change.recorded_of_reflTransGen {m m' : Machine} (h : ReflTransGen Change m m')
    (hm : m.store.Recorded) : m'.store.Recorded := by
  induction h with
  | refl => exact hm
  | tail _ hlast ih => exact hlast.recorded ih

theorem Rests.recorded {m : Machine} (h : Rests m) : m.store.Recorded := by
  induction h with
  | fresh input => exact Store.recorded_empty
  | supply _ input ih => exact ih
  | assemble _ sources ih =>
    unfold Machine.assemble
    split
    · exact ih
    · exact ih
  | operate _ op ih => exact ih.perform op
  | prompt _ text ih => exact ih
  | readLine _ ih => exact Change.recorded_of_reflTransGen (makes_readLine.change _) ih
  | run _ fetcher fuel program ih =>
    exact Change.recorded_of_reflTransGen (makes_run fetcher fuel program _) ih

/-- In a reachable machine each symbol of each frame has one record, and there is no other. -/
theorem Reachable.recorded {m : Machine} (h : Reachable m) : m.store.Recorded := by
  cases h with
  | rests h => exact h.recorded
  | begins h _ henter hbegins =>
    have hentered := (makes_enterMain _).of_done henter
    exact Change.recorded_of_reflTransGen (hentered.trans hbegins.changes) h.recorded

theorem Store.Recorded.tidy {s : Store} (h : s.Recorded) : s.Tidy := by
  apply List.filter_eq_self.2
  intro r hr
  have hlt := frame_lt_of_mem_symbolRecords (h.mem_iff.1 hr)
  exact decide_eq_true hlt

/-- From every reachable machine, a call of a function of the program that ends well gives back all
that it found, and one with a result then declares its target in the frame of the caller. A whole
run that ends well gives back the frames with their records, the depth and the callers. -/
theorem calls_and_runs_balanced {m : Machine} (hm : Reachable m) (fetcher : Fetcher)
    (program : Program) (fuel : Nat) :
    (∀ (s : Statement) (c : Call) (flow : Flow) (m' : Machine), s.instruction = .call c →
      m.isBuiltin c.name = false → execute fetcher program fuel s m = .done flow m' →
        Balanced m m') ∧
    (∀ (s : Statement) (target : String) (c : Call) (flow : Flow) (m' : Machine),
      s.instruction = .callInto target c → m.isBuiltin c.name = false →
      execute fetcher program fuel s m = .done flow m' →
        ∃ before value store, Balanced m before ∧
          before.store.declare target value m.depth false none = .ok store ∧
          m' = { before with store }) ∧
    ∀ m', program.run fetcher fuel m = .done () m' →
      m'.store.frames = m.store.frames ∧ m'.store.records = m.store.records ∧
        m'.depth = m.depth ∧ m'.callers = m.callers := by
  have htidy : m.store.Tidy := hm.recorded.tidy
  refine ⟨?_, ?_, ?_⟩
  · intro s c flow m' hs hname h
    exact balanced_of_execute_call htidy hs hname h
  · intro s target c flow m' hs hname h
    exact balanced_of_execute_callInto htidy hs hname h
  · intro m' h
    exact balanced_of_run htidy h

def Outcome.isDone {α : Type} : Outcome α → Bool
  | .done _ _ => true
  | _ => false

theorem Outcome.exists_of_isDone {α : Type} {o : Outcome α} (h : o.isDone = true) :
    ∃ a m, o = .done a m := by
  cases o with
  | done a m => exact ⟨a, m, rfl⟩
  | failed fault m => cases h
  | unfinished m => cases h

def strandingProgram : Program :=
  let line (number : Nat) : Location := ⟨number, "strand.neb"⟩
  ⟨[⟨.define ⟨"Main", [], none⟩, line 1,
      [.leaf (.use .scope) (line 2), .leaf (.assign "n" (.number "2") false) (line 3),
        ⟨.branch ⟨false, .declared "n"⟩, line 4,
          [.leaf (.call ⟨"strand", [.name "n"]⟩) (line 5)], []⟩], []⟩,
    ⟨.define ⟨"strand", ["k"], none⟩, line 8,
      [.leaf (.assign "lost" (.name "absent") false) (line 9)], []⟩,
    ⟨.define ⟨"climb", ["k"], some .num⟩, line 11,
      [⟨.loop ⟨false, .declared "k"⟩, line 12,
        [.leaf (.increment "k") (line 13),
          ⟨.branch ⟨false, .compares (.name "k") .equal (.number "4")⟩, line 14,
            [.leaf (.assign "top" (.name "k") false) (line 15),
              .leaf (.leave (some (.name "top"))) (line 16)], []⟩], []⟩], []⟩]⟩

def strandedMachine : Machine :=
  let signed : Store := ((({} : Store).perform (.registerSignature "strand" ["k"])).2.perform
    (.registerSignature "climb" ["k"])).2
  (strandingProgram.run (fun _ _ => {}) 20 { store := signed }).machine

/-- A call with a result out of nested blocks, made where a run was stranded. -/
theorem stranded_call_balanced :
    let s : Statement := .leaf (.callInto "r" ⟨"climb", [.number "1"]⟩) ⟨1, "strand.neb"⟩
    strandedMachine.store.frames.length = 2 ∧ strandedMachine.callers = ["Main"] ∧
      strandedMachine.depth = 1 ∧
      ∃ flow m' before value store,
        execute (fun _ _ => {}) strandingProgram 30 s strandedMachine = .done flow m' ∧
        Balanced strandedMachine before ∧
        before.store.declare "r" value strandedMachine.depth false none = .ok store ∧
        m' = { before with store } := by
  intro s
  refine ⟨by decide +kernel, by decide +kernel, by decide +kernel, ?_⟩
  have hreachable : Reachable strandedMachine :=
    .rests ((((Rests.fresh []).operate (.registerSignature "strand" ["k"])).operate
      (.registerSignature "climb" ["k"])).run (fun _ _ => {}) 20 strandingProgram)
  have hname : strandedMachine.isBuiltin "climb" = false := by decide +kernel
  have hdone : (execute (fun _ _ => {}) strandingProgram 30 s strandedMachine).isDone = true := by
    decide +kernel
  obtain ⟨flow, m', h⟩ := Outcome.exists_of_isDone hdone
  obtain ⟨-, hinto, -⟩ := calls_and_runs_balanced hreachable (fun _ _ => {}) strandingProgram 30
  obtain ⟨before, value, store, hafter⟩ := hinto s "r" _ flow m' rfl hname h
  exact ⟨flow, m', before, value, store, h, hafter⟩

end ApiScript
