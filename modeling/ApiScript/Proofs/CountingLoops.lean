import ApiScript.Proofs.Ledger
import ApiScript.Proofs.WarningsMode
import ApiScript.Proofs.WholeNumbers

/-!
# Counting loops

A loop that prints its counter and steps it while it is below a whole number goes through the whole
numbers from nought. Before each round the machine is known exactly: the store is the one that the
counting began with, in which the counter was declared once, with the number of rounds done. The end
of the loop drops the counter only if blocks are purged and the counter was first declared in a
deeper block than the loop.
-/
namespace ApiScript

open Run

theorem Table.insert_insert {α : Type} (t : Table α) (name : String) (value later : α) :
    (t.insert name value).insert name later = t.insert name later := by
  apply Table.ext_get?
  intro other
  by_cases hother : other = name <;> simp [hother]

/-- The earlier of two declarations of a name gives the later one its depth and nothing else. -/
theorem Store.declare_declare {s t : Store} {name : String} {value : Value} {depth : Nat}
    {status : Option Nat} (h : s.declare name value depth false status = .ok t) (later : Value)
    (laterDepth : Nat) (constant : Bool) (laterStatus : Option Nat) :
    t.declare name later laterDepth constant laterStatus =
      s.declare name later depth constant laterStatus := by
  obtain ⟨frames, requests, signatures, records⟩ := s
  cases frames with
  | nil => cases h
  | cons frame outer =>
    cases hget : frame.get? name with
    | none =>
      simp only [declare, hget] at h
      cases h
      simp [declare, hget, Table.insert_insert]
    | some old =>
      simp only [declare, hget] at h
      split at h
      · cases h
      · next hvariable =>
        cases h
        simp [declare, hget, hvariable, Table.insert_insert]

/-- Whether a name can be declared does not depend on what it is declared as. -/
theorem Store.exists_declare_of_ok {s t : Store} {name : String} {value : Value} {depth : Nat}
    {constant : Bool} {status : Option Nat}
    (h : s.declare name value depth constant status = .ok t) (value' : Value) (depth' : Nat)
    (constant' : Bool) (status' : Option Nat) :
    ∃ t', s.declare name value' depth' constant' status' = .ok t' := by
  refine exists_declare (frames_ne_nil_of_declare h) ?_ value' depth' constant' status'
  intro symbol hsymbol
  by_contra hconstant
  rw [declare_of_constant hsymbol (Bool.not_eq_false _ ▸ hconstant)] at h
  cases h

def belowCondition (name : String) (n : Nat) : Condition :=
  ⟨false, .compares (.name name) .less (.number (Nat.repr n))⟩

def countingBody (name : String) (line : Nat → Location) : List Statement :=
  [.leaf (.print (.name name)) (line 2), .leaf (.increment name) (line 3)]

/-- The statements `var name = 0` and `for name < n`, whose body is `print name` and `name++`. -/
def countingLoop (name : String) (n : Nat) (line : Nat → Location) : List Statement :=
  [.leaf (.assign name (.number "0") false) (line 0),
    ⟨.loop (belowCondition name n), line 1, countingBody name line, []⟩]

def counted (line : Nat → Location) (rounds : Nat) (m : Machine) (store : Store) : Machine :=
  { m with
    store
    location := if rounds = 0 then line 1 else line 3
    executed := m.executed + 2 + 2 * rounds
    journal := m.journal ++ ((List.range rounds).map fun k => Event.printed (Nat.repr k)).toArray }

/-- One more round prints its number, executes two statements and writes the counter. -/
theorem counted_succ (line : Nat → Location) (k : Nat) (m : Machine) (store later : Store) :
    counted line (k + 1) m later =
      { (counted line k m store).record (.printed (Nat.repr k)) with
        store := later
        location := line 3
        executed := (counted line k m store).executed + 2 } := by
  simp [counted, Machine.record, List.range_succ]
  omega

section Rounds

variable {name : String} {line : Nat → Location} {fetcher : Fetcher} {program : Program}
  {fuel k n : Nat} {m c : Machine}

theorem execute_of_andNext {s : Statement} {x : Run Unit} {m' : Machine}
    (hs : perform fetcher program (execute fetcher program fuel) fuel s = andNext x)
    (hx : x (begun s m) = .done () m') :
    execute fetcher program (fuel + 1) s m = .done .next m' := by
  rw [execute_succ, hs, locating, andNext, bind_of_done hx]
  rfl

theorem block_cons_of_next {exec : Statement → Run Flow} {s : Statement} {rest : List Statement}
    {m₁ : Machine} (h : exec s m = .done .next m₁) :
    block exec (s :: rest) m = block exec rest m₁ := bind_of_done h

theorem onStore_of_ok {f : Store → Except Cause Store} {store : Store} (h : f m.store = .ok store) :
    onStore f m = .done () { m with store } := by
  rw [onStore, h]

theorem execute_assign_number {s : Statement} {text : String} {store : Store}
    (hs : s.instruction = .assign name (.number text) false)
    (hstore : m.store.declare name (.number text) m.depth false none = .ok store) :
    execute fetcher program (fuel + 1) s m = .done .next { begun s m with store } := by
  have hdeclare : declare name (.number text) false none (begun s m) =
      .done () { begun s m with store } :=
    (bind_of_done rfl).trans (onStore_of_ok hstore)
  have hassign : perform fetcher program (execute fetcher program fuel) fuel s =
      andNext (resolve (.number text) >>= fun v => declare name v false none) := by
    rw [perform, hs]
  exact execute_of_andNext hassign ((bind_of_done rfl).trans hdeclare)

theorem execute_print_name {s : Statement} {symbol : Symbol}
    (hs : s.instruction = .print (.name name)) (hlookup : m.store.lookup name = .ok symbol) :
    execute fetcher program (fuel + 1) s m =
      .done .next ((begun s m).record (.printed symbol.value.text)) := by
  have hresolve : resolve (.name name) (begun s m) = .done symbol.value (begun s m) :=
    bind_of_done (lookup_of_ok hlookup)
  have hprint : perform fetcher program (execute fetcher program fuel) fuel s =
      andNext (resolve (.name name) >>= fun v => emit v.text) := by
    rw [perform, hs]
  exact execute_of_andNext hprint (bind_of_done hresolve)

/-- The step of a variable that holds a number writes the next number. -/
theorem execute_increment {s : Statement} {symbol : Symbol} {x : Number} {store : Store}
    (hs : s.instruction = .increment name) (hlookup : m.store.lookup name = .ok symbol)
    (hkind : symbol.value.kind = .num) (hvariable : symbol.constant = false)
    (hx : Value.numberOf symbol.value.text = .ok x)
    (hstore : m.store.declare name (.number (x.offset 1).toText) symbol.depth false none =
      .ok store) :
    execute fetcher program (fuel + 1) s m = .done .next { begun s m with store } := by
  have hfound : lookup name (begun s m) = .done symbol (begun s m) := lookup_of_ok hlookup
  have hnumber : lift (Value.numberOf symbol.value.text) (begun s m) = .done x (begun s m) := by
    rw [hx]
    rfl
  have hstep : step name 1 (begun s m) = .done () { begun s m with store } := by
    refine (bind_of_done hfound).trans ?_
    rw [hkind, hvariable]
    dsimp only
    rw [if_neg Bool.false_ne_true]
    exact (bind_of_done hnumber).trans (onStore_of_ok hstore)
  have hincrement : perform fetcher program (execute fetcher program fuel) fuel s =
      andNext (step name 1) := by
    rw [perform, hs]
  exact execute_of_andNext hincrement hstep

def Counting (name : String) (line : Nat → Location) (m : Machine) (rounds : Nat) (c : Machine) :
    Prop :=
  ∃ store, m.store.declare name (.number (Nat.repr rounds)) m.depth false none = .ok store ∧
    c = counted line rounds { m with depth := m.depth + 1 } store

namespace Counting

theorem exists_lookup (hrequest : m.store.isRequest name = false)
    (h : Counting name line m k c) :
    ∃ depth, c.store.lookup name = .ok ⟨.number (Nat.repr k), depth, false, none⟩ := by
  obtain ⟨store, hstore, rfl⟩ := h
  have hstill : store.isRequest name = false := by
    rw [Store.isRequest, Store.requests_declare hstore]
    exact hrequest
  have hsymbol := Store.symbol?_declare hstore name
  rw [if_pos rfl] at hsymbol
  exact ⟨_, Store.lookup_eq_ok_iff.2 ⟨hstill, hsymbol⟩⟩

theorem test_eq (hrequest : m.store.isRequest name = false) (h : Counting name line m k c)
    (hk : k ≤ Number.wholeLimit) (hn : n ≤ Number.wholeLimit) :
    test (belowCondition name n) c = .done (decide (k < n)) c := by
  obtain ⟨depth, hlookup⟩ := h.exists_lookup hrequest
  have hresolve : resolve (.name name) c = .done (.number (Nat.repr k)) c :=
    bind_of_done (lookup_of_ok hlookup)
  have hcompare : lift ((Value.number (Nat.repr k)).compare .less (.number (Nat.repr n))) c =
      .done (decide (k < n)) c := by
    rw [Value.compare_less_repr hk hn]
    rfl
  refine (bind_of_done rfl).trans ((bind_of_done hresolve).trans ?_)
  refine (bind_of_done rfl).trans ((bind_of_done rfl).trans ((bind_of_done hcompare).trans ?_))
  simp [belowCondition]

/-- One round prints the number of rounds done and counts itself. -/
theorem round (hrequest : m.store.isRequest name = false) (h : Counting name line m k c)
    (hk : k < Number.wholeLimit) (fetcher : Fetcher) (program : Program) (fuel : Nat) :
    ∃ c', block (execute fetcher program (fuel + 1)) (countingBody name line) c = .done .next c' ∧
      Counting name line m (k + 1) c' := by
  obtain ⟨depth, hlookup⟩ := h.exists_lookup hrequest
  obtain ⟨store, hstore, rfl⟩ := h
  have hnext : ((Number.ofWhole k).offset 1).toText = Nat.repr (k + 1) := by
    rw [Number.offset_ofWhole hk, Number.toText_ofWhole hk]
  obtain ⟨later, hlater⟩ :=
    Store.exists_declare_of_ok hstore (.number (Nat.repr (k + 1))) m.depth false none
  have hwrite : store.declare name (.number ((Number.ofWhole k).offset 1).toText) depth false none =
      .ok later := by
    rw [hnext, Store.declare_declare hstore]
    exact hlater
  refine ⟨_, ?_, later, hlater, rfl⟩
  rw [counted_succ line k _ store later]
  refine (block_cons_of_next (execute_print_name rfl hlookup)).trans ?_
  exact block_cons_of_next
    (execute_increment rfl hlookup rfl rfl (Value.numberOf_repr k) hwrite)

/-- Once as many rounds are done as the bound says, the loop ends. -/
theorem rounds {bound : Nat} (hrequest : m.store.isRequest name = false)
    (h : Counting name line m k c) (hk : k ≤ n) (hn : n ≤ Number.wholeLimit)
    (hbound : n - k < bound) (fetcher : Fetcher) (program : Program) (fuel : Nat) :
    ∃ c', repeatWhile (test (belowCondition name n))
        (block (execute fetcher program (fuel + 1)) (countingBody name line)) bound c =
          .done .next c' ∧ Counting name line m n c' := by
  -- a round takes one of the rounds that are left and one of those that the fuel allows
  induction bound generalizing k c with
  | zero => omega
  | succ bound ih =>
    have htest := h.test_eq hrequest (hk.trans hn) hn
    rcases hk.eq_or_lt with rfl | hlt
    · refine ⟨c, (bind_of_done htest).trans ?_, h⟩
      simp
    · obtain ⟨c₁, hround, h₁⟩ := h.round hrequest (hlt.trans_le hn) fetcher program fuel
      obtain ⟨c', hrest, h'⟩ := ih h₁ hlt (by omega)
      refine ⟨c', (bind_of_done htest).trans ?_, h'⟩
      rw [if_pos (decide_eq_true hlt)]
      exact (bind_of_done hround).trans hrest

end Counting

theorem execute_loop_of_done {s : Statement} {condition : Condition} {flow : Flow} {m' : Machine}
    (hs : s.instruction = .loop condition)
    (h : repeatWhile (test condition) (block (execute fetcher program fuel) s.body) fuel
      { begun s m with depth := m.depth + 1 } = .done flow c)
    (hm' : m' = purgeScope { c with depth := c.depth - 1 }) :
    execute fetcher program (fuel + 1) s m = .done flow m' := by
  have hperform : perform fetcher program (execute fetcher program fuel) fuel s =
      loop (execute fetcher program fuel) fuel condition s.body := by
    rw [perform, hs]
  have hloop : loop (execute fetcher program fuel) fuel condition s.body (begun s m) =
      .done flow (purgeScope { c with depth := c.depth - 1 }) :=
    (bind_of_done rfl).trans (bind_of_done h)
  rw [execute_succ, hperform, locating, hloop, hm']

/-- A counting loop ends, and its end is known exactly. -/
theorem block_countingLoop (hframes : m.store.frames ≠ [])
    (hrequest : m.store.isRequest name = false)
    (hvariable : ∀ symbol, m.store.symbol? name = some symbol → symbol.constant = false)
    (hn : n ≤ Number.wholeLimit) (hfuel : n + 2 ≤ fuel) :
    ∃ store, m.store.declare name (.number (Nat.repr n)) m.depth false none = .ok store ∧
      block (execute fetcher program fuel) (countingLoop name n line) m =
        .done .next (purgeScope (counted line n m store)) := by
  obtain ⟨fuel, rfl⟩ : ∃ f, fuel = f + 2 := ⟨fuel - 2, by omega⟩
  obtain ⟨store₀, hstore₀⟩ :=
    Store.exists_declare hframes hvariable (.number "0") m.depth false none
  have hentered : Counting name line m 0
      { m with
        store := store₀
        depth := m.depth + 1
        location := line 1
        executed := m.executed + 2 } := ⟨store₀, hstore₀, by simp [counted]⟩
  have hbound : n - 0 < fuel + 1 := by omega
  obtain ⟨c, hrounds, store, hstore, rfl⟩ :=
    hentered.rounds hrequest n.zero_le hn hbound fetcher program fuel
  refine ⟨store, hstore, (block_cons_of_next (execute_assign_number rfl hstore₀)).trans ?_⟩
  exact block_cons_of_next (execute_loop_of_done rfl hrounds rfl)

end Rounds

/-- A purge drops a symbol if it lies deeper than the block that is left. -/
theorem Store.Covered.symbol?_purgeScope {m : Machine} (h : m.store.Covered) {name : String}
    {symbol : Symbol} (hsymbol : m.store.symbol? name = some symbol) :
    (purgeScope m).store.symbol? name =
      if m.modes.purge = true ∧ m.depth < symbol.depth then none else some symbol := by
  unfold purgeScope
  by_cases hpurge : m.modes.purge = true
  · rw [if_pos hpurge, h.symbol?_cleanup, hsymbol]
    by_cases hdeep : m.depth < symbol.depth
    · simp [Option.filter, hpurge, hdeep]
    · simp [Option.filter, hdeep, Nat.not_lt.1 hdeep]
  · rw [if_neg hpurge, hsymbol, if_neg fun hdrop => hpurge hdrop.1]

theorem output_counted (line : Nat → Location) (n : Nat) (m : Machine) (store : Store) :
    (counted line n m store).output = m.output ++ (List.range n).map Nat.repr := by
  simp [Machine.output, counted, Event.line?, List.filterMap_map, Function.comp_def]

/-- In every reachable state with a frame, in every mode, a name that is no constant and no pending
request can count up to each whole number up to `2 ^ 53`. The loop ends, prints the numbers below
its bound in order, and leaves the depth as it was. The counter then has the text of the bound and
the depth of its first declaration; it is gone only if blocks are purged and it was first declared
in a deeper block than the loop. Nothing else changes but what a purged block drops. -/
theorem counting_loops_count {m : Machine} (hm : Reachable m) (hframes : m.store.frames ≠ [])
    {name : String} (hrequest : m.store.isRequest name = false)
    (hvariable : ∀ symbol, m.store.symbol? name = some symbol → symbol.constant = false)
    {n fuel : Nat} (hn : n ≤ 2 ^ 53) (hfuel : n + 2 ≤ fuel) (fetcher : Fetcher)
    (program : Program) (line : Nat → Location) :
    ∃ store m', m.store.declare name (.number (Nat.repr n)) m.depth false none = .ok store ∧
      block (execute fetcher program fuel) (countingLoop name n line) m = .done .next m' ∧
      m' = purgeScope (counted line n m store) ∧
      m'.output = m.output ++ (List.range n).map Nat.repr ∧ m'.depth = m.depth ∧
      let depth := ((m.store.symbol? name).map Symbol.depth).getD m.depth
      m'.store.symbol? name =
        if m.modes.purge = true ∧ m.depth < depth then none
        else some ⟨.number (Nat.repr n), depth, false, none⟩ := by
  obtain ⟨store, hstore, hblock⟩ :=
    @block_countingLoop name line fetcher program fuel n m hframes hrequest hvariable hn hfuel
  have hsymbol := Store.symbol?_declare hstore name
  rw [if_pos rfl] at hsymbol
  have hcovered : (counted line n m store).store.Covered := (hm.recorded.declare hstore).covered
  refine ⟨store, _, hstore, hblock, rfl, ?_, ?_, ?_⟩
  · rw [← output_counted line n m store, Machine.output, Machine.output, journal_purgeScope]
  · exact (kept_purgeScope _).depth
  · exact hcovered.symbol?_purgeScope hsymbol

def countingMain : Statement :=
  let line (number : Nat) : Location := ⟨number, "count.neb"⟩
  ⟨.define ⟨"Main", [], none⟩, line 1,
    [.leaf (.use .scope) (line 2), .leaf (.use .warns) (line 3),
      .leaf (.assign "i" (.number "7") false) (line 4)] ++
      countingLoop "i" (2 ^ 53) fun k => line (k + 5), []⟩

/-- The script that counts longest. -/
theorem countingMain_counts :
    let fetcher : Fetcher := fun _ _ => {}
    let program : Program := ⟨[countingMain]⟩
    let text := "def Main():\nuse scope\nuse warns\nvar i = 7\nvar i = 0\n" ++
      "for i < 9007199254740992\nprint i\ni++\nend\nend"
    let look (l : Listed) := (l.depth, l.place, l.statement.instruction, l.statement.location)
    let m := (program.opening fetcher 1 countingMain {} 3).machine
    (({} : Machine).assemble [("count.neb", text)]).1.toOption.map (·.listing.map look) =
        some (program.listing.map look) ∧
      m.modes = ⟨false, true, true⟩ ∧ m.store.symbol? "i" = some ⟨.number "7", 0, false, none⟩ ∧
      ∃ m', block (execute fetcher program (2 ^ 53 + 2)) (countingMain.body.drop 3) m =
          .done .next m' ∧
        m'.output = (List.range (2 ^ 53)).map Nat.repr ∧ m'.depth = 0 ∧
        m'.store.symbol? "i" = some ⟨.number "9007199254740992", 0, false, none⟩ := by
  intro fetcher program text look m
  have hbegins : RunBegins fetcher program {}
      (.leaf (.assign "i" (.number "0") false) ⟨5, "count.neb"⟩) m :=
    .of_opening rfl rfl (by decide +kernel)
  have hreachable : Reachable m := by
    obtain ⟨main, m₁, hmain, henter, hbegins⟩ := hbegins
    exact .begins (.fresh []) hmain henter hbegins
  have hm : m.store.frames.length = 1 ∧ m.store.isRequest "i" = false ∧
      m.modes = ⟨false, true, true⟩ ∧ m.depth = 0 ∧ m.output = [] ∧
      m.store.symbol? "i" = some ⟨.number "7", 0, false, none⟩ := by
    decide +kernel
  obtain ⟨hframes, hrequest, hmodes, hdepth, houtput, hsymbol⟩ := hm
  have hvariable : ∀ symbol, m.store.symbol? "i" = some symbol → symbol.constant = false := by
    intro symbol h
    rw [hsymbol] at h
    cases h
    rfl
  obtain ⟨store, m', -, hblock, -, hprinted, hleft, hcounter⟩ :=
    counting_loops_count hreachable (List.ne_nil_of_length_pos (by omega)) hrequest hvariable
      (Nat.le_refl (2 ^ 53)) (Nat.le_refl (2 ^ 53 + 2)) fetcher program
      fun k => ⟨k + 5, "count.neb"⟩
  refine ⟨by decide +kernel, hmodes, hsymbol, m', hblock, ?_, hleft.trans hdepth, ?_⟩
  · rw [hprinted, houtput, List.nil_append]
  · rw [hcounter, hsymbol, hdepth]
    rfl

/-- A variable that was first declared in a block, before blocks were purged, counts like any other
and is dropped by the end of the loop. -/
theorem late_counter_is_dropped :
    let assembled := ({} : Machine).assemble [("late.neb",
      "def Main():\nvar x = 1\nif x\nvar i = 5\nend\nuse scope\nvar i = 0\nfor i < 3\n" ++
        "print i\ni++\nend\nprint i\nend")]
    let program := assembled.1.toOption.getD ⟨[]⟩
    let main := (program.function? entryFunction).getD (.leaf .close ⟨0, ""⟩)
    let before := program.opening (fun _ _ => {}) 9 main assembled.2 3
    let after := program.opening (fun _ _ => {}) 9 main assembled.2 5
    before.machine.store.symbol? "i" = some ⟨.number "5", 1, false, none⟩ ∧
      before.machine.store.isRequest "i" = false ∧ after.value? = some .next ∧
      after.machine.output = ["0", "1", "2"] ∧ after.machine.store.symbol? "i" = none ∧
      (program.run (fun _ _ => {}) 9 assembled.2).cause? = some (.undeclaredSymbol "i") := by
  decide +kernel

end ApiScript
