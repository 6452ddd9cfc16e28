import ApiScript.Proofs.DefensiveFaults
import ApiScript.Proofs.NumericText

/-!
# Values of numeric kind

Values of numeric kind come from what a script writes and reads, from builtins, and from counting up
and down. All of these write numbers, so wherever a run gets to, each value of numeric kind writes
one. Comparing such values and counting them never fails for want of a number; only the conversion
of a text does.
-/
namespace ApiScript

open Run Statement

namespace Value

def IsNumber (v : Value) : Prop := v.kind = .num → WritesNumber v.text

theorem numberOf_of_writesNumber {text : String} (h : WritesNumber text) :
    ∃ x, numberOf text = .ok x ∧ x ≠ .nan := by
  obtain ⟨x, hx, hne⟩ := h
  exact ⟨x, by rw [numberOf, hx], hne⟩

theorem closed_isNumber : Closed IsNumber where
  string _ := nofun
  numeral _ h _ := writesNumber_of_isNumeric h
  count n _ := writesNumber_of_isNumeric (positional_repr n).isNumeric
  offset := by
    intro v n delta hv hkind hnumber _ _
    obtain ⟨x, hx, hne⟩ := numberOf_of_writesNumber (hv hkind)
    rw [hx] at hnumber
    cases hnumber
    exact Number.writesNumber_toText (Number.offset_ne_nan hne delta)

theorem exists_compare? {x y : Number} (hx : x ≠ .nan) (hy : y ≠ .nan) :
    ∃ o, x.compare? y = some o := by
  cases x with
  | nan => exact absurd rfl hx
  | infinite a =>
    cases y with
    | nan => exact absurd rfl hy
    | infinite b => exact ⟨_, rfl⟩
    | finite b => exact ⟨_, rfl⟩
  | finite a =>
    cases y with
    | nan => exact absurd rfl hy
    | infinite b => exact ⟨_, rfl⟩
    | finite b => exact ⟨_, rfl⟩

theorem exists_orderNumbers {lhs rhs : String} (hl : WritesNumber lhs) (hr : WritesNumber rhs) :
    ∃ o, orderNumbers lhs rhs = .ok o := by
  obtain ⟨x, hx, hxne⟩ := numberOf_of_writesNumber hl
  obtain ⟨y, hy, hyne⟩ := numberOf_of_writesNumber hr
  obtain ⟨o, ho⟩ := exists_compare? hxne hyne
  refine ⟨o, ?_⟩
  simp only [orderNumbers, hx, hy, bind, Except.bind, ho]

/-- Values that are numbers, where their kind is numeric, compare if they are of one kind. -/
theorem exists_order {l r : Value} (hl : l.IsNumber) (hr : r.IsNumber) (hkind : l.kind = r.kind) :
    ∃ o, order l.kind l.text r.text = .ok o := by
  cases hnum : l.kind with
  | str => exact ⟨_, rfl⟩
  | num => exact exists_orderNumbers (hl hnum) (hr (hkind ▸ hnum))

theorem compare_eq_error {l r : Value} {op : Comparison} {cause : Cause} (hl : l.IsNumber)
    (hr : r.IsNumber) (h : l.compare op r = .error cause) : cause = .kindMismatch := by
  unfold compare at h
  split at h
  · cases h
    rfl
  next hkind =>
  obtain ⟨o, ho⟩ := exists_order hl hr (not_not.1 hkind)
  cases op with
  | equal => cases h
  | notEqual => cases h
  | _ =>
    rw [ho] at h
    cases h

end Value

theorem Misstep.origin_ne_number {fault : Fault} (h : Misstep Value.IsNumber fault) :
    fault.cause.origin ≠ .number := by
  cases h with
  | ordinary hcause => simp [hcause]
  | comparison hl hr hcompare =>
    rw [Value.compare_eq_error hl hr hcompare]
    exact nofun
  | number hv hkind hnumber =>
    obtain ⟨x, hx, -⟩ := Value.numberOf_of_writesNumber (hv hkind)
    rw [hx] at hnumber
    cases hnumber

/-- Only a conversion misses a number. -/
theorem Mistake.calls_atoi {program : Program} {s : Statement} {m : Machine} {fault : Fault}
    (h : Mistake Value.IsNumber program s m fault) (horigin : fault.cause.origin = .number) :
    ∃ c, s.Calls c ∧ c.name = "atoi" := by
  cases h with
  | misstep h => exact absurd horigin h.origin_ne_number
  | boundary => cases horigin
  | conversion hcalls hname => exact ⟨_, hcalls, hname⟩
  | refused _ _ _ hrefused => simp [Program.origin_of_refusal? hrefused] at horigin

structure Valued (good : Value → Prop) (m : Machine) : Prop where
  values : ∀ frame ∈ m.store.frames, ∀ name symbol, frame.get? name = some symbol →
    good symbol.value
  returned : ∀ value ∈ m.returned, good value
  builtins : m.builtins = Builtin.standard

section Valued

variable {good : Value → Prop} {m : Machine}

theorem Sound.valued (h : Sound good m) : Valued good m :=
  ⟨h.store.values, h.returned, h.builtins⟩

theorem Valued.pushFrame (h : Valued good m) : m.store.pushFrame.Sound good := by
  refine ⟨List.cons_ne_nil _ _, ?_⟩
  intro frame hframe name symbol hget
  rcases List.mem_cons.1 hframe with rfl | hframe
  · cases hget
  · exact h.values frame hframe name symbol hget

def LeavesValued {α : Type} (good : Value → Prop) (x : Run α) : Prop :=
  ∀ m, Sound good m → Valued good (x m).machine

theorem LeavesValued.bind {α β : Type} {x : Run α} {f : α → Run β} (hx : StaysSound good x)
    (hf : ∀ a, LeavesValued good (f a)) : LeavesValued good (x >>= f) := by
  intro m hm
  have hend := hx m hm
  rw [bind_apply]
  cases h : x m with
  | done a m' =>
    rw [h] at hend
    exact hf a m' hend.1
  | failed fault m' =>
    rw [h] at hend
    exact hend.1.valued
  | unfinished m' =>
    rw [h] at hend
    exact hend.valued

theorem leavesValued_popFrame : LeavesValued good (onStore Store.popFrame) := by
  intro m hm
  unfold onStore Store.popFrame
  cases hframes : m.store.frames with
  | nil => exact hm.valued
  | cons frame outer =>
    refine ⟨?_, hm.returned, hm.builtins⟩
    intro other hother
    exact hm.store.values other (by rw [hframes]; exact List.mem_cons_of_mem _ hother)

theorem staysSound_warnUnfetched (ids : List String) : StaysSound good (warnUnfetched ids) := by
  induction ids with
  | nil => exact .pure trivial
  | cons id rest ih => exact (yields_warn _).bind fun _ _ => ih

theorem staysSound_emitAll (lines : List String) : StaysSound good (emitAll lines) := by
  induction lines with
  | nil => exact .pure trivial
  | cons line rest ih =>
    exact Yields.bind (yields_note (fun _ => rfl) (fun _ => rfl) fun _ => rfl) fun _ _ => ih

theorem leavesValued_leaveMain (location : Location) : LeavesValued good (leaveMain location) := by
  have hpurge : StaysSound good (modify fun m => purgeScope { m with location }) :=
    .modify fun _ hm => sound_purgeScope ⟨hm.store, hm.returned, hm.builtins⟩
  have hforget : StaysSound good (modify fun m => { m with unfetched := [] }) :=
    yields_note (fun _ => rfl) (fun _ => rfl) fun _ => rfl
  have hdump : StaysSound good dumpStore := by
    refine Yields.machine.bind fun m _ => ?_
    split
    · exact staysSound_emitAll _
    · exact .pure trivial
  have hlook : StaysSound good machine := fun _ hm => ⟨hm, trivial⟩
  refine .bind hpurge fun _ => .bind hlook fun m => .bind hforget fun _ => ?_
  exact .bind (staysSound_warnUnfetched _) fun _ => .bind hdump fun _ => leavesValued_popFrame

theorem valued_run (hgood : Value.Closed good) {program : Program} (hprogram : program.IsWritten)
    (fetcher : Fetcher) (fuel : Nat) (hm : Valued good m) :
    Valued good (program.run fetcher fuel m).machine := by
  unfold Program.run
  cases hmain : program.function? entryFunction with
  | none => exact hm
  | some main =>
    have hbody : StaysSound good (block (execute fetcher program fuel) main.body) :=
      staysSound_block fun s hs =>
        staysSound_execute hgood fetcher hprogram fuel (hprogram.function hmain hs)
    have hentered := LeavesValued.bind hbody fun _ => leavesValued_leaveMain main.location
    exact hentered _ ⟨hm.pushFrame, hm.returned, hm.builtins⟩

end Valued

/-- The machines that have assembled files and run programs that were read, and nothing else. -/
inductive Scripted : Machine → Prop
  | fresh (input : List InputLine) : Scripted { input }
  | assemble {m : Machine} (h : Scripted m) (sources : List (String × String)) :
    Scripted (m.assemble sources).2
  | run {m : Machine} {program : Program} (h : Scripted m) (hprogram : program.IsRead)
    (fetcher : Fetcher) (fuel : Nat) : Scripted (program.run fetcher fuel m).machine

theorem Scripted.valued {m : Machine} (h : Scripted m) : Valued Value.IsNumber m := by
  induction h with
  | fresh input => exact ⟨nofun, by simp, rfl⟩
  | assemble _ sources ih =>
    unfold Machine.assemble
    split
    · exact ⟨ih.values, ih.returned, ih.builtins⟩
    · exact ⟨ih.values, ih.returned, ih.builtins⟩
  | run _ hprogram fetcher fuel ih =>
    exact valued_run Value.closed_isNumber hprogram.isWritten fetcher fuel ih

section Begun

variable {m n : Machine} {program : Program} {fetcher : Fetcher} {t : Statement}

theorem Scripted.sound (hm : Scripted m) (hprogram : program.IsRead)
    (hbegins : RunBegins fetcher program m t n) : t.IsWritten ∧ Sound Value.IsNumber n :=
  sound_of_runBegins Value.closed_isNumber hprogram.isWritten hm.valued.pushFrame
    hm.valued.returned hm.valued.builtins hbegins

/-- A statement that slips for want of a number calls for a conversion. -/
theorem Scripted.calls_atoi (hm : Scripted m) (hprogram : program.IsRead)
    (hbegins : RunBegins fetcher program m t n) {fault : Fault} {m' : Machine}
    (hraised : Raised fetcher program t n fault m') (horigin : fault.cause.origin = .number) :
    ∃ c, t.Calls c ∧ c.name = "atoi" := by
  obtain ⟨hwritten, hsound⟩ := hm.sound hprogram hbegins
  obtain ⟨fuel, raised, -, hslip, rfl⟩ := hraised
  have hmistake := hslip.mistake Value.closed_isNumber hprogram.isWritten hwritten (hsound.begun t)
  exact hmistake.calls_atoi horigin

end Begun

/-- Wherever the run of a program that was read gets to, all values of numeric kind write numbers.
So no comparison in a branch or a loop and no counting misses a number, and a run that does so fails
in a conversion. -/
theorem numeric_values_stay_numbers {m : Machine} (hm : Scripted m) {program : Program}
    (hprogram : program.IsRead) (fetcher : Fetcher) :
    (∀ t n, RunBegins fetcher program m t n → Valued Value.IsNumber n ∧
      ∀ fuel, Valued Value.IsNumber (execute fetcher program fuel t n).machine) ∧
    (∀ fuel, Valued Value.IsNumber (program.run fetcher fuel m).machine) ∧
    (∀ t n condition m₁ fault m', RunBegins fetcher program m t n →
      t.instruction = .branch condition ∨ t.instruction = .loop condition →
      Rounds fetcher program condition t.body { begun t n with depth := n.depth + 1 } m₁ →
      test condition m₁ = .failed fault m' → fault.cause.origin ≠ .number) ∧
    (∀ t n target fuel fault m', RunBegins fetcher program m t n →
      t.instruction = .increment target ∨ t.instruction = .decrement target →
      execute fetcher program fuel t n = .failed fault m' → fault.cause.origin ≠ .number) ∧
    ∀ fuel fault m', program.run fetcher fuel m = .failed fault m' →
      fault.cause.origin = .number →
      ∃ t n c, RunBegins fetcher program m t n ∧ Raised fetcher program t n fault m' ∧
        t.Calls c ∧ c.name = "atoi" := by
  have hwritten := hprogram.isWritten
  refine ⟨?_, ?_, ?_, ?_, ?_⟩
  · intro t n hbegins
    obtain ⟨ht, hsound⟩ := hm.sound hprogram hbegins
    refine ⟨hsound.valued, fun fuel => ?_⟩
    have hstays := staysSound_execute Value.closed_isNumber fetcher hwritten fuel ht
    exact (hstays.invariant hsound).valued
  · intro fuel
    exact valued_run Value.closed_isNumber hwritten fetcher fuel hm.valued
  · intro t n condition m₁ fault m' hbegins hi hrounds htest
    obtain ⟨ht, hsound⟩ := hm.sound hprogram hbegins
    have hentered : Sound Value.IsNumber { begun t n with depth := n.depth + 1 } :=
      ⟨hsound.store, hsound.returned, hsound.builtins⟩
    have hround := hrounds.sound Value.closed_isNumber hwritten ht hi hentered
    have htested := yields_test Value.closed_isNumber (ht.condition hi)
    exact (htested.of_failed hround htest).2.origin_ne_number
  · intro t n target fuel fault m' hbegins hi hfailed
    obtain ⟨u, n', hinside, hraised⟩ := blames_execute fetcher program fuel t n fault m' hfailed
    -- counting executes no other statement
    cases hinside with
    | self =>
      intro horigin
      obtain ⟨c, hcalls, -⟩ := hm.calls_atoi hprogram hbegins hraised horigin
      rcases hcalls with hc | ⟨_, hc⟩ <;> simp [hc] at hi
    | branch hbranch => simp [hbranch] at hi
    | loop hloop => simp [hloop] at hi
    | call hcalls => rcases hcalls with hc | ⟨_, hc⟩ <;> simp [hc] at hi
  · intro fuel fault m' hrun horigin
    cases hmain : program.function? entryFunction with
    | none =>
      simp only [Program.run, hmain] at hrun
      cases hrun
      cases horigin
    | some main =>
      obtain ⟨t, n, hbegins, hraised⟩ := exists_raised_of_run hrun (by rw [hmain]; rfl)
      obtain ⟨c, hcalls, hname⟩ := hm.calls_atoi hprogram hbegins hraised horigin
      exact ⟨t, n, c, hbegins, hraised, hcalls, hname⟩

def countingProgram : Program :=
  let line (number : Nat) : Location := ⟨number, "count.neb"⟩
  ⟨[⟨.define ⟨"Main", [], none⟩, line 1,
      [.leaf (.assign "n" (.number "9.5") false) (line 2), .leaf (.increment "n") (line 3),
        .leaf (.callInto "k" ⟨"atoi", [.literal "ten"]⟩) (line 4)], []⟩]⟩

theorem counting_fails_in_conversion :
    let sources := [("count.neb", "def Main():\nvar n = 9.5\nn++\nvar k = atoi('ten')\nend")]
    let m := (({} : Machine).assemble sources).2
    Scripted m ∧ countingProgram.IsRead ∧
      ∃ fault m', countingProgram.run (fun _ _ => {}) 20 m = .failed fault m' ∧
        fault.cause = .invalidNumber "ten" ∧ Valued Value.IsNumber m' ∧
        ∃ t n c, RunBegins (fun _ _ => {}) countingProgram m t n ∧
          Raised (fun _ _ => {}) countingProgram t n fault m' ∧ t.Calls c ∧ c.name = "atoi" := by
  intro sources m
  have hassemble : ({} : Machine).assemble sources = (.ok countingProgram, m) := rfl
  have hm : Scripted m := .assemble (.fresh []) sources
  have hprogram : countingProgram.IsRead := (assembled_of_assemble hassemble).read
  have hcause :
      (countingProgram.run (fun _ _ => {}) 20 m).cause? = some (.invalidNumber "ten") := by
    decide +kernel
  obtain ⟨fault, m', hrun, hfault⟩ := Outcome.exists_of_cause? hcause
  obtain ⟨-, hends, -, -, hconversion⟩ := numeric_values_stay_numbers hm hprogram fun _ _ => {}
  have hvalued := hends 20
  rw [hrun] at hvalued
  have horigin : fault.cause.origin = .number := by rw [hfault]; rfl
  exact ⟨hm, hprogram, fault, m', hrun, hfault, hvalued, hconversion 20 fault m' hrun horigin⟩

end ApiScript
