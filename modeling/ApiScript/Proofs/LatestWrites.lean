import ApiScript.Proofs.FetchLog

/-!
# The latest write of a symbol

Which names the step from a moment binds, and in which frame, can be told from the moment. All else
that a step does to the frames takes symbols away, so every symbol is as the latest step that bound
its name has left it: with the answer of a fetch and its status, or without a status.
-/
namespace ApiScript

open Run

/-- The names that a statement binds if it ends well, each with the number of its frame. A call
binds the parameters of its function in a frame on top of the others. -/
def Machine.written (m : Machine) : Instruction → List (Nat × String)
  | .call c | .callInto _ c =>
    if m.isBuiltin c.name then []
    else ((m.store.signatures.get? c.name).getD []).map fun param => (m.store.frames.length, param)
  | i => i.target?.toList.map fun target => (m.store.frames.length - 1, target)

theorem Machine.written_of_isAtomic (m : Machine) {i : Instruction} (h : i.isAtomic = true) :
    m.written i = i.target?.toList.map fun target => (m.store.frames.length - 1, target) := by
  cases i with
  | call c => cases h
  | callInto target c => cases h
  | _ => rfl

theorem Machine.written_of_calls (m : Machine) {s : Statement} {call : Call} (h : s.Calls call) :
    m.written s.instruction =
      if m.isBuiltin call.name then []
      else ((m.store.signatures.get? call.name).getD []).map fun param =>
        (m.store.frames.length, param) := by
  rcases h with hi | ⟨target, hi⟩
  · rw [hi]
    rfl
  · rw [hi]
    rfl

theorem Store.get?_of_signature {s : Store} {name : String} {params : List String}
    (h : s.signature name = .ok params) : s.signatures.get? name = some params := by
  unfold signature at h
  split at h
  · next hget =>
    cases h
    exact hget
  · cases h

theorem Store.frames_declare {s t : Store} {name : String} {value : Value} {depth : Nat}
    {constant : Bool} {status : Option Nat} {frame : Frame} {outer : List Frame}
    (hframes : s.frames = frame :: outer)
    (h : s.declare name value depth constant status = .ok t) :
    ∃ depth, t.frames = frame.insert name ⟨value, depth, constant, status⟩ :: outer := by
  unfold declare at h
  rw [hframes] at h
  dsimp only at h
  split at h
  · cases h
    exact ⟨depth, rfl⟩
  · next old _ =>
    split at h
    · cases h
    · cases h
      exact ⟨old.depth, rfl⟩

namespace Moment

def written (c : Moment) : List (Nat × String) :=
  match c.flow, c.tasks with
  | .next, .statements (s :: _) :: _ => c.machine.written s.instruction
  | _, .takeReturned target _ _ :: _ => [(c.machine.store.frames.length - 1, target)]
  | _, _ => []

def Binds (fetcher : Fetcher) (program : Program) (level : Nat) (name : String) (c : Moment) :
    Prop :=
  c.Succeeds fetcher program ∧ (level, name) ∈ c.written

/-- A symbol as the step from the moment leaves it: the answer to a fetch, or anything without a
status. -/
def Gives (fetcher : Fetcher) (symbol : Symbol) (c : Moment) : Prop :=
  match c.fetch? fetcher with
  | some f =>
    symbol.status = f.response.status ∧ symbol.value = .string (f.response.body.getD "")
  | none => symbol.status = none

end Moment

def Thins (before after : List Frame) : Prop :=
  ∀ level name symbol, symbolIn? after level name = some symbol →
    symbolIn? before level name = some symbol

namespace Thins

theorem refl (frames : List Frame) : Thins frames frames := fun _ _ _ h => h

theorem trans {first second third : List Frame} (h : Thins first second) (h' : Thins second third) :
    Thins first third :=
  fun level name symbol hsymbol => h level name symbol (h' level name symbol hsymbol)

theorem tail (frames : List Frame) : Thins frames frames.tail := by
  intro level name symbol h
  cases frames with
  | nil => exact h
  | cons frame outer =>
    rw [List.tail_cons] at h
    rwa [symbolIn?_cons (lt_of_symbolIn? h)]

theorem push (frames : List Frame) : Thins frames (∅ :: frames) := by
  intro level name symbol h
  by_cases hlevel : level < frames.length
  · rwa [symbolIn?_cons hlevel] at h
  · have hlt : level < frames.length + 1 := lt_of_symbolIn? h
    obtain rfl : level = frames.length := by omega
    rw [symbolIn?_innermost] at h
    cases h

/-- Only the innermost frame changes, and it loses symbols. -/
theorem of_outside {s t : Store} (houtside : t.outside = s.outside)
    (h : ∀ name symbol, t.symbol? name = some symbol → s.symbol? name = some symbol) :
    Thins s.frames t.frames := by
  intro level name symbol hsymbol
  have hlevel : level < s.frames.length :=
    frames_length_of_outside houtside ▸ lt_of_symbolIn? hsymbol
  rcases symbolIn?_cases houtside hlevel name with hsame | ⟨-, hs, ht⟩
  · rwa [← hsame]
  · rw [ht] at hsymbol
    rw [hs]
    exact h name symbol hsymbol

theorem eraseSymbol (s : Store) (name : String) : Thins s.frames (s.eraseSymbol name).frames := by
  refine of_outside (Store.outside_eraseSymbol s name) fun other symbol h => ?_
  rw [Store.symbol?_eraseSymbol] at h
  split at h
  · cases h
  · exact h

theorem cleanup (s : Store) (depth : Nat) : Thins s.frames (s.cleanup depth).frames := by
  refine of_outside (Store.outside_cleanup s depth) fun name symbol h => ?_
  obtain ⟨p, -, hp⟩ := s.symbol?_cleanup depth name
  rw [hp] at h
  exact (Option.filter_eq_some_iff.1 h).1

end Thins

namespace Run

variable {α β : Type} {target : String} {P : Symbol → Prop}

def Prunes (x : Run α) : Prop := ∀ m, Thins m.store.frames (x m).machine.store.frames

theorem Prunes.of_store {x : Run α} (h : ∀ m, (x m).machine.store = m.store) : Prunes x := by
  intro m
  rw [h]
  exact .refl _

theorem Prunes.notes {x : Run α} (h : Makes Note x) : Prunes x :=
  .of_store fun m => (h.notes_machine m).1

theorem Prunes.bind {x : Run α} {f : α → Run β} (hx : Prunes x) (hf : ∀ a, Prunes (f a)) :
    Prunes (x >>= f) := by
  intro m
  have hm := hx m
  rw [bind_apply]
  cases h : x m with
  | done a m₁ =>
    rw [h] at hm
    exact hm.trans (hf a m₁)
  | failed fault m₁ => rwa [h] at hm
  | unfinished m₁ => rwa [h] at hm

theorem prunes_popFrame : Prunes (onStore Store.popFrame) := by
  intro m
  rw [frames_onStore_popFrame]
  exact .tail _

theorem prunes_leaveMain (location : Location) : Prunes (leaveMain location) := by
  intro m
  obtain ⟨before, hkept, hleave⟩ := exists_leaveMain location m
  rw [hleave, frames_onStore_popFrame, Store.tail_frames_of_outside hkept.store]
  exact .tail _

theorem prunes_leaveBlock : Prunes leaveBlock := by
  intro m
  change Thins m.store.frames (purgeScope { m with depth := m.depth - 1 }).store.frames
  unfold purgeScope
  split
  · exact .cleanup _ _
  · exact .refl _

def Sets (target : String) (P : Symbol → Prop) (x : Run α) : Prop :=
  ∀ m a m', x m = .done a m' → ∀ symbol, m'.store.symbol? target = some symbol → P symbol

theorem Sets.bind {x : Run α} {f : α → Run β} (hf : ∀ a, Sets target P (f a)) :
    Sets target P (x >>= f) := by
  intro m b m' h
  obtain ⟨a, m₁, -, hrest⟩ := bind_eq_done h
  exact hf a m₁ b m' hrest

theorem Sets.raise (cause : Cause) : Sets target P (raise cause : Run α) := by
  intro m a m' h
  cases h

theorem Sets.andNext {x : Run Unit} (hx : Sets target P x) : Sets target P (andNext x) :=
  fun m _ m' h => hx m () m' (andNext_eq_done h)

theorem sets_write {value : Value} {depth : Nat} {constant : Bool} {status : Option Nat}
    (h : ∀ depth, P ⟨value, depth, constant, status⟩) :
    Sets target P (onStore fun store => store.declare target value depth constant status) := by
  intro m _ m' hdone symbol hsymbol
  obtain ⟨store, hstore, rfl⟩ := onStore_eq_done hdone
  rw [Store.symbol?_declare hstore, if_pos rfl] at hsymbol
  cases hsymbol
  exact h _

theorem sets_declare {value : Value} {constant : Bool} {status : Option Nat}
    (h : ∀ depth, P ⟨value, depth, constant, status⟩) :
    Sets target P (declare target value constant status) :=
  .bind fun _ => sets_write h

theorem sets_bindResponse {call : FetchCall} {response : Response}
    (h : ∀ depth, P ⟨.string (response.body.getD ""), depth, false, response.status⟩) :
    Sets target P (bindResponse target call response) := by
  refine .bind fun m => ?_
  split
  · exact .raise _
  · exact .bind fun _ => sets_declare h

theorem sets_step (delta : Int) :
    Sets target (fun symbol => symbol.status = none) (step target delta) := by
  refine .bind fun symbol => ?_
  cases symbol.value.kind with
  | str => exact .raise _
  | num =>
    dsimp only
    split
    · exact .raise _
    · exact .bind fun _ => sets_write fun _ => rfl

theorem sets_charAt (source : String) (position : Nat) :
    Sets target (fun symbol => symbol.status = none) (charAt target source position) := by
  refine .bind fun symbol => ?_
  cases symbol.value.kind with
  | num => exact .raise _
  | str =>
    dsimp only
    split
    · exact .raise _
    · exact sets_declare fun _ => rfl

/-- The statements other than `res` set no status. -/
theorem sets_perform {fetcher : Fetcher} {program : Program} {exec : Statement → Run Flow}
    {fuel : Nat} {s : Statement} (hatomic : s.instruction.isAtomic = true)
    (htarget : s.instruction.target? = some target)
    (hfetch : ∀ reference, s.instruction ≠ .fetch target reference) :
    Sets target (fun symbol => symbol.status = none) (perform fetcher program exec fuel s) := by
  unfold perform
  generalize s.instruction = i at hatomic htarget hfetch
  cases i with
  | assign name value constant =>
    cases htarget
    exact .andNext (.bind fun _ => sets_declare fun _ => rfl)
  | status name reference =>
    cases htarget
    refine .andNext (.bind fun status => ?_)
    cases status with
    | none => exact .raise _
    | some code => exact sets_declare fun _ => rfl
  | fetch name reference =>
    cases htarget
    exact absurd rfl (hfetch reference)
  | read name =>
    cases htarget
    exact .andNext (.bind fun _ => sets_declare fun _ => rfl)
  | callInto name c => cases hatomic
  | index name source position =>
    cases htarget
    exact .andNext (sets_charAt source position)
  | increment name =>
    cases htarget
    exact .andNext (sets_step 1)
  | decrement name =>
    cases htarget
    exact .andNext (sets_step (-1))
  | _ => cases htarget

theorem settles_takeReturned (target name : String) (count : Nat) :
    Settles (takeReturned target name count) := by
  refine .look fun after => ?_
  split
  · exact .raise _
  · next value _ _ =>
    split
    · exact .raise _
    · intro m
      exact settles_declare target value false none
        { m with returned := m.returned.drop (m.returned.length - count) }

theorem takeReturned_eq_done {name : String} {count : Nat} {m m' : Machine}
    (h : takeReturned target name count m = .done () m') :
    ∃ value, m.store.declare target value m.depth false none = .ok m'.store := by
  obtain ⟨_, _, hm, h⟩ := bind_eq_done h
  cases hm
  cases hreturned : m.returned with
  | nil =>
    rw [hreturned] at h
    cases h
  | cons value rest =>
    rw [hreturned] at h
    dsimp only at h
    split at h
    · cases h
    · obtain ⟨_, m₁, htruncate, hdeclare⟩ := bind_eq_done h
      cases htruncate
      obtain ⟨store, hstore, rfl⟩ := declare_eq_done hdeclare
      exact ⟨value, hstore⟩

theorem settles_startCall (program : Program) (c : Call) : Settles (startCall program c) := by
  refine (settles_resolveAll c.args).bind (makes_resolveAll c.args) fun args => .look fun m => ?_
  cases m.builtins.get? c.name with
  | some builtin =>
    refine (settles_builtin builtin args).bind (notes_builtin builtin args) fun result => ?_
    cases result with
    | none => exact .pure _
    | some value => exact (Settles.of_succeeds (.modify _)).bind_succeeds fun _ => .pure _
  | none =>
    refine .look fun m => (Settles.lift _).bind (.lift _) fun params => ?_
    cases program.function? c.name with
    | none => exact .raise _
    | some function =>
      dsimp only
      split
      · exact .raise _
      · split
        · exact .raise _
        · exact (Settles.of_succeeds (succeeds_openFrame _ _ _ _)).bind_succeeds fun _ => .pure _

/-- Binding parameters adds symbols with their names and without a status to the innermost
frame. -/
theorem exists_frame_of_bindParams {depth : Nat} {bindings : List (String × Value)}
    {m m' : Machine} {frame : Frame} {outer : List Frame}
    (hframes : m.store.frames = frame :: outer) (h : bindParams depth bindings m = .done () m') :
    ∃ frame', m'.store.frames = frame' :: outer ∧
      ∀ name symbol, frame'.get? name = some symbol →
        frame.get? name = some symbol ∨ name ∈ bindings.map Prod.fst ∧ symbol.status = none := by
  induction bindings generalizing m frame with
  | nil =>
    cases h
    exact ⟨frame, hframes, fun _ _ hget => .inl hget⟩
  | cons binding rest ih =>
    obtain ⟨param, value⟩ := binding
    obtain ⟨_, m₁, hdeclare, hrest⟩ := bind_eq_done h
    obtain ⟨store, hstore, rfl⟩ := onStore_eq_done hdeclare
    obtain ⟨depth, hinserted⟩ := Store.frames_declare hframes hstore
    obtain ⟨frame', hframe', hsymbols⟩ := ih hinserted hrest
    refine ⟨frame', hframe', fun name symbol hget => ?_⟩
    rcases hsymbols name symbol hget with hold | ⟨hname, hstatus⟩
    · rw [Table.get?_insert] at hold
      split at hold
      · next hparam =>
        cases hold
        rw [hparam]
        exact .inr ⟨List.mem_cons_self, rfl⟩
      · exact .inl hold
    · exact .inr ⟨List.mem_cons_of_mem _ hname, hstatus⟩

/-- A function is entered in a frame with its parameters, none of which has a status. -/
theorem exists_frame_of_openFrame {name : String} {params : List String} {args : List Value}
    {returns : Option Kind} {m m' : Machine}
    (h : openFrame name params args returns m = .done () m') :
    ∃ frame : Frame, m'.store.frames = frame :: m.store.frames ∧
      ∀ name symbol, frame.get? name = some symbol → name ∈ params ∧ symbol.status = none := by
  obtain ⟨caller, _, hm, h⟩ := bind_eq_done h
  cases hm
  obtain ⟨_, m₁, hpush, h⟩ := bind_eq_done h
  cases hpush
  obtain ⟨_, m₂, hbind, henter⟩ := bind_eq_done h
  cases henter
  obtain ⟨frame, hframe, hsymbols⟩ := @exists_frame_of_bindParams _ _ _ _ ∅ _ rfl hbind
  refine ⟨frame, hframe, fun name symbol hget => ?_⟩
  rcases hsymbols name symbol hget with hold | ⟨hname, hstatus⟩
  · cases hold
  · obtain ⟨binding, hbinding, rfl⟩ := List.mem_map.1 hname
    exact ⟨(List.of_mem_zip hbinding).1, hstatus⟩

end Run

namespace Moment

variable {fetcher : Fetcher} {program : Program} {c d : Moment} {past : List Moment}
  {frames : List Frame} {s : Statement}

/-- Every symbol of some frames is one that the step from the moment leaves, or one of the frames
of the moment of which the step does not bind the name. -/
def Accounts (fetcher : Fetcher) (program : Program) (c : Moment) (frames : List Frame) : Prop :=
  ∀ level name symbol, symbolIn? frames level name = some symbol →
    c.Binds fetcher program level name ∧ c.Gives fetcher symbol ∨
      ¬ c.Binds fetcher program level name ∧
        symbolIn? c.machine.store.frames level name = some symbol

theorem accounts_of_thins (hidle : ∀ level name, ¬ c.Binds fetcher program level name)
    (h : Thins c.machine.store.frames frames) : Accounts fetcher program c frames :=
  fun level name symbol hsymbol => .inr ⟨hidle level name, h level name symbol hsymbol⟩

theorem accounts_of_idle (hwritten : c.written = []) (h : Thins c.machine.store.frames frames) :
    Accounts fetcher program c frames := by
  refine accounts_of_thins (fun level name hbinds => ?_) h
  rw [Binds, hwritten] at hbinds
  exact List.not_mem_nil hbinds.2

/-- A step that fails and leaves the frames. -/
theorem accounts_of_not_succeeds (hnot : ¬ c.Succeeds fetcher program)
    (hframes : frames = c.machine.store.frames) : Accounts fetcher program c frames := by
  rw [hframes]
  exact accounts_of_thins (fun _ _ hbinds => hnot hbinds.1) (.refl _)

theorem accounts_of_declare {store : Store} {target : String} {value : Value} {depth : Nat}
    {constant : Bool} {status : Option Nat} (hsucceeds : c.Succeeds fetcher program)
    (hdeclare : c.machine.store.declare target value depth constant status = .ok store)
    (hwritten : c.written = [(c.machine.store.frames.length - 1, target)])
    (hgives : ∀ symbol, store.symbol? target = some symbol → c.Gives fetcher symbol) :
    Accounts fetcher program c store.frames := by
  intro level name symbol hsymbol
  have houtside := Store.outside_declare hdeclare
  have hlength := frames_length_of_outside houtside
  have hlt : level < c.machine.store.frames.length := hlength ▸ lt_of_symbolIn? hsymbol
  have hbinds : c.Binds fetcher program level name ↔
      level + 1 = c.machine.store.frames.length ∧ name = target := by
    rw [Binds, hwritten, List.mem_singleton, Prod.mk.injEq]
    constructor
    · rintro ⟨-, hlevel, hname⟩
      exact ⟨by omega, hname⟩
    · rintro ⟨hlevel, hname⟩
      exact ⟨hsucceeds, by omega, hname⟩
  rw [hbinds]
  by_cases hlevel : level + 1 = c.machine.store.frames.length
  · rw [symbolIn?_eq_symbol? (hlength.trans hlevel.symm)] at hsymbol
    by_cases hname : name = target
    · rw [hname] at hsymbol
      exact .inl ⟨⟨hlevel, hname⟩, hgives symbol hsymbol⟩
    · rw [Store.symbol?_declare hdeclare, if_neg hname] at hsymbol
      refine .inr ⟨fun h => hname h.2, ?_⟩
      rwa [symbolIn?_eq_symbol? hlevel.symm]
  · have hbelow : level + 1 < c.machine.store.frames.length := by omega
    refine .inr ⟨fun h => hlevel h.1, ?_⟩
    rwa [symbolIn?_of_outside houtside hbelow] at hsymbol

theorem written_of_statement? (hs : c.statement? = some s) :
    c.written = c.machine.written s.instruction := by
  obtain ⟨hflow, rest, tasks, htasks⟩ := statement?_eq_some hs
  obtain ⟨flow, tasks', m⟩ := c
  cases hflow
  cases htasks
  rfl

/-- What a statement that ends well has left in its target. -/
theorem gives_of_perform {flow : Flow} {m : Machine} {target : String} (hs : c.statement? = some s)
    (hatomic : s.instruction.isAtomic = true) (htarget : s.instruction.target? = some target)
    (h : perform fetcher program (fun _ => unfinished) 0 s (begun s c.machine) = .done flow m)
    {symbol : Symbol} (hsymbol : m.store.symbol? target = some symbol) :
    c.Gives fetcher symbol := by
  by_cases hfetch : ∃ reference, s.instruction = .fetch target reference
  · obtain ⟨reference, hi⟩ := hfetch
    rw [perform, hi] at h
    have hdone := andNext_eq_done h
    cases hrequest : c.machine.store.requests.get? reference with
    | none =>
      have hnone : (begun s c.machine).store.requests.get? reference = none := hrequest
      rw [Run.fetch_of_not_pending hnone] at hdone
      cases hdone
    | some request =>
      have hsome : (begun s c.machine).store.requests.get? reference = some request := hrequest
      rw [Run.fetch_of_pending hsome] at hdone
      let response := fetcher c.machine.calls request.call
      have hf : c.fetch? fetcher = some ⟨reference, request.call, response⟩ :=
        fetch?_eq_some_iff.2 ⟨s, target, request, hs, hi, hrequest, rfl, rfl⟩
      rw [Gives, hf]
      obtain ⟨_, m₁, -, hbind⟩ := bind_eq_done hdone
      exact sets_bindResponse (P := fun symbol => symbol.status = response.status ∧
        symbol.value = .string (response.body.getD "")) (fun _ => ⟨rfl, rfl⟩) _ _ _ hbind symbol
          hsymbol
  · have hnone : c.fetch? fetcher = none := by
      rw [Option.eq_none_iff_forall_ne_some]
      intro f hf
      obtain ⟨s', target', request, hs', hi, -⟩ := fetch?_eq_some_iff.1 hf
      rw [hs] at hs'
      cases hs'
      rw [hi] at htarget
      cases htarget
      exact hfetch ⟨_, hi⟩
    rw [Gives, hnone]
    exact sets_perform hatomic htarget (fun reference hi => hfetch ⟨reference, hi⟩) _ _ _ h symbol
      hsymbol

theorem accounts_of_isAtomic (hs : c.statement? = some s)
    (hatomic : s.instruction.isAtomic = true) (h : c.next fetcher program = some d) :
    Accounts fetcher program c d.machine.store.frames := by
  have hwritten : c.written = s.instruction.target?.toList.map fun target =>
      (c.machine.store.frames.length - 1, target) := by
    rw [written_of_statement? hs, Machine.written_of_isAtomic _ hatomic]
  have hsettles := settles_perform_of_isAtomic fetcher program (fun _ => unfinished) 0 hatomic
  rw [machine_of_next hs hatomic h]
  rcases hsettles.done_or_failed (begun s c.machine) with
    ⟨flow, m, hdone⟩ | ⟨fault, m, hfailed, hstore⟩
  · have hsucceeds : c.Succeeds fetcher program :=
      (succeeds_iff_perform hs hatomic).2 ⟨flow, m, hdone⟩
    rw [hdone]
    change Accounts fetcher program c m.store.frames
    by_cases hdelete : ∃ target, s.instruction = .delete target
    · obtain ⟨target, hi⟩ := hdelete
      have hidle : c.written = [] := by
        rw [hwritten, hi]
        rfl
      rw [perform, hi] at hdone
      rcases delete_eq_done (andNext_eq_done hdone) with ⟨-, rfl⟩ | ⟨-, -, rfl⟩
      · exact accounts_of_idle hidle (.refl _)
      · exact accounts_of_idle hidle (.eraseSymbol _ target)
    · have hnot (target : String) : s.instruction ≠ .delete target := fun hi => hdelete ⟨target, hi⟩
      have hwrites := writes_of_perform hatomic hnot hdone
      generalize htarget : s.instruction.target? = found at hwrites hwritten
      generalize hframes : m.store.frames = frames at hwrites
      cases hwrites with
      | nothing => exact accounts_of_idle hwritten (.refl _)
      | @declared store target _ _ _ _ hdeclare hdepth =>
        refine accounts_of_declare hsucceeds hdeclare hwritten fun symbol hsymbol => ?_
        rw [← Store.symbol?_congr hframes] at hsymbol
        exact gives_of_perform hs hatomic htarget hdone hsymbol
  · rw [hfailed]
    refine accounts_of_not_succeeds (fun hsucceeds => ?_) (congrArg Store.frames hstore)
    obtain ⟨flow, m', hdone⟩ := (succeeds_iff_perform hs hatomic).1 hsucceeds
    rw [hfailed] at hdone
    cases hdone

theorem fetch?_of_calls {call : Call} (hs : c.statement? = some s) (hcall : s.Calls call) :
    c.fetch? fetcher = none := by
  rw [fetch?, hs, Option.bind_some]
  rcases hcall with hi | ⟨target, hi⟩
  · rw [hi]
  · rw [hi]

theorem succeeds_of_startCall {call : Call} {started : Option (List Statement × Option Kind)}
    {m : Machine} (hs : c.statement? = some s) (hcall : s.Calls call)
    (h : startCall program call (begun s c.machine) = .done started m) :
    c.Succeeds fetcher program := by
  obtain ⟨hflow, rest, tasks, htasks⟩ := statement?_eq_some hs
  let inner := callTasks started ++ [afterCall s call (begun s c.machine)]
  have hstart : startStatement fetcher program s (begun s c.machine) = .done (.next, inner) m := by
    rw [startStatement_call fetcher program hcall, bind_of_done h]
    rfl
  refine ⟨_, _, (.next, inner ++ [.statements rest]), m, htasks, ?_⟩
  rw [hflow, doTask_statements, bind_of_done hstart]
  rfl

/-- A call binds names in a frame on top of the others. -/
theorem not_binds_of_calls {call : Call} (hs : c.statement? = some s) (hcall : s.Calls call)
    {level : Nat} (hlevel : level < c.machine.store.frames.length) (name : String) :
    ¬ c.Binds fetcher program level name := by
  rintro ⟨-, hmem⟩
  rw [written_of_statement? hs, Machine.written_of_calls c.machine hcall] at hmem
  split at hmem
  · cases hmem
  · obtain ⟨param, -, hparam⟩ := List.mem_map.1 hmem
    cases hparam
    exact Nat.lt_irrefl _ hlevel

theorem accounts_of_entered {call : Call} {params : List String} {frame : Frame}
    (hs : c.statement? = some s) (hcall : s.Calls call) (hsucceeds : c.Succeeds fetcher program)
    (hfree : c.machine.isBuiltin call.name = false)
    (hsignature : c.machine.store.signature call.name = .ok params)
    (hframe : ∀ name symbol, frame.get? name = some symbol →
      name ∈ params ∧ symbol.status = none) :
    Accounts fetcher program c (frame :: c.machine.store.frames) := by
  intro level name symbol hsymbol
  by_cases hlevel : level < c.machine.store.frames.length
  · rw [symbolIn?_cons hlevel] at hsymbol
    exact .inr ⟨not_binds_of_calls hs hcall hlevel name, hsymbol⟩
  · have hlt : level < c.machine.store.frames.length + 1 := lt_of_symbolIn? hsymbol
    obtain rfl : level = c.machine.store.frames.length := by omega
    rw [symbolIn?_innermost] at hsymbol
    obtain ⟨hparam, hstatus⟩ := hframe name symbol hsymbol
    refine .inl ⟨⟨hsucceeds, ?_⟩, ?_⟩
    · rw [written_of_statement? hs, Machine.written_of_calls c.machine hcall,
        if_neg (Bool.eq_false_iff.1 hfree), Store.get?_of_signature hsignature]
      exact List.mem_map.2 ⟨name, hparam, rfl⟩
    · rw [Gives, fetch?_of_calls hs hcall]
      exact hstatus

/-- A call leaves all symbols that there are, and may enter a function. -/
theorem accounts_of_calls {call : Call} (hs : c.statement? = some s) (hcall : s.Calls call)
    (h : c.next fetcher program = some d) :
    Accounts fetcher program c d.machine.store.frames := by
  have hsame {frames : List Frame} (hframes : frames = c.machine.store.frames) :
      Accounts fetcher program c frames := by
    rw [hframes]
    intro level name symbol hsymbol
    exact .inr ⟨not_binds_of_calls hs hcall (lt_of_symbolIn? hsymbol) name, hsymbol⟩
  rw [machine_of_statement? hs h, startStatement_call fetcher program hcall, machine_map]
  rcases (settles_startCall program call).done_or_failed (begun s c.machine) with
    ⟨started, m, hdone⟩ | ⟨fault, m, hfailed, hstore⟩
  · rw [hdone]
    rcases startCall_eq_done hdone with
      ⟨-, hstore⟩ | ⟨hfree, args, params, function, hsignature, -, -, -, hopen⟩
    · exact hsame (congrArg Store.frames hstore)
    · obtain ⟨frame, hframes, hsymbols⟩ := exists_frame_of_openFrame hopen
      change Accounts fetcher program c m.store.frames
      rw [hframes]
      have hsucceeds : c.Succeeds fetcher program := succeeds_of_startCall hs hcall hdone
      exact accounts_of_entered hs hcall hsucceeds hfree hsignature hsymbols
  · rw [hfailed]
    exact hsame (congrArg Store.frames hstore)

theorem written_of_task {task : Task} {rest : List Task} (htasks : c.tasks = task :: rest)
    (hstatements : ∀ statements, task ≠ .statements statements)
    (htake : ∀ target name count, task ≠ .takeReturned target name count) : c.written = [] := by
  obtain ⟨flow, tasks, m⟩ := c
  cases htasks
  cases task with
  | statements statements => exact absurd rfl (hstatements statements)
  | takeReturned target name count => exact absurd rfl (htake target name count)
  | _ => cases flow <;> rfl

theorem accounts_of_takeReturned {target name : String} {count : Nat} {rest : List Task}
    (htasks : c.tasks = .takeReturned target name count :: rest)
    (h : c.next fetcher program = some d) :
    Accounts fetcher program c d.machine.store.frames := by
  obtain ⟨flow, tasks, m⟩ := c
  cases htasks
  have hdo : doTask fetcher program flow (.takeReturned target name count) =
      takeReturned target name count >>= fun _ => pure (flow, []) := by
    cases flow <;> rfl
  have hmachine : d.machine = (takeReturned target name count m).machine := by
    rw [next] at h
    cases h
    rw [machine_after]
    dsimp only
    rw [hdo, machine_map]
  have hwritten : written ⟨flow, .takeReturned target name count :: rest, m⟩ =
      [(m.store.frames.length - 1, target)] := by
    cases flow <;> rfl
  have hfetch : fetch? fetcher ⟨flow, .takeReturned target name count :: rest, m⟩ = none := by
    cases flow <;> rfl
  rw [hmachine]
  rcases (settles_takeReturned target name count).done_or_failed m with
    ⟨_, m', hdone⟩ | ⟨fault, m', hfailed, hstore⟩
  · obtain ⟨value, hdeclare⟩ := takeReturned_eq_done hdone
    have hsucceeds :
        Succeeds fetcher program ⟨flow, .takeReturned target name count :: rest, m⟩ := by
      refine ⟨_, _, (flow, []), m', rfl, ?_⟩
      rw [hdo, bind_of_done hdone]
      rfl
    rw [hdone]
    change Accounts fetcher program _ m'.store.frames
    refine accounts_of_declare hsucceeds hdeclare hwritten fun symbol hsymbol => ?_
    rw [Store.symbol?_declare hdeclare, if_pos rfl] at hsymbol
    cases hsymbol
    rw [Gives, hfetch]
  · rw [hfailed]
    refine accounts_of_not_succeeds ?_ (congrArg Store.frames hstore)
    rintro ⟨task, rest', result, m₁, htasks, hdone⟩
    cases htasks
    rw [hdo, bind_apply, hfailed] at hdone
    cases hdone

/-- A branch and a loop only look at the symbols. -/
theorem accounts_of_block (hs : c.statement? = some s)
    (hi : ∃ condition, s.instruction = .branch condition ∨ s.instruction = .loop condition)
    (h : c.next fetcher program = some d) :
    Accounts fetcher program c d.machine.store.frames := by
  have hprunes : Prunes (startStatement fetcher program s) := by
    obtain ⟨condition, hi | hi⟩ := hi
    · rw [startStatement_branch fetcher program hi]
      refine .bind (.bind (.of_store fun _ => rfl) fun _ => ?_) fun _ => .of_store fun _ => rfl
      exact .notes (notes_test condition)
    · rw [startStatement_loop fetcher program hi]
      exact .bind (.of_store fun _ => rfl) fun _ => .of_store fun _ => rfl
  refine accounts_of_idle ?_ ?_
  · rw [written_of_statement? hs]
    obtain ⟨condition, hi | hi⟩ := hi
    · rw [hi]
      rfl
    · rw [hi]
      rfl
  · rw [machine_of_statement? hs h]
    exact hprunes (begun s c.machine)

theorem accounts_of_statement (hs : c.statement? = some s) (h : c.next fetcher program = some d) :
    Accounts fetcher program c d.machine.store.frames := by
  by_cases hatomic : s.instruction.isAtomic = true
  · exact accounts_of_isAtomic hs hatomic h
  · cases hi : s.instruction with
    | branch condition => exact accounts_of_block hs ⟨condition, .inl hi⟩ h
    | loop condition => exact accounts_of_block hs ⟨condition, .inr hi⟩ h
    | call call => exact accounts_of_calls hs (.inl hi) h
    | callInto target call => exact accounts_of_calls hs (.inr ⟨target, hi⟩) h
    | _ => simp [hi, Instruction.isAtomic] at hatomic

theorem prunes_doTask {flow : Flow} {task : Task}
    (hstatements : ∀ statements, task ≠ .statements statements)
    (htake : ∀ target name count, task ≠ .takeReturned target name count) :
    Prunes (doTask fetcher program flow task) := by
  cases task with
  | statements statements => exact absurd rfl (hstatements statements)
  | takeReturned target name count => exact absurd rfl (htake target name count)
  | run =>
    intro m
    rw [doTask]
    cases program.function? entryFunction with
    | none => exact .refl _
    | some main => exact .push _
  | rounds condition body =>
    cases flow with
    | leave => exact .of_store fun _ => rfl
    | next => exact (Prunes.notes (notes_test condition)).bind fun _ => .of_store fun _ => rfl
  | leaveBlock =>
    cases flow <;> exact prunes_leaveBlock.bind fun _ => .of_store fun _ => rfl
  | leaveFunction returns =>
    cases flow <;> exact (Prunes.of_store (store_leaveFunction returns)).bind fun _ =>
      prunes_popFrame.bind fun _ => .of_store fun _ => rfl
  | dropReturned count =>
    cases flow <;> exact .of_store fun _ => rfl
  | leaveMain location =>
    cases flow <;> exact (prunes_leaveMain location).bind fun _ => .of_store fun _ => rfl

/-- What a step does to the symbols: it binds some names, and takes others away. -/
theorem accounts_of_next (h : c.next fetcher program = some d) :
    Accounts fetcher program c d.machine.store.frames := by
  obtain ⟨task, rest, htasks⟩ := List.exists_cons_of_ne_nil (tasks_ne_nil_of_next h)
  have hmachine : d.machine = (doTask fetcher program c.flow task c.machine).machine := by
    rw [next, htasks] at h
    cases h
    rw [machine_after]
  have hidle (hstatements : ∀ statements, task ≠ .statements statements)
      (htake : ∀ target name count, task ≠ .takeReturned target name count) :
      Accounts fetcher program c d.machine.store.frames := by
    refine accounts_of_idle (written_of_task htasks hstatements htake) ?_
    rw [hmachine]
    exact prunes_doTask hstatements htake c.machine
  cases task with
  | statements statements =>
    cases hflow : c.flow with
    | leave =>
      refine accounts_of_idle (by rw [written, hflow, htasks]) ?_
      rw [hmachine, hflow, doTask]
      exact Prunes.bind (.notes (notes_warnUnreachable statements))
        (fun _ => .of_store fun _ => rfl) c.machine
    | next =>
      cases statements with
      | nil =>
        refine accounts_of_idle (by rw [written, hflow, htasks]) ?_
        rw [hmachine, hflow]
        exact .refl _
      | cons s after =>
        have hs : c.statement? = some s := by rw [statement?, hflow, htasks]
        exact accounts_of_statement hs h
  | takeReturned target name count => exact accounts_of_takeReturned htasks h
  | _ => exact hidle (fun _ h => by cases h) fun _ _ _ h => by cases h

/-- A symbol is as the latest step that bound its name has left it. -/
theorem History.latest {m : Machine} (hm : m.Fresh)
    (h : History fetcher program (start m) past d) {level : Nat} {name : String} {symbol : Symbol}
    (hsymbol : symbolIn? d.machine.store.frames level name = some symbol) :
    Lately (fun c => c.Binds fetcher program level name ∧ c.Gives fetcher symbol)
      (Binds fetcher program level name) past := by
  induction h with
  | nil =>
    have hframes : (start m).machine.store.frames = [] := hm.frames
    rw [hframes] at hsymbol
    cases hsymbol
  | snoc _ hnext ih =>
    rw [lately_snoc]
    rcases accounts_of_next hnext level name symbol hsymbol with hbound | ⟨hnot, hold⟩
    · exact .inl hbound
    · exact .inr ⟨hnot, ih hold⟩

end Moment

end ApiScript
