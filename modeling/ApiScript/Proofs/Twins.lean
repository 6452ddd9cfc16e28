import ApiScript.Proofs.HostedFrame
import ApiScript.Proofs.LocalChanges
import ApiScript.Proofs.Pairing

/-!
# Twin machines

Two machines that differ in their depths and frames only are twins inside a function when their
innermost frames are one frame above two bases. A statement that executes no other one ends in the
same way on twins and leaves twins, since it looks at the innermost frame only.
-/
namespace ApiScript

def Machine.lodged (m : Machine) (depth : Nat) (frames : List Frame)
    (records : List ScopeRecord) : Machine :=
  { m with depth, store := { m.store with frames, records } }

def Machine.unframed (m : Machine) : Machine := m.lodged 0 [] []

def SameUnframed (m₁ m₂ : Machine) : Prop := m₁.unframed = m₂.unframed

/-- One machine with one frame above two bases, the same number of blocks deep in its function. -/
inductive Twin (base₁ base₂ level : Nat) : Machine → Machine → Prop
  | mk (m : Machine) {frame : Frame} {frames₁ frames₂ : List Frame}
    {records₁ records₂ : List ScopeRecord} (h₁ : Hosts base₁ frame frames₁ records₁)
    (h₂ : Hosts base₂ frame frames₂ records₂) :
    Twin base₁ base₂ level (m.lodged (base₁ + level) frames₁ records₁)
      (m.lodged (base₂ + level) frames₂ records₂)

variable {base₁ base₂ level : Nat}

theorem Twin.same (m₁ m₂ : Machine) (h : Twin base₁ base₂ level m₁ m₂) : SameUnframed m₁ m₂ := by
  cases h with
  | mk m h₁ h₂ => rfl

theorem Twin.declares {m₁ m₂ : Machine} (h : Twin base₁ base₂ level m₁ m₂) (name : String) :
    m₁.store.declares name = m₂.store.declares name := by
  cases h with
  | mk m h₁ h₂ =>
    rename_i frame frames₁ frames₂ records₁ records₂
    have hfirst := Hosts.declares
      (s := { m.store with frames := frames₁, records := records₁ }) h₁ name
    have hsecond := Hosts.declares
      (s := { m.store with frames := frames₂, records := records₂ }) h₂ name
    exact hfirst.trans hsecond.symm

namespace Run

variable {α β : Type}

def Tied (base₁ base₂ level : Nat) (x : Run α) : Prop :=
  Pairs SameUnframed (Twin base₁ base₂ level) x x (Twin base₁ base₂ level)

theorem tied_modify {f : Machine → Machine}
    (hf : ∀ m depth frames records,
      f (m.lodged depth frames records) = (f m).lodged depth frames records) :
    Tied base₁ base₂ level (modify f) := by
  refine .modify ?_
  rintro _ _ ⟨m, h₁, h₂⟩
  rw [hf, hf]
  exact .mk (f m) h₁ h₂

/-- A computation that looks at what twins share goes on in the same way on both sides. -/
theorem tied_look {f : Machine → Run α}
    (hf : ∀ m depth frames records, f (m.lodged depth frames records) = f m)
    (h : ∀ m, Tied base₁ base₂ level (f m)) : Tied base₁ base₂ level (machine >>= f) := by
  refine .look ?_
  rintro _ _ ⟨m, h₁, h₂⟩
  rw [hf, hf]
  exact h m _ _ (.mk m h₁ h₂)

theorem tied_emit (line : String) : Tied base₁ base₂ level (emit line) :=
  tied_modify fun _ _ _ _ => rfl

theorem tied_warn (w : Warning) : Tied base₁ base₂ level (warn w) := by
  refine tied_modify fun m depth frames records => ?_
  by_cases hwarns : m.modes.warns = true
  · simp [Machine.lodged, Machine.record, hwarns]
  · simp [Machine.lodged, hwarns]

theorem tied_warnUnless (well : Bool) (w : Warning) :
    Tied base₁ base₂ level (warnUnless well w) := by
  cases well with
  | true => exact .pure _
  | false => exact tied_warn w

/-- The symbols that twins find differ in their bases only. -/
theorem pairs_lookup_bind {f g : Symbol → Run α} (name : String)
    (hfg : ∀ symbol : Symbol, Pairs SameUnframed (Twin base₁ base₂ level) (f (symbol.above base₁))
      (g (symbol.above base₂)) (Twin base₁ base₂ level)) :
    Pairs SameUnframed (Twin base₁ base₂ level) (lookup name >>= f) (lookup name >>= g)
      (Twin base₁ base₂ level) := by
  rintro _ _ ⟨m, h₁, h₂⟩
  have hfound {base depth : Nat} {frame : Frame} {frames : List Frame}
      {records : List ScopeRecord} (h : Hosts base frame frames records) :
      lookup name (m.lodged depth frames records) =
        lift ((({ frames := [frame], requests := m.store.requests } : Store).lookup name).map
          (Symbol.above base)) (m.lodged depth frames records) := by
    have hstore := Hosts.lookup (s := { m.store with frames, records }) h name
    exact congrArg (fun found => lift found (m.lodged depth frames records)) hstore
  rw [bind_apply, bind_apply, hfound h₁, hfound h₂]
  cases ({ frames := [_], requests := m.store.requests } : Store).lookup name with
  | ok symbol => exact hfg symbol _ _ (.mk m h₁ h₂)
  | error cause => exact .failed ⟨cause, none⟩ rfl

theorem tied_resolve (operand : Operand) : Tied base₁ base₂ level (resolve operand) := by
  cases operand with
  | name text => exact pairs_lookup_bind text fun symbol => .pure symbol.value
  | number text => exact .pure _
  | literal text => exact .pure _

theorem tied_resolveAll (operands : List Operand) :
    Tied base₁ base₂ level (resolveAll operands) := by
  induction operands with
  | nil => exact .pure _
  | cons operand rest ih =>
    exact (tied_resolve operand).bind fun value => ih.bind fun values => .pure _

/-- Declaring at one depth above both bases writes the same symbol in the hosted frame. -/
theorem pairs_declare (name : String) (symbol : Symbol) :
    Pairs SameUnframed (Twin base₁ base₂ level)
      (onStore fun store =>
        store.declare name symbol.value (base₁ + symbol.depth) symbol.constant symbol.status)
      (onStore fun store =>
        store.declare name symbol.value (base₂ + symbol.depth) symbol.constant symbol.status)
      (Twin base₁ base₂ level) := by
  refine .onStore ?_
  rintro _ _ ⟨m, h₁, h₂⟩
  rename_i frame frames₁ frames₂ records₁ records₂
  cases hwrite : frame.write name symbol with
  | error cause =>
    have hfailed₁ := Hosts.declare_error
      (s := { m.store with frames := frames₁, records := records₁ }) h₁ hwrite
    have hfailed₂ := Hosts.declare_error
      (s := { m.store with frames := frames₂, records := records₂ }) h₂ hwrite
    exact .inl ⟨cause, hfailed₁, hfailed₂, rfl⟩
  | ok frame' =>
    obtain ⟨frames₁', records₁', hdone₁, h₁'⟩ := Hosts.declare_ok
      (s := { m.store with frames := frames₁, records := records₁ }) h₁ hwrite
    obtain ⟨frames₂', records₂', hdone₂, h₂'⟩ := Hosts.declare_ok
      (s := { m.store with frames := frames₂, records := records₂ }) h₂ hwrite
    exact .inr ⟨_, _, hdone₁, hdone₂, .mk m h₁' h₂'⟩

theorem tied_declare (target : String) (value : Value) (constant : Bool) (status : Option Nat) :
    Tied base₁ base₂ level (declare target value constant status) := by
  refine .look ?_
  rintro _ _ ⟨m, h₁, h₂⟩
  exact pairs_declare target ⟨value, level, constant, status⟩ _ _ (.mk m h₁ h₂)

theorem tied_test (condition : Condition) : Tied base₁ base₂ level (test condition) := by
  refine .look ?_
  intro m₁ m₂ htwin
  cases condition.test with
  | succeeded =>
    have hsame : succeeded condition.negated m₁ = succeeded condition.negated m₂ := by
      cases htwin with
      | mk m h₁ h₂ => rfl
    dsimp only
    rw [hsame]
    exact .done _ htwin
  | declared name =>
    dsimp only
    rw [htwin.declares name]
    exact .done _ htwin
  | compares lhs op rhs =>
    refine (tied_resolve lhs).bind (fun l => (tied_resolve rhs).bind fun r => ?_) _ _ htwin
    exact (tied_warnUnless _ _).bind fun _ => (Pairs.lift Twin.same _).bind fun holds => .pure _

theorem tied_delete (target : String) : Tied base₁ base₂ level (delete target) := by
  refine .onStore ?_
  intro m₁ m₂ htwin
  rw [htwin.declares target]
  cases htwin with
  | mk m h₁ h₂ =>
    by_cases hrequest : m.store.isRequest target = true
    · refine .inr ⟨_, _, if_pos hrequest, if_pos hrequest, ?_⟩
      exact .mk { m with store := m.store.eraseRequest target } h₁ h₂
    · rename_i frame frames₁ frames₂ records₁ records₂
      by_cases hsymbol : (m.lodged (base₂ + level) frames₂ records₂).store.declares target = true
      · obtain ⟨frames₁', records₁', hdone₁, h₁'⟩ := Hosts.eraseSymbol
          (s := { m.store with frames := frames₁, records := records₁ }) h₁ target
        obtain ⟨frames₂', records₂', hdone₂, h₂'⟩ := Hosts.eraseSymbol
          (s := { m.store with frames := frames₂, records := records₂ }) h₂ target
        exact .inr ⟨_, _,
          ((if_neg hrequest).trans (if_pos hsymbol)).trans (congrArg Except.ok hdone₁),
          ((if_neg hrequest).trans (if_pos hsymbol)).trans (congrArg Except.ok hdone₂),
          .mk m h₁' h₂'⟩
      · exact .inl ⟨_, (if_neg hrequest).trans (if_neg hsymbol),
          (if_neg hrequest).trans (if_neg hsymbol), rfl⟩

theorem tied_bindStatus (target reference : String) :
    Tied base₁ base₂ level (bindStatus target reference) := by
  refine Pairs.bind (tied_look (fun _ _ _ _ => rfl) fun m => ?_) fun status => ?_
  · split
    · exact .pure _
    · exact pairs_lookup_bind reference fun symbol => .pure symbol.status
  · cases status with
    | none => exact .raise Twin.same _
    | some code => exact tied_declare _ _ _ _

theorem tied_fetch (fetcher : Fetcher) (target reference : String) :
    Tied base₁ base₂ level (fetch fetcher target reference) := by
  refine tied_look (fun _ _ _ _ => rfl) fun m => ?_
  refine (Pairs.lift Twin.same _).bind fun request => ?_
  refine (tied_modify fun _ _ _ _ => rfl).bind fun _ => ?_
  split
  · exact .raise Twin.same _
  · exact (tied_warnUnless _ _).bind fun _ => tied_declare _ _ _ _

theorem tied_resolveEndpoint (request : Request) :
    Tied base₁ base₂ level (resolveEndpoint request) := by
  unfold resolveEndpoint
  split
  · exact .pure _
  · exact pairs_lookup_bind _ fun symbol => .pure _

theorem tied_register (request : Request) : Tied base₁ base₂ level (register request) := by
  refine (tied_resolveEndpoint request).bind fun resolved => ?_
  refine (tied_warnUnless _ _).bind fun _ => ?_
  refine Pairs.bind (.onStore ?_) fun _ => tied_modify fun _ _ _ _ => rfl
  rintro _ _ ⟨m, h₁, h₂⟩
  by_cases hid : m.store.requests.contains resolved.target = true
  · exact .inl ⟨_, if_pos hid, if_pos hid, rfl⟩
  · refine .inr ⟨_, _, if_neg hid, if_neg hid, ?_⟩
    exact .mk { m with store := { m.store with
      requests := m.store.requests.insert resolved.target resolved } } h₁ h₂

theorem tied_use (mode : Mode) : Tied base₁ base₂ level (use mode) := by
  cases mode with
  | debug => exact tied_modify fun _ _ _ _ => rfl
  | scope => exact tied_modify fun _ _ _ _ => rfl
  | warns =>
    refine tied_look (fun _ _ _ _ => rfl) fun m => ?_
    split
    · exact .raise Twin.same _
    · exact tied_modify fun _ _ _ _ => rfl

theorem tied_readLine : Tied base₁ base₂ level readLine := by
  rintro _ _ ⟨m, h₁, h₂⟩
  unfold readLine
  simp only [Machine.lodged]
  cases hread : InputLine.read m.input with
  | mk result rest =>
    cases result with
    | ok line => exact .done line (.mk { m with input := rest } h₁ h₂)
    | error cause => exact .failed ⟨cause, none⟩ rfl

theorem tied_read (target : String) : Tied base₁ base₂ level (read target) :=
  tied_readLine.bind fun _ => tied_declare _ _ _ _

theorem tied_leave (operand : Option Operand) : Tied base₁ base₂ level (leave operand) := by
  cases operand with
  | none => exact .pure _
  | some operand =>
    have hpush (value : Value) : Tied base₁ base₂ level
        (modify fun m => { m with returned := value :: m.returned }) :=
      tied_modify fun _ _ _ _ => rfl
    refine (tied_resolve operand).bind fun value => tied_look (fun _ _ _ _ => rfl) fun m => ?_
    cases m.returns with
    | none => exact hpush value
    | some kind =>
      dsimp only
      split
      · exact hpush value
      · exact .raise Twin.same _

theorem tied_charAt (target source : String) (position : Nat) :
    Tied base₁ base₂ level (charAt target source position) := by
  refine pairs_lookup_bind source fun symbol => ?_
  simp only [Symbol.above]
  cases symbol.value.kind with
  | num => exact .raise Twin.same _
  | str =>
    dsimp only
    split
    · exact .raise Twin.same _
    · exact tied_declare _ _ _ _

theorem tied_step (target : String) (delta : Int) :
    Tied base₁ base₂ level (step target delta) := by
  refine pairs_lookup_bind target fun symbol => ?_
  simp only [Symbol.above]
  cases symbol.value.kind with
  | str => exact .raise Twin.same _
  | num =>
    by_cases hconstant : symbol.constant = true
    · simp only [hconstant, ↓reduceIte]
      exact .raise Twin.same _
    · simp only [hconstant]
      refine (Pairs.lift Twin.same _).bind fun n => ?_
      exact pairs_declare target ⟨.number (n.offset delta).toText, symbol.depth, false, none⟩

theorem tied_builtin (builtin : Builtin) (args : List Value) :
    Tied base₁ base₂ level (builtin.call args) := by
  by_cases hinput : builtin = .input
  · rw [hinput]
    change Tied _ _ _ (Builtin.promptAndRead args)
    unfold Builtin.promptAndRead
    split
    · exact tied_readLine.bind fun _ => .pure _
    · exact (tied_modify fun _ _ _ _ => rfl).bind fun _ => tied_readLine.bind fun _ => .pure _
    · exact .raise Twin.same _
  · obtain ⟨result, hresult⟩ := builtin_eq_lift hinput args
    rw [hresult]
    exact .lift Twin.same result

theorem tied_warnUnreachable (rest : List Statement) :
    Tied base₁ base₂ level (warnUnreachable rest) := by
  cases rest with
  | nil => exact .pure _
  | cons next rest =>
    refine (tied_modify fun _ _ _ _ => rfl).bind fun _ => ?_
    exact tied_look (fun _ _ _ _ => rfl) fun m => tied_warn _

theorem tied_perform_of_isAtomic (fetcher : Fetcher) (program : Program)
    (exec : Statement → Run Flow) (fuel : Nat) {s : Statement}
    (h : s.instruction.isAtomic = true) :
    Tied base₁ base₂ level (perform fetcher program exec fuel s) := by
  have hnext {x : Run Unit} (hx : Tied base₁ base₂ level x) : Tied base₁ base₂ level (andNext x) :=
    hx.bind fun _ => .pure Flow.next
  unfold perform
  cases hi : s.instruction with
  | define signature => exact .pure _
  | assign target value constant =>
    exact hnext ((tied_resolve value).bind fun _ => tied_declare _ _ _ _)
  | branch condition => simp [hi, Instruction.isAtomic] at h
  | loop condition => simp [hi, Instruction.isAtomic] at h
  | otherwise chained => exact .raise Twin.same _
  | close => exact .raise Twin.same _
  | delete target => exact hnext (tied_delete target)
  | status target reference => exact hnext (tied_bindStatus target reference)
  | fetch target reference => exact hnext (tied_fetch fetcher target reference)
  | request request => exact hnext (tied_register request)
  | use mode => exact hnext (tied_use mode)
  | print value => exact hnext ((tied_resolve value).bind fun _ => tied_emit _)
  | read target => exact hnext (tied_read target)
  | leave value => exact (tied_leave value).bind fun _ => .pure _
  | call c => simp [hi, Instruction.isAtomic] at h
  | callInto target c => simp [hi, Instruction.isAtomic] at h
  | index target source position => exact hnext (tied_charAt target source position)
  | increment target => exact hnext (tied_step target 1)
  | decrement target => exact hnext (tied_step target (-1))

end Run

end ApiScript
