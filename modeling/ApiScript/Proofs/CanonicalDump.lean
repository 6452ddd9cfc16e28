import ApiScript.Proofs.FrameWrites
import ApiScript.Proofs.LooseStore
import ApiScript.Proofs.TextOrder
import Mathlib.Data.List.Perm.Basic
import Mathlib.Data.List.Sort

/-!
# The dump of a store

A dump sorts the pending requests and then the symbols of the innermost frame. In whatever order
they are kept, it lists each once, by the bytes of the names. So it is determined by what is pending
and by the values and the constant marks of the symbols, however the store came by them. Names may
be added in any order, and one that is added and removed again leaves no trace.
-/
namespace ApiScript

structure Row where
  name : String
  value : Value
  constant : Bool
  deriving DecidableEq, Repr

namespace Row

def line (row : Row) : String :=
  s!"entry: {row.name}, {row.value.text} ({row.value.kind.toText})" ++
    (if row.constant then " const" else "")

def ofEntry (entry : String × Symbol) : Row := ⟨entry.1, entry.2.value, entry.2.constant⟩

end Row

/-- In the order of the bytes of their keys, lists with the same members are equal. -/
theorem eq_of_ordered_of_mem_iff {α : Type} {key : α → String} {l r : List α}
    (hl : l.Pairwise fun a b => Text.bytes (key a) < Text.bytes (key b))
    (hr : r.Pairwise fun a b => Text.bytes (key a) < Text.bytes (key b))
    (h : ∀ a, a ∈ l ↔ a ∈ r) : l = r := by
  have : Std.Antisymm fun a b => Text.bytes (key a) < Text.bytes (key b) :=
    ⟨fun a b hab hba => absurd hba (List.lt_asymm hab)⟩
  have : Std.Irrefl fun a b => Text.bytes (key a) < Text.bytes (key b) :=
    ⟨fun a => List.lt_irrefl (Text.bytes (key a))⟩
  exact hl.eq_of_mem_iff hr h

/-- A sort by distinct keys puts the elements in the order of the bytes of the keys. -/
theorem ordered_mergeSort {α : Type} {key : α → String} {l : List α} (h : (l.map key).Nodup) :
    (l.mergeSort fun a b => decide (key a ≤ key b)).Pairwise
      fun a b => Text.bytes (key a) < Text.bytes (key b) := by
  have hsorted : (l.mergeSort fun a b => decide (key a ≤ key b)).Pairwise
      fun a b => decide (key a ≤ key b) = true := by
    apply List.pairwise_mergeSort
    · intro a b c hab hbc
      exact decide_eq_true (String.le_trans (of_decide_eq_true hab) (of_decide_eq_true hbc))
    · intro a b
      simpa using String.le_total (key a) (key b)
  have hperm := List.mergeSort_perm l fun a b => decide (key a ≤ key b)
  have hdistinct := (hperm.map key).nodup_iff.2 h
  refine (hsorted.and (List.pairwise_map.1 hdistinct)).imp ?_
  rintro a b ⟨hle, hne⟩
  refine Text.bytes_lt_iff.2 (Table.lt_of_not_lt_of_ne ?_ (Ne.symm hne))
  exact String.not_lt.2 (of_decide_eq_true hle)

namespace Store

def Shows (s : Store) (row : Row) : Prop :=
  ∃ depth status, s.symbol? row.name = some ⟨row.value, depth, row.constant, status⟩

/-- The pending requests and the rows of the symbols, each in the order of the names. -/
structure Lists (s : Store) (ids : List String) (rows : List Row) : Prop where
  ids_ordered : ids.Pairwise fun a b => Text.bytes a < Text.bytes b
  mem_ids (id : String) : id ∈ ids ↔ s.isRequest id = true
  rows_ordered : rows.Pairwise fun a b => Text.bytes a.name < Text.bytes b.name
  mem_rows (row : Row) : row ∈ rows ↔ s.Shows row

/-- The pending requests and the symbols of the innermost frame, each once and in any order. -/
structure Enumerates (s : Store) (ids : List String) (symbols : List (String × Symbol)) :
    Prop where
  ids_nodup : ids.Nodup
  mem_ids (id : String) : id ∈ ids ↔ s.isRequest id = true
  names_nodup : (symbols.map Prod.fst).Nodup
  mem_symbols (name : String) (symbol : Symbol) :
    (name, symbol) ∈ symbols ↔ s.symbol? name = some symbol

variable {s t : Store} {ids names : List String} {symbols : List (String × Symbol)}
  {rows : List Row}

theorem Lists.eq_of_same {ids' : List String} {rows' : List Row} (h : s.Lists ids rows)
    (h' : t.Lists ids' rows') (hids : ∀ id, s.isRequest id = t.isRequest id)
    (hrows : ∀ row, s.Shows row ↔ t.Shows row) : ids = ids' ∧ rows = rows' := by
  constructor
  · apply @eq_of_ordered_of_mem_iff _ id _ _ h.ids_ordered h'.ids_ordered
    intro id
    rw [h.mem_ids, h'.mem_ids, hids]
  · apply eq_of_ordered_of_mem_iff h.rows_ordered h'.rows_ordered
    intro row
    rw [h.mem_rows, h'.mem_rows, hrows]

theorem Enumerates.mem_rows (h : s.Enumerates ids symbols) (row : Row) :
    row ∈ symbols.map Row.ofEntry ↔ s.Shows row := by
  rw [List.mem_map]
  constructor
  · rintro ⟨⟨name, value, depth, constant, status⟩, hmem, rfl⟩
    exact ⟨depth, status, (h.mem_symbols _ _).1 hmem⟩
  · rintro ⟨depth, status, hsymbol⟩
    exact ⟨_, (h.mem_symbols _ _).2 hsymbol, rfl⟩

/-- Sorted, an enumeration is the list of the requests and the list of the rows. -/
theorem Enumerates.lists (h : s.Enumerates ids symbols) :
    s.Lists (ids.mergeSort fun a b => decide (a ≤ b))
      ((symbols.mergeSort fun a b => decide (a.1 ≤ b.1)).map Row.ofEntry) where
  ids_ordered := @ordered_mergeSort _ id ids (by simpa using h.ids_nodup)
  mem_ids id := List.mem_mergeSort.trans (h.mem_ids id)
  rows_ordered := List.pairwise_map.2 (ordered_mergeSort h.names_nodup)
  mem_rows row := by
    rw [((List.mergeSort_perm symbols _).map Row.ofEntry).mem_iff, h.mem_rows]

/-- Any enumeration is listed by the lines of the ordered requests and rows. -/
theorem Enumerates.listing_eq (h : s.Enumerates ids symbols) (hlists : s.Lists names rows) :
    listing ids symbols = names.map requestEntry ++ rows.map Row.line := by
  obtain ⟨rfl, rfl⟩ := hlists.eq_of_same h.lists (fun _ => rfl) fun _ => .rfl
  rw [List.map_map]
  rfl

theorem enumerates_of_holds {l : LooseStore} (h : l.Holds s.plain) :
    s.Enumerates l.ids l.symbols := by
  obtain ⟨frames, requests, signatures, records⟩ := s
  obtain ⟨frames', requests'⟩ := l
  obtain ⟨hframes, hrequests⟩ := h
  cases hframes with
  | nil =>
    refine ⟨hrequests.nodup, hrequests.mem_names_iff, .nil, ?_⟩
    intro name symbol
    simp [LooseStore.symbols, symbol?]
  | cons hframe houter =>
    exact ⟨hrequests.nodup, hrequests.mem_names_iff, hframe.nodup, hframe.mem_iff⟩

/-- The dump goes through one enumeration. -/
theorem exists_enumerates (s : Store) :
    ∃ ids symbols, s.Enumerates ids symbols ∧ s.dump = listing ids symbols := by
  let l : LooseStore := ⟨s.frames.map Table.entries, s.requests.entries⟩
  have hl : l.Holds s.plain := by
    refine ⟨?_, s.requests.enumerates_entries⟩
    exact List.forall₂_map_right_iff.2 (List.forall₂_same.2 fun t _ => t.enumerates_entries)
  refine ⟨l.ids, l.symbols, enumerates_of_holds hl, ?_⟩
  obtain ⟨frames, requests, signatures, records⟩ := s
  cases frames <;> rfl

theorem Lists.dump_eq (h : s.Lists names rows) :
    s.dump = names.map requestEntry ++ rows.map Row.line := by
  obtain ⟨ids, symbols, henumerates, hdump⟩ := s.exists_enumerates
  rw [hdump, henumerates.listing_eq h]

theorem Enumerates.listing_eq_dump (h : s.Enumerates ids symbols) :
    listing ids symbols = s.dump := by
  rw [h.listing_eq h.lists, h.lists.dump_eq]

/-- Stores with the same requests and symbols of the same looks are dumped alike. -/
theorem dump_congr (hids : ∀ id, s.isRequest id = t.isRequest id)
    (hrows : ∀ row, s.Shows row ↔ t.Shows row) : s.dump = t.dump := by
  obtain ⟨_, _, h, -⟩ := s.exists_enumerates
  obtain ⟨_, _, h', -⟩ := t.exists_enumerates
  obtain ⟨heq, heq'⟩ := h.lists.eq_of_same h'.lists hids hrows
  rw [h.lists.dump_eq, h'.lists.dump_eq, heq, heq']

end Store

inductive Target where
  | symbol (name : String)
  | request (id : String)
  deriving DecidableEq, Repr

/-- The test whether a target is there, which may remove it. -/
def Target.test (remove : Bool) : Target → Operation
  | .symbol name => .present name remove
  | .request id => .pending id remove

def Operation.target? : Operation → Option Target
  | .declare name _ _ _ _ => some (.symbol name)
  | .registerRequest id _ => some (.request id)
  | _ => none

theorem Operation.target?_eq_some {op : Operation} {target : Target}
    (h : op.target? = some target) :
    (∃ name value depth constant status,
      op = .declare name value depth constant status ∧ target = .symbol name) ∨
    ∃ id request, op = .registerRequest id request ∧ target = .request id := by
  cases op with
  | declare name value depth constant status =>
    cases h
    exact .inl ⟨name, value, depth, constant, status, rfl, rfl⟩
  | registerRequest id request =>
    cases h
    exact .inr ⟨id, request, rfl, rfl⟩
  | _ => cases h

namespace Table

variable {α : Type} {t : Table α} {name other : String} {value : α}

theorem insert_comm_of_ne (h : name ≠ other) (t : Table α) (value later : α) :
    (t.insert name value).insert other later = (t.insert other later).insert name value := by
  apply ext_get?
  intro third
  by_cases hname : third = name
  · simp [hname, h]
  · simp [hname]

theorem insert_eq_self (h : t.get? name = some value) : t.insert name value = t := by
  apply ext_get?
  intro other
  by_cases hother : other = name
  · simp [hother, h]
  · simp [hother]

theorem erase_insert (h : t.get? name = none) (value : α) :
    (t.insert name value).erase name = t := by
  apply ext_get?
  intro other
  by_cases hother : other = name
  · simp [hother, h]
  · simp [hother]

end Table

/-- What a declaration makes of the symbol that bears its name. -/
def Symbol.over (old : Option Symbol) (new : Symbol) : Symbol :=
  match old with
  | none => new
  | some old => if old.constant then old else { new with depth := old.depth }

namespace PlainStore

variable {p : PlainStore} {a b : Operation} {target other : Target}

/-- A declaration writes in any case, if only what is there. -/
theorem perform_declare (p : PlainStore) (name : String) (value : Value) (depth : Nat)
    (constant : Bool) (status : Option Nat) :
    (p.perform (.declare name value depth constant status)).2 =
      { p with
        frames := p.frames.modifyHead fun frame =>
          frame.insert name (.over (frame.get? name) ⟨value, depth, constant, status⟩) } := by
  obtain ⟨frames, requests, signatures⟩ := p
  cases frames with
  | nil => rfl
  | cons frame outer =>
    cases hget : frame.get? name with
    | none => simp [perform, declare, hget, Symbol.over]
    | some old =>
      by_cases hconstant : old.constant = true
      · simp [perform, declare, hget, hconstant, Symbol.over, Table.insert_eq_self hget]
      · simp [perform, declare, hget, hconstant, Symbol.over]

theorem perform_registerRequest (p : PlainStore) (id : String) (request : Request) :
    (p.perform (.registerRequest id request)).2 =
      { p with requests := p.requests.insert id ((p.requests.get? id).getD request) } := by
  cases hget : p.requests.get? id with
  | none => simp [perform, Table.contains, hget]
  | some old => simp [perform, Table.contains, hget, Table.insert_eq_self hget]

/-- Additions to different targets can be swapped. -/
theorem perform_comm (ha : a.target? = some target) (hb : b.target? = some other)
    (hne : target ≠ other) (p : PlainStore) :
    ((p.perform a).2.perform b).2 = ((p.perform b).2.perform a).2 := by
  obtain ⟨frames, requests, signatures⟩ := p
  rcases Operation.target?_eq_some ha with
    ⟨name, value, depth, constant, status, rfl, rfl⟩ | ⟨id, request, rfl, rfl⟩ <;>
  rcases Operation.target?_eq_some hb with
    ⟨name', value', depth', constant', status', rfl, rfl⟩ | ⟨id', request', rfl, rfl⟩
  · have hname : name ≠ name' := fun heq => hne (congrArg _ heq)
    simp only [perform_declare]
    cases frames with
    | nil => rfl
    | cons frame outer => simp [hname, hname.symm, Table.insert_comm_of_ne hname]
  -- symbols and requests are kept apart
  · simp only [perform_registerRequest, perform_declare]
  · simp only [perform_registerRequest, perform_declare]
  · have hid : id ≠ id' := fun heq => hne (congrArg _ heq)
    simp [perform_registerRequest, hid, hid.symm, Table.insert_comm_of_ne hid]

/-- An addition is not noticed by a test for another target. -/
theorem perform_test (ha : a.target? = some other) (hne : target ≠ other) (p : PlainStore) :
    ((p.perform a).2.perform (target.test false)).1 = (p.perform (target.test false)).1 := by
  obtain ⟨frames, requests, signatures⟩ := p
  rcases Operation.target?_eq_some ha with
    ⟨name', value, depth, constant, status, rfl, rfl⟩ | ⟨id', request, rfl, rfl⟩
  · rw [perform_declare]
    cases target with
    | symbol name =>
      have hname : name ≠ name' := fun heq => hne (congrArg _ heq)
      cases frames with
      | nil => rfl
      | cons frame outer => simp [Target.test, perform, present, Table.contains, hname]
    | request id => rfl
  · rw [perform_registerRequest]
    cases target with
    | symbol name => rfl
    | request id =>
      have hid : id ≠ id' := fun heq => hne (congrArg _ heq)
      simp [Target.test, perform, Table.contains, hid]

/-- What is added where it was not and then removed leaves no trace. -/
theorem perform_removal (ha : a.target? = some target)
    (habsent : (p.perform (target.test false)).1 = .found false) :
    ((p.perform a).2.perform (target.test true)).2 = p := by
  obtain ⟨frames, requests, signatures⟩ := p
  rcases Operation.target?_eq_some ha with
    ⟨name, value, depth, constant, status, rfl, rfl⟩ | ⟨id, request, rfl, rfl⟩
  · rw [perform_declare]
    cases frames with
    | nil => rfl
    | cons frame outer =>
      have hget : frame.get? name = none := by
        simpa [Target.test, perform, present, Table.contains] using habsent
      simp [Target.test, perform, Table.erase_insert hget]
  · have hget : requests.get? id = none := by
      simpa [Target.test, perform, Table.contains] using habsent
    rw [perform_registerRequest]
    simp [Target.test, perform, Table.erase_insert hget]

/-- Additions to different targets can be made in any order. -/
theorem performAll_perm {batch batch' : List Operation} (hperm : batch.Perm batch')
    (hadds : ∀ op ∈ batch, op.target? ≠ none) (hdistinct : (batch.map Operation.target?).Nodup)
    (p : PlainStore) : p.performAll batch = p.performAll batch' := by
  refine hperm.foldl_eq' ?_ p
  intro a hmem b hmem' q
  by_cases heq : a = b
  · rw [heq]
  · obtain ⟨target, ha⟩ := Option.ne_none_iff_exists'.1 (hadds a hmem)
    obtain ⟨other, hb⟩ := Option.ne_none_iff_exists'.1 (hadds b hmem')
    refine perform_comm ha hb ?_ q
    rintro rfl
    exact heq (List.inj_on_of_nodup_map hdistinct hmem hmem' (ha.trans hb.symm))

/-- A target that comes and goes around other additions leaves no trace. -/
theorem performAll_around {batch : List Operation} (ha : a.target? = some target)
    (hbatch : ∀ op ∈ batch, op.target? ≠ none ∧ op.target? ≠ some target)
    (habsent : (p.perform (target.test false)).1 = .found false) :
    p.performAll (a :: batch ++ [target.test true]) = p.performAll batch := by
  -- the addition is moved past one operation of the batch after the other, up to its removal
  induction batch generalizing p with
  | nil => exact perform_removal ha habsent
  | cons b batch ih =>
    obtain ⟨⟨hadds, hother⟩, hrest⟩ := List.forall_mem_cons.1 hbatch
    obtain ⟨other, hb⟩ := Option.ne_none_iff_exists'.1 hadds
    have hne : target ≠ other := by
      rintro rfl
      exact hother hb
    have habsent' : ((p.perform b).2.perform (target.test false)).1 = .found false := by
      rw [perform_test hb hne]
      exact habsent
    refine Eq.trans ?_ (ih hrest habsent')
    exact congrArg (performAll · (batch ++ [target.test true])) (perform_comm ha hb hne p)

end PlainStore

namespace Store

/-- Whatever its arrangement, a loose store enumerates the store that the same operations leave. -/
theorem enumerates_of_performs {ops : List Operation} {l : LooseStore}
    (h : LooseStore.Performs {} ops l) :
    (({} : Store).performAll ops).Enumerates l.ids l.symbols := by
  apply enumerates_of_holds
  rw [plain_performAll recorded_empty]
  exact LooseStore.holds_empty.performs h

/-- After any operations, the dump lists the pending requests and then the symbols of the innermost
frame with their texts, kinds and constant marks, each once in the order of the bytes of their
names, and there is only one such list. It is what sorting gives for the requests and the symbols in
any order. In particular, it is the dump of every store that keeps them in no order, since that
store still has each of them once. So operations that leave the same requests and rows leave the
same dump: additions to different targets can be made in any order, and one that is removed again
makes no difference. -/
theorem dump_is_canonical (ops : List Operation) :
    let s := ({} : Store).performAll ops
    (∃ names rows, s.Lists names rows) ∧
    (∀ names rows, s.Lists names rows → s.dump = names.map requestEntry ++ rows.map Row.line) ∧
    (∀ ids symbols, s.Enumerates ids symbols → listing ids symbols = s.dump) ∧
    (∀ l, LooseStore.Performs {} ops l → s.Enumerates l.ids l.symbols ∧ l.dump = s.dump) ∧
    (∀ ops', (∀ id, s.isRequest id = (({} : Store).performAll ops').isRequest id) →
      (∀ row, s.Shows row ↔ (({} : Store).performAll ops').Shows row) →
        s.dump = (({} : Store).performAll ops').dump) ∧
    (∀ batch batch' : List Operation, batch.Perm batch' → (∀ op ∈ batch, op.target? ≠ none) →
      (batch.map Operation.target?).Nodup →
        (s.performAll batch).dump = (s.performAll batch').dump) ∧
    ∀ (op : Operation) (target : Target) (batch : List Operation), op.target? = some target →
      (s.perform (target.test false)).1 = .found false →
      (∀ other ∈ batch, other.target? ≠ none ∧ other.target? ≠ some target) →
        (s.performAll (op :: batch ++ [target.test true])).dump = (s.performAll batch).dump := by
  intro s
  have hs : s.Recorded := recorded_empty.performAll ops
  obtain ⟨_, _, henumerates, -⟩ := s.exists_enumerates
  refine ⟨⟨_, _, henumerates.lists⟩, fun names rows h => h.dump_eq,
    fun ids symbols h => h.listing_eq_dump, ?_, fun ops' hids hrows => dump_congr hids hrows,
    ?_, ?_⟩
  · intro l hl
    have h := enumerates_of_performs hl
    exact ⟨h, h.listing_eq_dump⟩
  · intro batch batch' hperm hadds hdistinct
    rw [← dump_plain, ← dump_plain, plain_performAll hs, plain_performAll hs,
      PlainStore.performAll_perm hperm hadds hdistinct]
  · intro op target batch hop habsent hbatch
    have hplain : (s.plain.perform (target.test false)).1 = .found false := by
      rw [perform_plain hs.covered]
      exact habsent
    rw [← dump_plain, ← dump_plain, plain_performAll hs, plain_performAll hs,
      PlainStore.performAll_around hop hbatch hplain]

/-- Two symbols and a request are dumped alike in two orders, around a deleted symbol, and where
they are kept in no order. -/
theorem shuffled_additions_dump_alike :
    let s := ({} : Store).performAll [.push]
    let u : Operation := .registerRequest "u" ⟨"u", "https://x.com", "GET", 5000, false⟩
    let b : Operation := .declare "b" (.string "hi") 2 false none
    let a : Operation := .declare "a" (.number "1") 0 true none
    let c : Operation := .declare "c" (.number "3") 0 true (some 200)
    (s.performAll [u, b, a]).dump = ["entry: u", "entry: a, 1 (num) const", "entry: b, hi (str)"] ∧
      (s.performAll [u, b, a]).dump = (s.performAll [a, u, b]).dump ∧
      (s.performAll [c, u, b, a, .present "c" true]).dump = (s.performAll [u, b, a]).dump ∧
      ∃ l, LooseStore.Performs {} [.push, u, b, a] l ∧ l.symbols.map Prod.fst = ["b", "a"] ∧
        l.dump = (s.performAll [u, b, a]).dump := by
  intro s u b a c
  obtain ⟨-, -, -, -, -, hshuffled, haround⟩ := dump_is_canonical [.push]
  obtain ⟨-, -, -, hloose, -⟩ := dump_is_canonical [.push, u, b, a]
  refine ⟨?_, ?_, ?_, ?_⟩
  · have hdump : (s.performAll [u, b, a]).dump = listing ["u"]
        [("a", ⟨.number "1", 0, true, none⟩), ("b", ⟨.string "hi", 2, false, none⟩)] :=
      congrArg₂ listing (by decide +kernel) (by decide +kernel)
    rw [hdump, listing, List.mergeSort_of_pairwise (by decide),
      List.mergeSort_of_pairwise (by decide)]
    decide +kernel
  · exact hshuffled [u, b, a] [a, u, b] (by decide) (by decide) (by decide)
  · exact haround c (.symbol "c") [u, b, a] rfl (by decide +kernel) (by decide)
  · have hl : LooseStore.Performs {} [.push, u, b, a]
        ⟨[[("b", ⟨.string "hi", 2, false, none⟩), ("a", ⟨.number "1", 0, true, none⟩)]],
          [("u", ⟨"u", "https://x.com", "GET", 5000, false⟩)]⟩ := by
      refine .cons (.refl _) (.cons (.refl _) (.cons (.refl _) (.cons ?_ (.nil _))))
      exact ⟨.cons (.swap _ _ _) .nil, .refl _⟩
    exact ⟨_, hl, rfl, (hloose _ hl).2⟩

end Store

end ApiScript
