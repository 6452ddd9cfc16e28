import ApiScript.Proofs.NumericValues
import ApiScript.Proofs.TextOrder
import Mathlib.Data.Int.ConditionallyCompleteOrder
import Mathlib.Order.Compare
import Mathlib.Order.WithBotTop

/-!
# Laws of comparison

Values of one kind that can be ordered have places in a linear order: a string its text, a number
its count of units among the integers and the two infinities. Comparing two such values relates
their places, and from that come all the laws of the six comparisons.
-/
namespace ApiScript

namespace Comparison

def IsOrdering (op : Comparison) : Prop := op ≠ .equal ∧ op ≠ .notEqual

def complement : Comparison → Comparison
  | .equal => .notEqual
  | .notEqual => .equal
  | .less => .greaterEqual
  | .lessEqual => .greater
  | .greater => .lessEqual
  | .greaterEqual => .less

theorem admits_complement (op : Comparison) (o : Ordering) :
    op.complement.admits o = !op.admits o := by
  cases op <;> simp [complement, admits, bne]

theorem IsOrdering.complement {op : Comparison} (h : op.IsOrdering) :
    op.complement.IsOrdering := by
  cases op with
  | equal => exact absurd rfl h.1
  | notEqual => exact absurd rfl h.2
  | _ => exact ⟨nofun, nofun⟩

def Relates {α : Type} [LinearOrder α] : Comparison → α → α → Prop
  | .equal, p, q => p = q
  | .notEqual, p, q => p ≠ q
  | .less, p, q => p < q
  | .lessEqual, p, q => p ≤ q
  | .greater, p, q => q < p
  | .greaterEqual, p, q => q ≤ p

theorem admits_iff_relates {α : Type} [LinearOrder α] {o : Ordering} {p q : α}
    (h : o.Compares p q) (op : Comparison) : op.admits o = true ↔ op.Relates p q := by
  cases op with
  | equal => exact beq_iff_eq.trans h.eq_eq
  | notEqual => exact bne_iff_ne.trans h.eq_eq.not
  | less => exact beq_iff_eq.trans h.eq_lt
  | lessEqual => exact bne_iff_ne.trans h.ne_gt
  | greater => exact beq_iff_eq.trans h.eq_gt
  | greaterEqual => exact bne_iff_ne.trans h.ne_lt

end Comparison

/-- The place of a number in units. NaN has none. -/
def Number.place? : Number → Option EInt
  | .nan => none
  | .infinite true => some ⊥
  | .infinite false => some ⊤
  | .finite units => some units

theorem Number.place?_eq_none_iff {x : Number} : x.place? = none ↔ x = .nan := by
  cases x with
  | nan => simp [place?]
  | infinite negative => cases negative <;> simp [place?]
  | finite units => simp [place?]

theorem Number.compares_of_compare? {x y : Number} {o : Ordering} (h : x.compare? y = some o) :
    ∃ p q, x.place? = some p ∧ y.place? = some q ∧ o.Compares p q := by
  cases x with
  | nan => cases h
  | infinite a =>
    cases y with
    | nan => cases h
    | infinite b =>
      cases h
      cases a with
      | true =>
        cases b with
        | true => exact ⟨⊥, ⊥, rfl, rfl, rfl⟩
        | false => exact ⟨⊥, ⊤, rfl, rfl, WithBot.bot_lt_coe _⟩
      | false =>
        cases b with
        | true => exact ⟨⊤, ⊥, rfl, rfl, WithBot.bot_lt_coe _⟩
        | false => exact ⟨⊤, ⊤, rfl, rfl, rfl⟩
    | finite b =>
      cases h
      cases a with
      | true => exact ⟨⊥, b, rfl, rfl, WithBot.bot_lt_coe _⟩
      | false => exact ⟨⊤, b, rfl, rfl, WithBot.coe_lt_coe.2 (WithTop.coe_lt_top b)⟩
  | finite a =>
    cases y with
    | nan => cases h
    | infinite b =>
      cases h
      cases b with
      | true => exact ⟨a, ⊥, rfl, rfl, WithBot.bot_lt_coe _⟩
      | false => exact ⟨a, ⊤, rfl, rfl, WithBot.coe_lt_coe.2 (WithTop.coe_lt_top a)⟩
    | finite b =>
      refine ⟨a, b, rfl, rfl, ?_⟩
      have hcompare := (compare_iff a b).1 (Option.some.inj h)
      cases o with
      | lt => exact WithBotTop.coe_lt_coe.2 hcompare
      | eq => exact congrArg _ hcompare
      | gt => exact WithBotTop.coe_lt_coe.2 hcompare

namespace Value

def Place : Kind → Type
  | .str => String
  | .num => EInt

noncomputable instance (kind : Kind) : LinearOrder (Place kind) :=
  match kind with
  | .str => inferInstanceAs (LinearOrder String)
  | .num => inferInstanceAs (LinearOrder EInt)

def place? : (kind : Kind) → String → Option (Place kind)
  | .str, text => some text
  | .num, text => (Number.ofText? (Text.trim text)).bind Number.place?

theorem exists_place?_iff {kind : Kind} {text : String} :
    (∃ p, place? kind text = some p) ↔ (kind = .num → WritesNumber text) := by
  cases kind with
  | str => exact ⟨fun _ => nofun, fun _ => ⟨text, rfl⟩⟩
  | num =>
    constructor
    · rintro ⟨p, hp⟩ -
      obtain ⟨x, hx, hplace⟩ := Option.bind_eq_some_iff.1 hp
      refine ⟨x, hx, ?_⟩
      rintro rfl
      cases hplace
    · intro h
      obtain ⟨x, hx, hne⟩ := h rfl
      obtain ⟨p, hp⟩ := Option.ne_none_iff_exists'.1 (mt Number.place?_eq_none_iff.1 hne)
      exact ⟨p, Option.bind_eq_some_iff.2 ⟨x, hx, hp⟩⟩

theorem numberOf_eq_ok_iff {text : String} {x : Number} :
    numberOf text = .ok x ↔ Number.ofText? (Text.trim text) = some x := by
  unfold numberOf
  split <;> simp [*]

theorem orderNumbers_eq_ok {s t : String} {o : Ordering} (h : orderNumbers s t = .ok o) :
    ∃ x y, numberOf s = .ok x ∧ numberOf t = .ok y ∧ x.compare? y = some o := by
  unfold orderNumbers at h
  cases hx : numberOf s with
  | error cause => simp [hx, bind, Except.bind] at h
  | ok x =>
    cases hy : numberOf t with
    | error cause => simp [hx, hy, bind, Except.bind] at h
    | ok y =>
      cases ho : x.compare? y with
      | none => simp [hx, hy, ho, bind, Except.bind] at h
      | some o' =>
        simp only [hx, hy, ho, bind, Except.bind] at h
        cases h
        exact ⟨x, y, rfl, rfl, ho⟩

theorem compares_of_order {kind : Kind} {s t : String} {o : Ordering} (h : order kind s t = .ok o) :
    ∃ p q, place? kind s = some p ∧ place? kind t = some q ∧ o.Compares p q := by
  cases kind with
  | str =>
    cases h
    exact ⟨s, t, rfl, rfl, (compare_iff s t).1 rfl⟩
  | num =>
    obtain ⟨x, y, hx, hy, ho⟩ := orderNumbers_eq_ok h
    obtain ⟨p, q, hp, hq, hcompares⟩ := Number.compares_of_compare? ho
    exact ⟨p, q, Option.bind_eq_some_iff.2 ⟨x, numberOf_eq_ok_iff.1 hx, hp⟩,
      Option.bind_eq_some_iff.2 ⟨y, numberOf_eq_ok_iff.1 hy, hq⟩, hcompares⟩

/-- Values of one kind are ordered as their places are, and only if both have one. -/
theorem order_eq_ok_iff {kind : Kind} {s t : String} {o : Ordering} :
    order kind s t = .ok o ↔
      ∃ p q, place? kind s = some p ∧ place? kind t = some q ∧ o.Compares p q := by
  refine ⟨compares_of_order, ?_⟩
  rintro ⟨p, q, hp, hq, ho⟩
  have hs : IsNumber ⟨s, kind⟩ := exists_place?_iff.1 ⟨p, hp⟩
  have ht : IsNumber ⟨t, kind⟩ := exists_place?_iff.1 ⟨q, hq⟩
  obtain ⟨o', ho'⟩ := exists_order hs ht rfl
  obtain ⟨p', q', hp', hq', hcompares⟩ := compares_of_order ho'
  cases hp.symm.trans hp'
  cases hq.symm.trans hq'
  rw [ho.inj hcompares]
  exact ho'

variable {a b c : Value} {op : Comparison}

theorem compare_of_ne (hkind : a.kind ≠ b.kind) (op : Comparison) :
    a.compare op b = .error .kindMismatch := if_pos hkind

theorem compare_equality (hkind : a.kind = b.kind) :
    a.compare .equal b = .ok (a.text == b.text) ∧ a.compare .notEqual b = .ok (a.text != b.text) :=
  ⟨if_neg (not_not.2 hkind), if_neg (not_not.2 hkind)⟩

theorem compare_of_isOrdering (hop : op.IsOrdering) (hkind : a.kind = b.kind) :
    a.compare op b = (order a.kind a.text b.text).map op.admits := by
  cases op with
  | equal => exact absurd rfl hop.1
  | notEqual => exact absurd rfl hop.2
  | _ => exact if_neg (not_not.2 hkind)

theorem compare_eq_ok_iff (op : Comparison) (hop : op.IsOrdering) {holds : Bool} :
    a.compare op b = .ok holds ↔
      ∃ kind p q, a.kind = kind ∧ b.kind = kind ∧ place? kind a.text = some p ∧
        place? kind b.text = some q ∧ (holds = true ↔ op.Relates p q) := by
  constructor
  · intro h
    by_cases hkind : a.kind = b.kind
    · rw [compare_of_isOrdering hop hkind] at h
      cases horder : order a.kind a.text b.text with
      | error cause =>
        rw [horder] at h
        cases h
      | ok o =>
        rw [horder] at h
        cases h
        obtain ⟨p, q, hp, hq, ho⟩ := order_eq_ok_iff.1 horder
        exact ⟨_, p, q, rfl, hkind.symm, hp, hq, Comparison.admits_iff_relates ho op⟩
    · rw [compare_of_ne hkind] at h
      cases h
  · rintro ⟨kind, p, q, rfl, hkind, hp, hq, hholds⟩
    have ho : (Ord.compare p q).Compares p q := (compare_iff p q).1 rfl
    rw [compare_of_isOrdering hop hkind.symm, order_eq_ok_iff.2 ⟨p, q, hp, hq, ho⟩]
    exact congrArg _ (Bool.eq_iff_iff.2 ((Comparison.admits_iff_relates ho op).trans hholds.symm))

theorem exists_compare_eq_ok_iff (hop : op.IsOrdering) (hkind : a.kind = b.kind) :
    (∃ holds, a.compare op b = .ok holds) ↔
      (a.kind = .num → WritesNumber a.text ∧ WritesNumber b.text) := by
  simp only [compare_eq_ok_iff op hop]
  constructor
  · rintro ⟨holds, kind, p, q, rfl, hb, hp, hq, -⟩ hnum
    exact ⟨exists_place?_iff.1 ⟨p, hp⟩ hnum, exists_place?_iff.1 ⟨q, hq⟩ hnum⟩
  · intro h
    obtain ⟨p, hp⟩ := exists_place?_iff.2 fun hnum => (h hnum).1
    obtain ⟨q, hq⟩ := exists_place?_iff.2 fun hnum => (h hnum).2
    classical
    exact ⟨decide (op.Relates p q), a.kind, p, q, rfl, hkind.symm, hp, hq, decide_eq_true_iff⟩

theorem compare_complement (a b : Value) (op : Comparison) :
    a.compare op.complement b = (a.compare op b).map (!·) := by
  by_cases hkind : a.kind = b.kind
  · have hordering (hop : op.IsOrdering) :
        a.compare op.complement b = (a.compare op b).map (!·) := by
      rw [compare_of_isOrdering hop.complement hkind, compare_of_isOrdering hop hkind]
      cases order a.kind a.text b.text with
      | error cause => rfl
      | ok o => exact congrArg _ (Comparison.admits_complement op o)
    obtain ⟨hequal, hnotEqual⟩ := compare_equality hkind
    cases op with
    | equal =>
      rw [Comparison.complement, hequal, hnotEqual]
      rfl
    | notEqual =>
      rw [Comparison.complement, hequal, hnotEqual]
      exact congrArg _ (Bool.not_not _).symm
    | _ => exact hordering ⟨nofun, nofun⟩
  · rw [compare_of_ne hkind, compare_of_ne hkind]
    rfl

theorem compare_eq_order_error_iff (hop : op.IsOrdering) (hkind : a.kind = b.kind) {cause : Cause} :
    a.compare op b = .error cause ↔ order a.kind a.text b.text = .error cause := by
  rw [compare_of_isOrdering hop hkind]
  cases order a.kind a.text b.text <;> simp [Except.map]

theorem compare_eq_kindMismatch_iff :
    a.compare op b = .error .kindMismatch ↔ a.kind ≠ b.kind := by
  refine ⟨fun h hkind => ?_, fun hkind => compare_of_ne hkind op⟩
  have hordering (hop : op.IsOrdering) : False := by
    cases origin_of_order ((compare_eq_order_error_iff hop hkind).1 h)
  obtain ⟨hequal, hnotEqual⟩ := compare_equality hkind
  cases op with
  | equal => cases hequal.symm.trans h
  | notEqual => cases hnotEqual.symm.trans h
  | _ => exact hordering ⟨nofun, nofun⟩

structure Coherent (a b c : Value) : Prop where
  /-- Comparing values of different kinds fails for that cause, and nothing else does. -/
  mismatch (op : Comparison) : a.compare op b = .error .kindMismatch ↔ a.kind ≠ b.kind
  equality : a.kind = b.kind →
    a.compare .equal b = .ok (a.text == b.text) ∧ a.compare .notEqual b = .ok (a.text != b.text)
  /-- Only a text of numeric kind that writes no number, or NaN, cannot be ordered. -/
  failure (op : Comparison) : op.IsOrdering → a.kind = b.kind →
    ((∃ cause, a.compare op b = .error cause) ↔
      a.kind = .num ∧ (¬ WritesNumber a.text ∨ ¬ WritesNumber b.text))
  together (op op' : Comparison) (cause : Cause) : op.IsOrdering → op'.IsOrdering →
    (a.compare op b = .error cause ↔ a.compare op' b = .error cause)
  swap (holds : Bool) : a.compare .less b = .ok holds ↔ b.compare .greater a = .ok holds
  complement (op : Comparison) : a.compare op.complement b = (a.compare op b).map (!·)
  total : (∃ holds, a.compare .lessEqual b = .ok holds) →
    a.compare .lessEqual b = .ok true ∨ b.compare .lessEqual a = .ok true
  trans : a.compare .lessEqual b = .ok true → b.compare .lessEqual c = .ok true →
    a.compare .lessEqual c = .ok true

theorem exists_error_iff (hop : op.IsOrdering) (hkind : a.kind = b.kind) :
    (∃ cause, a.compare op b = .error cause) ↔
      a.kind = .num ∧ (¬ WritesNumber a.text ∨ ¬ WritesNumber b.text) := by
  have hfails : (∃ cause, a.compare op b = .error cause) ↔
      ¬ ∃ holds, a.compare op b = .ok holds := by
    cases a.compare op b <;> simp
  rw [hfails, exists_compare_eq_ok_iff hop hkind, Classical.not_imp, not_and_or]

theorem error_iff_error {op' : Comparison} {cause : Cause} (hop : op.IsOrdering)
    (hop' : op'.IsOrdering) : a.compare op b = .error cause ↔ a.compare op' b = .error cause := by
  by_cases hkind : a.kind = b.kind
  · rw [compare_eq_order_error_iff hop hkind, compare_eq_order_error_iff hop' hkind]
  · rw [compare_of_ne hkind, compare_of_ne hkind]

theorem less_iff_greater {holds : Bool} :
    a.compare .less b = .ok holds ↔ b.compare .greater a = .ok holds := by
  rw [compare_eq_ok_iff .less ⟨nofun, nofun⟩, compare_eq_ok_iff .greater ⟨nofun, nofun⟩]
  constructor
  · rintro ⟨kind, p, q, ha, hb, hp, hq, hholds⟩
    exact ⟨kind, q, p, hb, ha, hq, hp, hholds⟩
  · rintro ⟨kind, q, p, hb, ha, hq, hp, hholds⟩
    exact ⟨kind, p, q, ha, hb, hp, hq, hholds⟩

theorem lessEqual_iff :
    a.compare .lessEqual b = .ok true ↔
      ∃ kind p q, a.kind = kind ∧ b.kind = kind ∧ place? kind a.text = some p ∧
        place? kind b.text = some q ∧ p ≤ q := by
  rw [compare_eq_ok_iff .lessEqual ⟨nofun, nofun⟩]
  simp only [Comparison.Relates, true_iff]

theorem lessEqual_total (h : ∃ holds, a.compare .lessEqual b = .ok holds) :
    a.compare .lessEqual b = .ok true ∨ b.compare .lessEqual a = .ok true := by
  obtain ⟨holds, h⟩ := h
  obtain ⟨kind, p, q, ha, hb, hp, hq, -⟩ := (compare_eq_ok_iff .lessEqual ⟨nofun, nofun⟩).1 h
  rw [lessEqual_iff, lessEqual_iff]
  refine (le_total p q).imp ?_ ?_
  · intro hle
    exact ⟨kind, p, q, ha, hb, hp, hq, hle⟩
  · intro hle
    exact ⟨kind, q, p, hb, ha, hq, hp, hle⟩

theorem lessEqual_trans (hab : a.compare .lessEqual b = .ok true)
    (hbc : b.compare .lessEqual c = .ok true) : a.compare .lessEqual c = .ok true := by
  obtain ⟨kind, p, q, ha, hb, hp, hq, hpq⟩ := lessEqual_iff.1 hab
  obtain ⟨kind', q', r, hb', hc, hq', hr, hqr⟩ := lessEqual_iff.1 hbc
  obtain rfl : kind = kind' := hb.symm.trans hb'
  obtain rfl : q = q' := Option.some.inj (hq.symm.trans hq')
  exact lessEqual_iff.2 ⟨kind, p, r, ha, hc, hp, hr, hpq.trans hqr⟩

theorem coherent (a b c : Value) : Coherent a b c where
  mismatch _ := compare_eq_kindMismatch_iff
  equality := compare_equality
  failure _ := exists_error_iff
  together _ _ _ := error_iff_error
  swap _ := less_iff_greater
  complement := compare_complement a b
  total := lessEqual_total
  trans := lessEqual_trans

/-- What the comparisons of two strings have to do with their texts and with the builtin that
compares strings. -/
structure CoherentTexts (s t : String) : Prop where
  antisymm : (string s).compare .lessEqual (string t) = .ok true →
    (string t).compare .lessEqual (string s) = .ok true →
    (string s).compare .equal (string t) = .ok true
  less : (string s).compare .less (string t) = .ok true ↔ Text.scalars s < Text.scalars t
  lessEqual : (string s).compare .lessEqual (string t) = .ok true ↔ Text.scalars s ≤ Text.scalars t
  bytes : Text.bytes s < Text.bytes t ↔ Text.scalars s < Text.scalars t
  builtin (m : Machine) : ∃ text,
    Builtin.call .strcmp [string s, string t] m = .done (some (number text)) m ∧
      text ∈ ["-1", "0", "1"] ∧
      (text = "-1" ↔ (string s).compare .less (string t) = .ok true) ∧
      (text = "0" ↔ (string s).compare .equal (string t) = .ok true) ∧
      (text = "1" ↔ (string s).compare .greater (string t) = .ok true)

theorem orderTexts_compares (s t : String) : (orderTexts s t).Compares s t :=
  (compare_iff s t).1 rfl

/-- On strings equality is part of the order. -/
theorem compare_string (s t : String) (op : Comparison) :
    (string s).compare op (string t) = .ok (op.admits (orderTexts s t)) := by
  have hequal : (s == t) = (orderTexts s t == .eq) := by
    rw [Bool.eq_iff_iff, beq_iff_eq, beq_iff_eq, (orderTexts_compares s t).eq_eq]
  cases op with
  | equal => exact congrArg _ hequal
  | notEqual => exact congrArg (fun same => Except.ok !same) hequal
  | _ => exact compare_of_isOrdering ⟨nofun, nofun⟩ rfl

theorem compare_string_iff {s t : String} {op : Comparison} :
    (string s).compare op (string t) = .ok true ↔ op.Relates s t := by
  rw [compare_string, Except.ok.injEq, Comparison.admits_iff_relates (orderTexts_compares s t)]

theorem coherentTexts (s t : String) : CoherentTexts s t where
  antisymm := by
    rw [compare_string_iff, compare_string_iff, compare_string_iff]
    exact le_antisymm
  less := compare_string_iff.trans Text.scalars_lt_iff.symm
  lessEqual :=
    compare_string_iff.trans (not_lt.symm.trans (Text.scalars_lt_iff.not.symm.trans not_lt))
  bytes := Text.bytes_lt_iff.trans Text.scalars_lt_iff.symm
  builtin m := by
    refine ⟨Builtin.orderText (orderTexts s t), rfl, ?_⟩
    rw [compare_string, compare_string, compare_string]
    cases orderTexts s t <;> simp [Builtin.orderText, Comparison.admits]

end Value

/-- A negated comparison is a test for the complementary one. -/
theorem test_negated (l r : Operand) (op : Comparison) :
    Run.test ⟨true, .compares l op r⟩ = Run.test ⟨false, .compares l op.complement r⟩ := by
  refine bind_congr fun _ => bind_congr fun x => bind_congr fun y => bind_congr fun _ => ?_
  rw [Value.compare_complement]
  cases x.compare op y with
  | error cause => rfl
  | ok holds => simp [Run.lift, Except.map]

/-- The comparisons cohere with each other, on strings with the order of texts and the builtin for
it, and with the negation of a test. -/
theorem comparisons_are_coherent :
    (∀ a b c : Value, Value.Coherent a b c) ∧ (∀ s t : String, Value.CoherentTexts s t) ∧
      ∀ (l r : Operand) (op : Comparison),
        Run.test ⟨true, .compares l op r⟩ = Run.test ⟨false, .compares l op.complement r⟩ :=
  ⟨Value.coherent, Value.coherentTexts, test_negated⟩

/-- UTF-16 code units would order the two texts the other way. -/
theorem tilde_before_emoji :
    Text.bytes "～" < Text.bytes "😀" ∧
      (Value.string "～").compare .less (Value.string "😀") = .ok true ∧
      (Value.string "z").compare .lessEqual (Value.string "😀") = .ok true ∧
      ∃ cause, (Value.number " NaN").compare .greater (Value.number "1") = .error cause := by
  obtain ⟨hvalues, htexts, -⟩ := comparisons_are_coherent
  have hscalars : Text.scalars "～" < Text.scalars "😀" := by decide
  have hz : Text.scalars "z" ≤ Text.scalars "～" := by decide
  have hnan : ¬ WritesNumber " NaN" := by
    rintro ⟨x, hx, hne⟩
    have hread : Number.ofText? (Text.trim " NaN") = some .nan := by rfl
    exact hne (Option.some.inj (hx.symm.trans hread))
  refine ⟨(htexts _ _).bytes.2 hscalars, (htexts _ _).less.2 hscalars, ?_, ?_⟩
  · exact (hvalues _ (.string "～") _).trans ((htexts _ _).lessEqual.2 hz)
      ((htexts _ _).lessEqual.2 hscalars.le)
  · have hlaws := hvalues (.number " NaN") (.number "1") (.number "1")
    exact (hlaws.failure .greater ⟨nofun, nofun⟩ rfl).2 ⟨rfl, .inl hnan⟩

end ApiScript
