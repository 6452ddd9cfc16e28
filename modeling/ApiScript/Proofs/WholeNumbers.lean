import ApiScript.Proofs.TokenSpelling
import ApiScript.Value.Comparison
import Mathlib.Order.Compare

/-!
# Whole numbers

The whole numbers up to `2 ^ 53` are numbers of the script language, each of them exactly. They are
read from their digits, ordered, counted up by one and written in digits again, with nothing lost.
-/
namespace ApiScript

namespace Number

/-- Up to here every whole number is a number. -/
def wholeLimit : Nat := 2 ^ 53

def ofWhole (n : Nat) : Number := ofUnits false (n * unitsOfOne) 1

section Rounding

theorem roundQuotient_of_dvd {num den : Nat} (hden : 0 < den) (h : den ∣ num) :
    roundQuotient num den = num / den := by
  rw [roundQuotient, Nat.mod_eq_zero_of_dvd h]
  simp [hden]

/-- A rounded quotient is at most half of the divisor too small. -/
theorem le_roundQuotient_mul (num : Nat) {den : Nat} (hden : 0 < den) :
    2 * num ≤ 2 * (roundQuotient num den * den) + den := by
  have hdiv := Nat.div_add_mod num den
  have hmod := Nat.mod_lt num hden
  rw [Nat.mul_comm] at hdiv
  unfold roundQuotient
  dsimp only
  split
  · next hdown => omega
  · next hup =>
    rw [Nat.add_one_mul (num / den)]
    omega

theorem spacing_pos (count : Nat) : 0 < spacing count := Nat.pow_pos Nat.two_pos

theorem nearestUnits_of_spacing_dvd {count : Nat} (h : spacing count ∣ count) :
    nearestUnits count 1 = count := by
  rw [nearestUnits, Nat.div_one, Nat.one_mul, roundQuotient_of_dvd (spacing_pos count) h,
    Nat.div_mul_cancel h]

/-- A whole number up to the limit has no digits beyond the spacing, whatever the unit. -/
theorem spacing_dvd {n : Nat} (h : n ≤ wholeLimit) (e : Nat) : spacing (n * 2 ^ e) ∣ n * 2 ^ e := by
  rcases Nat.lt_or_eq_of_le h with hlt | rfl
  · refine Nat.dvd_trans (Nat.pow_dvd_pow 2 ?_) (Nat.dvd_mul_left _ _)
    by_cases hzero : n * 2 ^ e = 0
    · simp [hzero]
    · have hsize : n * 2 ^ e < 2 ^ (53 + e) := by
        rw [Nat.pow_add]
        exact Nat.mul_lt_mul_of_pos_right hlt (Nat.two_pow_pos e)
      have hlog := (Nat.log2_lt hzero).2 hsize
      omega
  · have hpower : wholeLimit * 2 ^ e = 2 ^ (53 + e) := (Nat.pow_add 2 53 e).symm
    rw [hpower, spacing, Nat.log2_two_pow]
    exact Nat.pow_dvd_pow 2 (by omega)

/-- Rounding to 53 bits takes away at most the `2 ^ 53`th part. -/
theorem le_nearestUnits {count : Nat} (h : 2 ^ 52 ≤ count) :
    (2 ^ 53 - 1) * count ≤ 2 ^ 53 * nearestUnits count 1 := by
  have hzero : count ≠ 0 := by omega
  have hlog : 52 ≤ count.log2 := (Nat.le_log2 hzero).2 h
  have hspacing : spacing count * 2 ^ 52 ≤ count := by
    have hpower : spacing count * 2 ^ 52 = 2 ^ count.log2 := by
      rw [spacing]
      exact (Nat.pow_add 2 _ 52).symm.trans (by rw [Nat.sub_add_cancel hlog])
    rw [hpower]
    exact Nat.log2_self_le hzero
  have hround := le_roundQuotient_mul count (spacing_pos count)
  rw [nearestUnits, Nat.div_one, Nat.one_mul]
  omega

end Rounding

/-- One is this power of two in units. -/
@[irreducible]
def oneExponent : Nat := 1074

theorem oneExponent_eq : oneExponent = 1074 := by rw [oneExponent]

theorem unitsOfOne_eq : unitsOfOne = 2 ^ oneExponent := by
  unfold unitsOfOne
  rw [← oneExponent_eq]
  rfl

theorem unitsOfOne_pos : 0 < unitsOfOne := by
  rw [unitsOfOne_eq]
  exact Nat.two_pow_pos _

theorem wholeLimit_mul_lt : wholeLimit * unitsOfOne < unitsLimit := by
  have hlimit : unitsLimit = 2 ^ (1024 + oneExponent) := by
    have hexponent : 1024 + oneExponent = 2098 := by rw [oneExponent_eq]
    unfold unitsLimit
    rw [← hexponent]
    rfl
  have hwhole : wholeLimit * 2 ^ oneExponent = 2 ^ (53 + oneExponent) := (Nat.pow_add 2 53 _).symm
  rw [unitsOfOne_eq, hlimit, hwhole]
  exact Nat.pow_lt_pow_right (by decide) (by omega)

theorem nearestUnits_whole {n : Nat} (h : n ≤ wholeLimit) :
    nearestUnits (n * unitsOfOne) 1 = n * unitsOfOne := by
  apply nearestUnits_of_spacing_dvd
  rw [unitsOfOne_eq]
  exact spacing_dvd h oneExponent

theorem ofWhole_eq {n : Nat} (h : n ≤ wholeLimit) : ofWhole n = .finite (n * unitsOfOne : Nat) := by
  have hlimit : n * unitsOfOne < unitsLimit :=
    Nat.lt_of_le_of_lt (Nat.mul_le_mul_right _ h) wholeLimit_mul_lt
  rw [ofWhole, ofUnits]
  simp only [nearestUnits_whole h, if_pos hlimit, Bool.false_eq_true, if_false]

/-- Only the successor of the limit is read as another whole number up to the limit. -/
theorem eq_of_ofWhole_eq {w n : Nat} (hn : n ≤ wholeLimit) (hw : w ≠ wholeLimit + 1)
    (h : ofWhole w = ofWhole n) : w = n := by
  have hunits : nearestUnits (w * unitsOfOne) 1 = n * unitsOfOne := by
    rw [ofWhole_eq hn, ofWhole, ofUnits] at h
    split at h
    · exact Int.ofNat.inj (Number.finite.inj h)
    · cases h
  rcases Nat.lt_or_ge wholeLimit w with hbig | hsmall
  · have hcount : 2 ^ 52 ≤ w * unitsOfOne := by
      have hone := Nat.mul_le_mul hbig unitsOfOne_pos
      exact Nat.le_trans (by decide) hone
    have hlost := le_nearestUnits hcount
    rw [hunits, ← Nat.mul_assoc, ← Nat.mul_assoc] at hlost
    have hratio := Nat.le_of_mul_le_mul_right hlost unitsOfOne_pos
    simp only [wholeLimit] at *
    omega
  · rw [nearestUnits_whole hsmall] at hunits
    exact Nat.eq_of_mul_eq_mul_right unitsOfOne_pos hunits

theorem compare?_ofWhole {a b : Nat} (ha : a ≤ wholeLimit) (hb : b ≤ wholeLimit) :
    (ofWhole a).compare? (ofWhole b) = some (compare a b) := by
  have hmono : StrictMono fun n : Nat => ((n * unitsOfOne : Nat) : Int) := fun x y hlt =>
    Int.ofNat_lt.2 (Nat.mul_lt_mul_of_pos_right hlt unitsOfOne_pos)
  have hunits := hmono.cmp_map_eq a b
  rw [cmp_eq_compare, cmp_eq_compare] at hunits
  rw [ofWhole_eq ha, ofWhole_eq hb, compare?, hunits]

theorem offset_ofWhole {n : Nat} (h : n < wholeLimit) : (ofWhole n).offset 1 = ofWhole (n + 1) := by
  have hsum : ((n * unitsOfOne : Nat) : Int) + 1 * unitsOfOne = ((n + 1) * unitsOfOne : Nat) := by
    push_cast
    ring
  have hsign : decide (((n + 1) * unitsOfOne : Nat) < (0 : Int)) = false :=
    decide_eq_false (Int.not_lt.2 (Int.natCast_nonneg _))
  rw [ofWhole_eq h.le, offset, hsum, hsign, Int.natAbs_natCast]
  rfl

section Text

/-- Digits that are tried up to a grid on which one of them is found. -/
theorem findSome?_range {α : Type} {f : Nat → Option α} {k bound : Nat} (hk : k < bound)
    (hf : (f k).isSome = true) :
    ∃ j ≤ k, ∃ a, f j = some a ∧ (List.range bound).findSome? f = some a := by
  obtain ⟨rest, rfl⟩ := Nat.exists_eq_add_of_lt hk
  have hfront : ((List.range (k + 1)).findSome? f).isSome = true :=
    List.findSome?_isSome_iff.2 ⟨k, List.mem_range.2 k.lt_succ_self, hf⟩
  obtain ⟨a, ha⟩ := Option.isSome_iff_exists.1 hfront
  obtain ⟨j, hj, hfound⟩ := List.exists_of_findSome?_eq_some ha
  refine ⟨j, Nat.le_of_lt_succ (List.mem_range.1 hj), a, hfound, ?_⟩
  have hsplit : k + rest + 1 = (k + 1) + rest := by omega
  rw [hsplit, List.range_add, List.findSome?_append, ha, Option.some_or]

theorem toNumber_of_nonneg (digits zeros : Nat) :
    (Decimal.mk digits zeros).toNumber false = ofWhole (digits * 10 ^ zeros) := by
  simp [Decimal.toNumber, ofWhole]

theorem readsBack_iff {n : Nat} (hn : n ≤ wholeLimit) (digits zeros : Nat) :
    readsBack (n * unitsOfOne) ⟨digits, zeros⟩ = true ↔
      ofWhole (digits * 10 ^ zeros) = ofWhole n := by
  rw [readsBack, toNumber_of_nonneg, ofWhole_eq hn, beq_iff_eq]

theorem neighbours_of_nonneg (n zeros : Nat) :
    neighbours (n * unitsOfOne) zeros =
      let lower : Decimal := ⟨n / 10 ^ zeros, zeros⟩
      let upper : Decimal := ⟨n / 10 ^ zeros + 1, zeros⟩
      if 2 * (n % 10 ^ zeros) < 10 ^ zeros then [lower, upper] else [upper, lower] := by
  have hnum : n * unitsOfOne * Nat.pow 10 (-(zeros : Int)).toNat = n * unitsOfOne := by simp
  have hden : unitsOfOne * Nat.pow 10 (zeros : Int).toNat = 10 ^ zeros * unitsOfOne := by
    rw [Int.toNat_natCast, Nat.mul_comm]
    rfl
  have hless : 2 * (n % 10 ^ zeros * unitsOfOne) < 10 ^ zeros * unitsOfOne ↔
      2 * (n % 10 ^ zeros) < 10 ^ zeros := by
    rw [← Nat.mul_assoc, Nat.mul_lt_mul_right unitsOfOne_pos]
  simp only [neighbours, hnum, hden, Nat.mul_div_mul_right _ _ unitsOfOne_pos,
    Nat.mul_mod_mul_right, hless]

theorem exponent_of_mem_neighbours {units : Nat} {exponent : Int} {d : Decimal}
    (h : d ∈ neighbours units exponent) : d.exponent = exponent := by
  unfold neighbours at h
  dsimp only at h
  split at h
  · simp only [List.mem_cons, List.not_mem_nil, or_false] at h
    rcases h with rfl | rfl <;> rfl
  · simp only [List.mem_cons, List.not_mem_nil, or_false] at h
    rcases h with rfl | rfl <;> rfl

theorem find?_neighbours_zero {n : Nat} (hn : n ≤ wholeLimit) :
    (neighbours (n * unitsOfOne) (0 : Nat)).find? (readsBack (n * unitsOfOne)) =
      some ⟨n, (0 : Nat)⟩ := by
  have hself : readsBack (n * unitsOfOne) ⟨n, (0 : Nat)⟩ = true :=
    (readsBack_iff hn n 0).2 (by simp)
  rw [neighbours_of_nonneg]
  simp only [Nat.pow_zero, Nat.mod_one, Nat.div_one, Nat.mul_zero, Nat.one_pos, if_true]
  exact List.find?_cons_of_pos hself

/-- A multiple of a power of ten that is found to read back is the number itself. -/
theorem eq_of_find?_neighbours {n zeros : Nat} (hn : n ≤ wholeLimit) {d : Decimal}
    (h : (neighbours (n * unitsOfOne) zeros).find? (readsBack (n * unitsOfOne)) = some d) :
    d.exponent = zeros ∧ d.digits * 10 ^ zeros = n := by
  cases zeros with
  | zero =>
    rw [find?_neighbours_zero hn] at h
    cases h
    exact ⟨rfl, by simp⟩
  | succ zeros =>
    obtain ⟨digits, exponent⟩ := d
    obtain rfl : exponent = (zeros + 1 : Nat) :=
      exponent_of_mem_neighbours (List.mem_of_find?_eq_some h)
    have hread := (readsBack_iff hn digits (zeros + 1)).1 (List.find?_some h)
    -- the one other number that reads as the limit is no multiple of ten
    have hten : digits * 10 ^ (zeros + 1) ≠ wholeLimit + 1 := by
      rw [Nat.pow_succ, ← Nat.mul_assoc, wholeLimit]
      omega
    exact ⟨rfl, eq_of_ofWhole_eq hn hten hread⟩

theorem coarsest_whole {n : Nat} (hn : n ≤ wholeLimit) (hpos : 0 < n) :
    ∃ k < 20, coarsest (n * unitsOfOne) = (k : Nat) := by
  have hzero : n * unitsOfOne ≠ 0 := (Nat.mul_pos hpos unitsOfOne_pos).ne'
  have hlow : oneExponent ≤ (n * unitsOfOne).log2 := by
    rw [Nat.le_log2 hzero, ← unitsOfOne_eq]
    exact Nat.le_mul_of_pos_left _ hpos
  have hhigh : (n * unitsOfOne).log2 < 54 + oneExponent := by
    rw [Nat.log2_lt hzero, Nat.pow_add, ← unitsOfOne_eq]
    exact Nat.mul_lt_mul_of_pos_right (Nat.lt_of_le_of_lt hn (by decide)) unitsOfOne_pos
  rw [oneExponent_eq] at hlow hhigh
  have hrange : 0 ≤ coarsest (n * unitsOfOne) ∧ coarsest (n * unitsOfOne) < 20 := by
    rw [coarsest]
    omega
  exact ⟨(coarsest (n * unitsOfOne)).toNat, by omega, by omega⟩

theorem shortest_whole {n : Nat} (hn : n ≤ wholeLimit) :
    ∃ digits zeros : Nat,
      shortest (n * unitsOfOne) = ⟨digits, zeros⟩ ∧ digits * 10 ^ zeros = n := by
  rcases Nat.eq_zero_or_pos n with rfl | hpos
  · exact ⟨0, 0, by simp [shortest], rfl⟩
  · obtain ⟨k, hk, hcoarsest⟩ := coarsest_whole hn hpos
    have hgrid {j : Nat} (hj : j ≤ k) : ((k : Nat) : Int) - (j : Nat) = (k - j : Nat) := by omega
    let tried (j : Nat) :=
      (neighbours (n * unitsOfOne) ((k : Nat) - (j : Nat))).find? (readsBack (n * unitsOfOne))
    have hone : (tried k).isSome = true := by
      have hzero : ((k : Nat) : Int) - (k : Nat) = (0 : Nat) := by omega
      simp only [tried, hzero, find?_neighbours_zero hn]
      rfl
    obtain ⟨j, hj, d, hd, hfound⟩ := findSome?_range hk hone
    simp only [tried, hgrid hj] at hd
    obtain ⟨hexponent, hvalue⟩ := eq_of_find?_neighbours hn hd
    refine ⟨d.digits, k - j, ?_, hvalue⟩
    have hne : n * unitsOfOne ≠ 0 := (Nat.mul_pos hpos unitsOfOne_pos).ne'
    rw [shortest, if_neg hne, hcoarsest]
    change ((List.range 20).findSome? tried).getD _ = _
    rw [hfound, Option.getD_some, ← hexponent]

/-- A whole number up to the limit is written in its digits, without a point or an exponent. -/
theorem toText_ofWhole {n : Nat} (hn : n ≤ wholeLimit) : (ofWhole n).toText = Nat.repr n := by
  obtain ⟨digits, zeros, hshortest, hvalue⟩ := shortest_whole hn
  have hsign : ¬ ((n * unitsOfOne : Nat) : Int) < 0 := Int.not_lt.2 (Int.natCast_nonneg _)
  rw [ofWhole_eq hn, toText, if_neg hsign, Int.natAbs_natCast, hshortest]
  change toString (digits * 10 ^ zeros) = _
  rw [hvalue]
  rfl

end Text

end Number

namespace Numeral

theorem decimal?_of_isDigit {ds : List Char} (hne : ds ≠ [])
    (hdigits : ∀ c ∈ ds, c.isDigit = true) : decimal? ds = some ⟨digitsValue ds, 0⟩ := by
  have htake : (ds ++ []).takeWhile Char.isDigit = ds ++ [] :=
    List.takeWhile_append_of_pos hdigits
  have hdrop : (ds ++ []).dropWhile Char.isDigit = [] := List.dropWhile_append_of_pos hdigits
  rw [List.append_nil] at htake hdrop
  simp [decimal?, htake, hdrop, hne, suffix?]

theorem decimal?_repr (n : Nat) : decimal? (Nat.repr n).toList = some ⟨n, 0⟩ := by
  rw [decimal?_of_isDigit (repr_ne_nil n) (isDigit_repr n), digitsValue_repr]

theorem unsigned?_repr (n : Nat) :
    unsigned? false (Nat.repr n).toList = some (.decimal false ⟨n, 0⟩) := by
  obtain ⟨numeral, hnumeral⟩ :=
    Option.isSome_iff_exists.1 ((positional_repr n).isSome_unsigned? false)
  rcases unsigned?_cases hnumeral with hletters | ⟨d, hd, rfl⟩
  · obtain ⟨c, rest, hcons, hdigit⟩ := (positional_repr n).exists_cons
    have hletter := hletters c (by simp [hcons])
    have hrange := toNat_of_isDigit hdigit
    omega
  · rw [decimal?_repr] at hd
    cases hd
    exact hnumeral

theorem ofChars?_repr (n : Nat) :
    ofChars? (Nat.repr n).toList = some (.decimal false ⟨n, 0⟩) := by
  have hsign {c : Char} (hc : c.isDigit = false) (cs : List Char) :
      (Nat.repr n).toList ≠ c :: cs := by
    intro hcs
    have hdigit := isDigit_repr n c (by simp [hcs])
    rw [hc] at hdigit
    cases hdigit
  rw [ofChars?.eq_3 _ (hsign rfl) (hsign rfl)]
  exact unsigned?_repr n

end Numeral

theorem Number.ofText?_repr (n : Nat) : ofText? (Nat.repr n) = some (ofWhole n) := by
  rw [ofText?, Numeral.ofChars?_repr, Option.map_some, Numeral.toNumber]
  simp [Decimal.toNumber, ofWhole]

namespace Value

theorem numberOf_repr (n : Nat) : numberOf (Nat.repr n) = .ok (Number.ofWhole n) := by
  have hvisible : ∀ c ∈ (Nat.repr n).toList, IsVisible c := fun c hc =>
    isVisible_of_isDigit (isDigit_repr n c hc)
  rw [numberOf, Text.trim_of_visible hvisible, Number.ofText?_repr]

theorem orderNumbers_of_numberOf {l r : String} {x y : Number} {o : Ordering}
    (hl : numberOf l = .ok x) (hr : numberOf r = .ok y) (ho : x.compare? y = some o) :
    orderNumbers l r = .ok o := by
  rw [orderNumbers, hl, hr]
  simp [bind, Except.bind, ho]

theorem compare_less_repr {a b : Nat} (ha : a ≤ Number.wholeLimit) (hb : b ≤ Number.wholeLimit) :
    (number (Nat.repr a)).compare .less (number (Nat.repr b)) = .ok (decide (a < b)) := by
  have hlt : Comparison.less.admits (Ord.compare a b) = decide (a < b) := by
    rw [Comparison.admits, Bool.eq_iff_iff, beq_iff_eq, decide_eq_true_iff]
    exact Nat.compare_eq_lt
  have hnumbers : (number (Nat.repr a)).compare .less (number (Nat.repr b)) =
      (orderNumbers (Nat.repr a) (Nat.repr b)).map Comparison.less.admits := rfl
  rw [hnumbers, orderNumbers_of_numberOf (numberOf_repr a) (numberOf_repr b)
    (Number.compare?_ofWhole ha hb), Except.map, hlt]

end Value

end ApiScript
