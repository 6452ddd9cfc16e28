import ApiScript.Number.Numeral
import ApiScript.Number.Shortest
import ApiScript.Text.Blank
import Mathlib.Data.Nat.Digits.Defs

/-!
# The texts of numbers

A text that writes a number has no blanks, and what counts as numeric in a script writes a number
other than NaN. Any number other than NaN is written in such a text, or as an infinity.
-/
namespace ApiScript

def IsVisible (c : Char) : Prop := 33 ≤ c.toNat ∧ c.toNat < 127

instance : DecidablePred IsVisible := fun c =>
  inferInstanceAs (Decidable (33 ≤ c.toNat ∧ c.toNat < 127))

theorem IsVisible.isBlank {c : Char} (h : IsVisible c) : Text.isBlank c = false := by
  obtain ⟨hlow, hhigh⟩ := h
  simp only [Text.isBlank, Text.blankRanges, Text.covers]
  rw [if_neg (by omega), if_neg (by omega), if_neg (by omega), if_neg (by omega),
    if_pos (by omega)]

theorem toNat_of_isDigit {c : Char} (h : c.isDigit = true) : 48 ≤ c.toNat ∧ c.toNat ≤ 57 :=
  Char.isDigit_iff_toNat.1 h

theorem isVisible_of_isDigit {c : Char} (h : c.isDigit = true) : IsVisible c := by
  have hrange := toNat_of_isDigit h
  exact ⟨by omega, by omega⟩

theorem toNat_toLower (c : Char) :
    c.toNat ≤ c.toLower.toNat ∧ c.toLower.toNat ≤ c.toNat + 32 := by
  unfold Char.toLower
  split
  · next h =>
    have hlow : 65 ≤ c.val.toNat := UInt32.le_iff_toNat_le.1 h.1
    have hhigh : c.val.toNat ≤ 90 := UInt32.le_iff_toNat_le.1 h.2
    have hsum : (c.val + ('a'.val - 'A'.val)).toNat = c.val.toNat + 32 := by
      rw [UInt32.toNat_add]
      exact Nat.mod_eq_of_lt (by change c.val.toNat + 32 < 2 ^ 32; omega)
    simp only [Char.toNat, hsum]
    omega
  · omega

/-- A character that is a small letter in lower case is a letter. -/
theorem toNat_of_toLower {c : Char} (hlow : 97 ≤ c.toLower.toNat) (hhigh : c.toLower.toNat ≤ 122) :
    65 ≤ c.toNat ∧ c.toNat ≤ 122 := by
  have hlower := toNat_toLower c
  omega

namespace Text

theorem dropWhile_isBlank {cs : List Char} (h : ∀ c ∈ cs, IsVisible c) :
    cs.dropWhile isBlank = cs := by
  cases cs with
  | nil => rfl
  | cons c rest => simp [(h c List.mem_cons_self).isBlank]

theorem trim_of_visible {text : String} (h : ∀ c ∈ text.toList, IsVisible c) : trim text = text := by
  have hreverse : ∀ c ∈ text.toList.reverse, IsVisible c := by simpa using h
  rw [trim, trimChars, dropWhile_isBlank h, dropWhile_isBlank hreverse, List.reverse_reverse,
    String.ofList_toList]

end Text

namespace Numeral

variable {cs : List Char}

theorem visible_of_digitsOnly? {ds : List Char} (h : digitsOnly? cs = some ds) :
    ∀ c ∈ cs, IsVisible c := by
  unfold digitsOnly? at h
  split at h
  · next hdigits =>
    intro c hc
    exact isVisible_of_isDigit (List.all_eq_true.1 hdigits.2 c hc)
  · cases h

theorem visible_of_exponent? {e : Int} (h : exponent? cs = some e) : ∀ c ∈ cs, IsVisible c := by
  have hdigits {ds : List Char} {f : List Char → Int} (h : (digitsOnly? ds).map f = some e) :
      ∀ c ∈ ds, IsVisible c := by
    obtain ⟨digits, hds, -⟩ := Option.map_eq_some_iff.1 h
    exact visible_of_digitsOnly? hds
  unfold exponent? at h
  split at h
  · exact List.forall_mem_cons.2 ⟨by decide, hdigits h⟩
  · exact List.forall_mem_cons.2 ⟨by decide, hdigits h⟩
  · exact hdigits h

theorem visible_of_suffix? {e : Int} (h : suffix? cs = some e) : ∀ c ∈ cs, IsVisible c := by
  unfold suffix? at h
  split at h
  · exact nofun
  · exact List.forall_mem_cons.2 ⟨by decide, visible_of_exponent? h⟩
  · exact List.forall_mem_cons.2 ⟨by decide, visible_of_exponent? h⟩
  · cases h

theorem visible_of_takeWhile (h : ∀ c ∈ cs.dropWhile Char.isDigit, IsVisible c) :
    ∀ c ∈ cs, IsVisible c := by
  intro c hc
  rw [← List.takeWhile_append_dropWhile (p := Char.isDigit) (l := cs)] at hc
  rcases List.mem_append.1 hc with hc | hc
  · exact isVisible_of_isDigit (List.all_eq_true.1 List.all_takeWhile c hc)
  · exact h c hc

theorem visible_of_decimal? {d : Decimal} (h : decimal? cs = some d) : ∀ c ∈ cs, IsVisible c := by
  unfold decimal? at h
  refine visible_of_takeWhile ?_
  generalize cs.takeWhile Char.isDigit = whole at h
  generalize cs.dropWhile Char.isDigit = rest at h
  have hsuffix {digits rest : List Char} {f : Int → Decimal}
      (h : (if digits = [] then none else (suffix? rest).map f) = some d) :
      ∀ c ∈ rest, IsVisible c := by
    split at h
    · cases h
    · obtain ⟨e, he, -⟩ := Option.map_eq_some_iff.1 h
      exact visible_of_suffix? he
  dsimp only at h
  split at h
  · exact List.forall_mem_cons.2 ⟨by decide, visible_of_takeWhile (hsuffix h)⟩
  · exact hsuffix h

/-- What is a word of small letters in lower case is written in letters. -/
theorem letter_of_toLower {word : List Char} (hword : cs.map Char.toLower = word)
    (hletters : (word.all fun c => decide (97 ≤ c.toNat ∧ c.toNat ≤ 122)) = true) :
    ∀ c ∈ cs, 65 ≤ c.toNat ∧ c.toNat ≤ 122 := by
  intro c hc
  have hmem : c.toLower ∈ word := hword ▸ List.mem_map_of_mem hc
  have hlower := of_decide_eq_true (List.all_eq_true.1 hletters c.toLower hmem)
  exact toNat_of_toLower hlower.1 hlower.2

theorem unsigned?_cases {negative : Bool} {n : Numeral} (h : unsigned? negative cs = some n) :
    (∀ c ∈ cs, 65 ≤ c.toNat ∧ c.toNat ≤ 122) ∨
      ∃ d, decimal? cs = some d ∧ n = .decimal negative d := by
  unfold unsigned? at h
  dsimp only at h
  split at h
  · next hword => exact .inl (letter_of_toLower hword rfl)
  split at h
  · next hword =>
    refine .inl ?_
    rcases hword with hword | hword
    · exact letter_of_toLower hword rfl
    · exact letter_of_toLower hword rfl
  · obtain ⟨d, hd, rfl⟩ := Option.map_eq_some_iff.1 h
    exact .inr ⟨d, hd, rfl⟩

theorem visible_of_unsigned? {negative : Bool} {n : Numeral} (h : unsigned? negative cs = some n) :
    ∀ c ∈ cs, IsVisible c := by
  rcases unsigned?_cases h with hletters | ⟨d, hd, -⟩
  · intro c hc
    have hletter := hletters c hc
    exact ⟨by omega, by omega⟩
  · exact visible_of_decimal? hd

theorem isDigit_of_unsigned? {negative : Bool} (h : unsigned? negative cs = some .nan) :
    ∀ c ∈ cs, c.isDigit = false := by
  rcases unsigned?_cases h with hletters | ⟨d, -, hd⟩
  · intro c hc
    have hletter := hletters c hc
    refine Bool.eq_false_iff.2 fun hdigit => ?_
    have hrange := toNat_of_isDigit hdigit
    omega
  · cases hd

/-- A numeral is written by its sign and the rest. -/
theorem ofChars?_cases {n : Numeral} (h : ofChars? cs = some n) :
    ∃ negative rest, unsigned? negative rest = some n ∧
      (cs = rest ∨ cs = '-' :: rest ∨ cs = '+' :: rest) := by
  unfold ofChars? at h
  split at h
  · exact ⟨true, _, h, .inr (.inl rfl)⟩
  · exact ⟨false, _, h, .inr (.inr rfl)⟩
  · exact ⟨false, _, h, .inl rfl⟩

theorem visible_of_ofChars? {n : Numeral} (h : ofChars? cs = some n) : ∀ c ∈ cs, IsVisible c := by
  obtain ⟨negative, rest, hrest, rfl | rfl | rfl⟩ := ofChars?_cases h
  · exact visible_of_unsigned? hrest
  · exact List.forall_mem_cons.2 ⟨by decide, visible_of_unsigned? hrest⟩
  · exact List.forall_mem_cons.2 ⟨by decide, visible_of_unsigned? hrest⟩

/-- No digit stands in what writes NaN. -/
theorem isDigit_of_ofChars? (h : ofChars? cs = some .nan) : ∀ c ∈ cs, c.isDigit = false := by
  obtain ⟨negative, rest, hrest, rfl | rfl | rfl⟩ := ofChars?_cases h
  · exact isDigit_of_unsigned? hrest
  · exact List.forall_mem_cons.2 ⟨by decide, isDigit_of_unsigned? hrest⟩
  · exact List.forall_mem_cons.2 ⟨by decide, isDigit_of_unsigned? hrest⟩

end Numeral

theorem Number.ofUnits_ne_nan (negative : Bool) (num den : Nat) :
    ofUnits negative num den ≠ .nan := by
  unfold ofUnits
  dsimp only
  split <;> exact nofun

theorem Number.offset_ne_nan {x : Number} (h : x ≠ .nan) (n : Int) : x.offset n ≠ .nan := by
  cases x with
  | nan => exact absurd rfl h
  | infinite negative => exact nofun
  | finite units =>
    rw [offset]
    exact ofUnits_ne_nan _ _ _

theorem Numeral.toNumber_ne_nan {n : Numeral} (h : n ≠ .nan) : n.toNumber ≠ .nan := by
  cases n with
  | nan => exact absurd rfl h
  | infinity negative => exact nofun
  | decimal negative value =>
    rw [toNumber, Decimal.toNumber]
    exact Number.ofUnits_ne_nan _ _ _

/-- The text writes a number other than NaN, blanks around it aside. -/
def WritesNumber (text : String) : Prop :=
  ∃ x, Number.ofText? (Text.trim text) = some x ∧ x ≠ .nan

theorem writesNumber_of_isNumeric {text : String} (h : isNumeric text = true) :
    WritesNumber text := by
  obtain ⟨hdigit, hsome⟩ := Bool.and_eq_true_iff.1 h
  obtain ⟨n, hn⟩ := Option.isSome_iff_exists.1 hsome
  refine ⟨n.toNumber, ?_, Numeral.toNumber_ne_nan ?_⟩
  · rw [Text.trim_of_visible (Numeral.visible_of_ofChars? hn), Number.ofText?, hn]
    rfl
  · rintro rfl
    obtain ⟨c, hc, hdigit⟩ := List.any_eq_true.1 hdigit
    simp [Numeral.isDigit_of_ofChars? hn c hc] at hdigit

inductive Positional : List Char → Prop
  | whole {ds : List Char} : ds ≠ [] → (∀ c ∈ ds, c.isDigit = true) → Positional ds
  | point {ds fraction : List Char} : ds ≠ [] → (∀ c ∈ ds, c.isDigit = true) →
    (∀ c ∈ fraction, c.isDigit = true) → Positional (ds ++ '.' :: fraction)

namespace Positional

variable {cs : List Char}

theorem exists_cons (h : Positional cs) : ∃ c rest, cs = c :: rest ∧ c.isDigit = true := by
  cases h with
  | whole hne hdigits =>
    obtain ⟨c, rest, rfl⟩ := List.exists_cons_of_ne_nil hne
    exact ⟨c, rest, rfl, hdigits c List.mem_cons_self⟩
  | point hne hdigits =>
    obtain ⟨c, rest, rfl⟩ := List.exists_cons_of_ne_nil hne
    exact ⟨c, _, rfl, hdigits c List.mem_cons_self⟩

theorem isSome_decimal? (h : Positional cs) : (Numeral.decimal? cs).isSome = true := by
  have hall {ds : List Char} (hdigits : ∀ c ∈ ds, c.isDigit = true) :
      ds.takeWhile Char.isDigit = ds ∧ ds.dropWhile Char.isDigit = [] := by
    have htake : (ds ++ []).takeWhile Char.isDigit = ds ++ [] :=
      List.takeWhile_append_of_pos hdigits
    have hdrop : (ds ++ []).dropWhile Char.isDigit = [] := List.dropWhile_append_of_pos hdigits
    rw [List.append_nil] at htake hdrop
    exact ⟨htake, hdrop⟩
  cases h with
  | whole hne hdigits =>
    obtain ⟨htake, hdrop⟩ := hall hdigits
    simp [Numeral.decimal?, htake, hdrop, hne, Numeral.suffix?]
  | @point ds fraction hne hdigits hfraction =>
    obtain ⟨htake, hdrop⟩ := hall hfraction
    have hpoint : Char.isDigit '.' = false := rfl
    simp [Numeral.decimal?, List.takeWhile_append_of_pos hdigits,
      List.dropWhile_append_of_pos hdigits, hpoint, htake, hdrop, hne, Numeral.suffix?]

theorem isSome_unsigned? (h : Positional cs) (negative : Bool) :
    (Numeral.unsigned? negative cs).isSome = true := by
  unfold Numeral.unsigned?
  dsimp only
  split
  · rfl
  split
  · rfl
  · rw [Option.isSome_map]
    exact h.isSome_decimal?

theorem isNumeric {text : String} (h : Positional text.toList) : isNumeric text = true := by
  obtain ⟨c, rest, hcons, hdigit⟩ := h.exists_cons
  have hsome := h.isSome_unsigned? false
  rw [ApiScript.isNumeric, hcons, List.any_cons, hdigit, Bool.true_or, Bool.true_and,
    Numeral.ofChars?.eq_3]
  · rwa [← hcons]
  · rintro cs hminus
    cases hminus
    cases hdigit
  · rintro cs hplus
    cases hplus
    cases hdigit

theorem isNumeric_neg {text : String} (h : Positional text.toList) :
    ApiScript.isNumeric ("-" ++ text) = true := by
  obtain ⟨c, rest, hcons, hdigit⟩ := h.exists_cons
  have hsome := h.isSome_unsigned? true
  have hchars : ("-" ++ text).toList = '-' :: text.toList := String.toList_append
  rw [ApiScript.isNumeric, hchars, hcons, Numeral.ofChars?, ← hcons, hsome, hcons]
  simp [hdigit]

end Positional

theorem isDigit_repr (n : Nat) : ∀ c ∈ (Nat.repr n).toList, c.isDigit = true := by
  intro c hc
  rw [Nat.repr, String.toList_ofList] at hc
  exact Nat.isDigit_of_mem_toDigits (by decide) (by decide) hc

theorem repr_ne_nil (n : Nat) : (Nat.repr n).toList ≠ [] := by
  rw [Nat.repr, String.toList_ofList]
  exact Nat.toDigits_ne_nil

theorem positional_repr (n : Nat) : Positional (Nat.repr n).toList :=
  .whole (repr_ne_nil n) (isDigit_repr n)

theorem Decimal.positional_toText (d : Decimal) : Positional d.toText.toList := by
  unfold toText
  split
  · exact positional_repr _
  · next n =>
    have hpad (width k : Nat) : ∀ c ∈ (padLeft width (Nat.repr k)).toList, c.isDigit = true := by
      intro c hc
      rw [padLeft, String.toList_append, String.toList_ofList] at hc
      rcases List.mem_append.1 hc with hc | hc
      · rw [List.eq_of_mem_replicate hc]
        rfl
      · exact isDigit_repr k c hc
    dsimp only
    rw [String.toList_append, String.toList_append, List.append_assoc]
    exact .point (repr_ne_nil _) (isDigit_repr _) (hpad _ _)

/-- The text of a number other than NaN writes such a number. -/
theorem Number.writesNumber_toText {x : Number} (h : x ≠ .nan) : WritesNumber x.toText := by
  cases x with
  | nan => exact absurd rfl h
  | infinite negative =>
    cases negative with
    | true => exact ⟨.infinite true, by decide, nofun⟩
    | false => exact ⟨.infinite false, by decide, nofun⟩
  | finite units =>
    have htext := Decimal.positional_toText (shortest units.natAbs)
    refine writesNumber_of_isNumeric ?_
    unfold toText
    dsimp only
    split
    · exact htext.isNumeric_neg
    · exact htext.isNumeric

end ApiScript
