import Mathlib.Data.String.Basic

/-!
# The order of texts

Texts are ordered character by character. That is the lexicographic order of the Unicode scalar
values, and it is that of the UTF-8 bytes as well: of two characters, the later one has the later
lead byte or, under the same lead byte, the first later continuation byte.
-/
namespace ApiScript.Text

def scalars (text : String) : List Nat := text.toList.map Char.toNat

def bytes (text : String) : List UInt8 := text.toUTF8.data.toList

theorem bytes_eq_flatMap (text : String) :
    bytes text = text.toList.flatMap String.utf8EncodeChar := by
  have h := @String.toByteArray_ofList text.toList
  rw [String.ofList_toList] at h
  rw [bytes, String.toUTF8_eq_toByteArray, h, List.utf8Encode, List.data_toByteArray]

/-- The one list comes before the other, whatever follows them. -/
def Precedes (xs ys : List UInt8) : Prop := ∀ us vs, xs ++ us < ys ++ vs

theorem precedes_of_lt {x y : UInt8} (h : x < y) (xs ys : List UInt8) :
    Precedes (x :: xs) (y :: ys) :=
  fun _ _ => List.cons_lt_cons_iff.2 (.inl h)

theorem Precedes.append {xs ys : List UInt8} (h : Precedes xs ys) (us vs : List UInt8) :
    Precedes (xs ++ us) (ys ++ vs) := by
  intro us' vs'
  rw [List.append_assoc, List.append_assoc]
  exact h _ _

theorem Precedes.prepend {xs ys : List UInt8} (h : Precedes xs ys) (zs : List UInt8) :
    Precedes (zs ++ xs) (zs ++ ys) := by
  intro us vs
  rw [List.append_assoc, List.append_assoc]
  exact List.append_left_lt (h us vs)

theorem ofNat_lt_ofNat {m n : Nat} (h : m < n) (hn : n < 256) : UInt8.ofNat m < UInt8.ofNat n := by
  rw [UInt8.lt_iff_toNat_lt, UInt8.toNat_ofNat', UInt8.toNat_ofNat']
  omega

/-- A lead byte, and after it the last `k` digits to the base 64 in continuation bytes. -/
def wide (mark : Nat) : Nat → Nat → List UInt8
  | 0, v => [UInt8.ofNat (v + mark)]
  | k + 1, v => wide mark k (v / 64) ++ [UInt8.ofNat (v % 64 + 128)]

theorem wide_eq_cons (mark k v : Nat) :
    ∃ rest, wide mark k v = UInt8.ofNat (v / 64 ^ k + mark) :: rest := by
  induction k generalizing v with
  | zero => exact ⟨[], by simp [wide]⟩
  | succ k ih =>
    obtain ⟨rest, hrest⟩ := ih (v / 64)
    refine ⟨rest ++ [UInt8.ofNat (v % 64 + 128)], ?_⟩
    rw [wide, hrest, Nat.div_div_eq_div_mul, ← Nat.pow_succ']
    rfl

theorem wide_precedes {mark k v w : Nat} (h : v < w) (hw : w / 64 ^ k + mark < 256) :
    Precedes (wide mark k v) (wide mark k w) := by
  induction k generalizing v w with
  | zero =>
    rw [Nat.pow_zero, Nat.div_one] at hw
    exact precedes_of_lt (ofNat_lt_ofNat (by omega) hw) _ _
  | succ k ih =>
    rw [Nat.pow_succ', ← Nat.div_div_eq_div_mul] at hw
    rcases Nat.lt_or_eq_of_le (Nat.div_le_div_right h.le : v / 64 ≤ w / 64) with hlt | heq
    · exact (ih hlt hw).append _ _
    · -- all but the last digits agree, so the last ones decide
      rw [wide, wide, heq]
      exact (precedes_of_lt (ofNat_lt_ofNat (by omega) (by omega)) _ _).prepend _

def extra (v : Nat) : Nat :=
  if v < 128 then 0 else if v < 2048 then 1 else if v < 65536 then 2 else 3

/-- What marks a lead byte with so many continuation bytes after it. -/
def mark : Nat → Nat
  | 0 => 0
  | 1 => 192
  | 2 => 224
  | _ => 240

def lead (v : Nat) : Nat := v / 64 ^ extra v + mark (extra v)

theorem extra_cases (v : Nat) :
    v < 128 ∧ extra v = 0 ∨ (128 ≤ v ∧ v < 2048) ∧ extra v = 1 ∨
      (2048 ≤ v ∧ v < 65536) ∧ extra v = 2 ∨ 65536 ≤ v ∧ extra v = 3 := by
  unfold extra
  split_ifs <;> omega

theorem lead_lt_lead {v w : Nat} (h : v < w) (hne : extra v ≠ extra w) : lead v < lead w := by
  unfold lead
  rcases extra_cases v with ⟨hv, ev⟩ | ⟨hv, ev⟩ | ⟨hv, ev⟩ | ⟨hv, ev⟩ <;>
    rcases extra_cases w with ⟨hw, ew⟩ | ⟨hw, ew⟩ | ⟨hw, ew⟩ | ⟨hw, ew⟩ <;>
    simp only [ev, ew, mark] at hne ⊢ <;>
    omega

theorem lead_lt {v : Nat} (h : v < 1114112) : lead v < 256 := by
  unfold lead
  rcases extra_cases v with ⟨hv, ev⟩ | ⟨hv, ev⟩ | ⟨hv, ev⟩ | ⟨hv, ev⟩ <;>
    simp only [ev, mark] <;>
    omega

theorem toNat_lt (c : Char) : c.toNat < 1114112 := by
  rcases c.valid with h | ⟨-, h⟩
  · exact h.trans (by decide)
  · exact h

theorem utf8EncodeChar_eq_wide (c : Char) :
    String.utf8EncodeChar c = wide (mark (extra c.toNat)) (extra c.toNat) c.toNat := by
  have hmax : c.val.toNat < 1114112 := toNat_lt c
  unfold String.utf8EncodeChar Char.toNat
  generalize c.val.toNat = v at hmax
  dsimp only
  -- the lead byte is cut to size by `%`, which its range makes needless
  rcases extra_cases v with ⟨hv, ev⟩ | ⟨hv, ev⟩ | ⟨hv, ev⟩ | ⟨hv, ev⟩
  · rw [ev, if_pos (by omega)]
    rfl
  · rw [ev, if_neg (by omega), if_pos (by omega), Nat.mod_eq_of_lt (by omega : v / 64 < 32)]
    rfl
  · rw [ev, if_neg (by omega), if_neg (by omega), if_pos (by omega),
      Nat.mod_eq_of_lt (by omega : v / 4096 < 16), ← Nat.div_div_eq_div_mul v 64 64]
    rfl
  · rw [ev, if_neg (by omega), if_neg (by omega), if_neg (by omega),
      Nat.mod_eq_of_lt (by omega : v / 262144 < 8), ← Nat.div_div_eq_div_mul v 4096 64,
      ← Nat.div_div_eq_div_mul v 64 64]
    rfl

theorem utf8EncodeChar_precedes {c d : Char} (h : c < d) :
    Precedes (String.utf8EncodeChar c) (String.utf8EncodeChar d) := by
  have hlt : c.toNat < d.toNat := h
  have hmax := lead_lt (toNat_lt d)
  rw [utf8EncodeChar_eq_wide, utf8EncodeChar_eq_wide]
  by_cases hextra : extra c.toNat = extra d.toNat
  · rw [hextra]
    exact wide_precedes hlt hmax
  · obtain ⟨xs, hxs⟩ := wide_eq_cons (mark (extra c.toNat)) (extra c.toNat) c.toNat
    obtain ⟨ys, hys⟩ := wide_eq_cons (mark (extra d.toNat)) (extra d.toNat) d.toNat
    rw [hxs, hys]
    exact precedes_of_lt (ofNat_lt_ofNat (lead_lt_lead hlt hextra) hmax) xs ys

theorem flatMap_utf8EncodeChar_lt {cs ds : List Char} (h : cs < ds) :
    cs.flatMap String.utf8EncodeChar < ds.flatMap String.utf8EncodeChar := by
  induction h with
  | @nil d ds =>
    obtain ⟨ys, hys⟩ := wide_eq_cons (mark (extra d.toNat)) (extra d.toNat) d.toNat
    rw [List.flatMap_cons, utf8EncodeChar_eq_wide, hys]
    exact List.nil_lt_cons _ _
  | rel hlt => exact utf8EncodeChar_precedes hlt _ _
  | cons _ ih => exact List.append_left_lt ih

/-- What keeps the order of texts also reflects it. -/
theorem lt_iff_of_lt {α : Type} [LT α] [Std.Asymm (α := α) (· < ·)] {f : String → List α}
    (h : ∀ {s t}, s < t → f s < f t) {s t : String} : f s < f t ↔ s < t := by
  refine ⟨fun hlt => ?_, h⟩
  rcases lt_trichotomy s t with hst | rfl | hts
  · exact hst
  · exact absurd hlt (List.lt_asymm hlt)
  · exact absurd hlt (List.lt_asymm (h hts))

theorem scalars_lt_iff {s t : String} : scalars s < scalars t ↔ s < t := by
  refine lt_iff_of_lt fun {s t} h => ?_
  have hchars : ∀ c d : Char, c < d → c.toNat < d.toNat := fun _ _ hlt => hlt
  exact List.map_lt hchars h

theorem bytes_lt_iff {s t : String} : bytes s < bytes t ↔ s < t := by
  refine lt_iff_of_lt fun {s t} h => ?_
  rw [bytes_eq_flatMap, bytes_eq_flatMap]
  exact flatMap_utf8EncodeChar_lt h

end ApiScript.Text
