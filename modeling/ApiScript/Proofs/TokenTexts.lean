import ApiScript.Proofs.TokenSpelling

/-!
# The texts of tokens

The reserved kinds are those of the reserved texts, and a step is a name with its sign twice: no
number, literal or reserved text ends with a sign.
-/
namespace ApiScript

namespace Numeral

variable {cs : List Char} {c : Char}

def IsSign (c : Char) : Prop := c = '+' ∨ c = '-'

theorem IsSign.isDigit (h : IsSign c) : c.isDigit = false := by
  rcases h with rfl | rfl <;> rfl

theorem digitsOnly?_sign (h : IsSign c) : digitsOnly? (cs ++ [c]) = none := by
  rw [digitsOnly?, if_neg]
  simp [h.isDigit]

theorem exponent?_sign (h : IsSign c) : exponent? (cs ++ [c]) = none := by
  cases cs with
  | nil => rcases h with rfl | rfl <;> rfl
  | cons d ds =>
    rw [List.cons_append, exponent?.eq_def]
    split
    · next heq =>
      cases heq
      rw [digitsOnly?_sign h, Option.map_none]
    · next heq =>
      cases heq
      rw [digitsOnly?_sign h, Option.map_none]
    · rw [← List.cons_append, digitsOnly?_sign h, Option.map_none]

theorem suffix?_sign (h : IsSign c) : suffix? (cs ++ [c]) = none := by
  cases cs with
  | nil => rcases h with rfl | rfl <;> rfl
  | cons d ds =>
    rw [List.cons_append, suffix?.eq_def]
    split
    · next heq => cases heq
    · next heq =>
      cases heq
      exact exponent?_sign h
    · next heq =>
      cases heq
      exact exponent?_sign h
    · rfl

theorem dropWhile_isDigit_sign (h : IsSign c) :
    (cs ++ [c]).dropWhile Char.isDigit = cs.dropWhile Char.isDigit ++ [c] := by
  induction cs with
  | nil => simp [h.isDigit]
  | cons d ds ih => by_cases hd : d.isDigit = true <;> simp [hd, ih]

theorem decimal?_sign (h : IsSign c) : decimal? (cs ++ [c]) = none := by
  unfold decimal?
  rw [dropWhile_isDigit_sign h]
  dsimp only
  split
  · next after hafter =>
    have hfront : ∃ front, after = front ++ [c] := by
      cases hds : cs.dropWhile Char.isDigit with
      | nil =>
        rw [hds] at hafter
        rcases h with rfl | rfl <;> cases hafter
      | cons d ds =>
        rw [hds] at hafter
        cases hafter
        exact ⟨ds, rfl⟩
    obtain ⟨front, rfl⟩ := hfront
    rw [dropWhile_isDigit_sign h, suffix?_sign h, Option.map_none, ite_self]
  · rw [suffix?_sign h, Option.map_none, ite_self]

theorem unsigned?_sign (h : IsSign c) (negative : Bool) :
    unsigned? negative (cs ++ [c]) = none := by
  cases hread : unsigned? negative (cs ++ [c]) with
  | none => rfl
  | some n =>
    rcases unsigned?_cases hread with hletters | ⟨d, hd, -⟩
    -- the words for infinity and for no number have letters only
    · have hc := hletters c (by simp)
      have hlow : c.toNat < 65 := by rcases h with rfl | rfl <;> decide
      omega
    · rw [decimal?_sign h] at hd
      cases hd

/-- No number ends with a sign. -/
theorem ofChars?_sign (h : IsSign c) : ofChars? (cs ++ [c]) = none := by
  cases cs with
  | nil => rcases h with rfl | rfl <;> rfl
  | cons d ds =>
    rw [List.cons_append, ofChars?.eq_def]
    split
    · next heq =>
      cases heq
      exact unsigned?_sign h true
    · next heq =>
      cases heq
      exact unsigned?_sign h false
    · rw [← List.cons_append]
      exact unsigned?_sign h false

end Numeral

namespace TokenKind

open Numeral (IsSign)

theorem classify_of_mem_reserved {raw : String} {kind : TokenKind} (h : (raw, kind) ∈ reserved) :
    classify raw = kind := by
  have hall : ∀ entry ∈ reserved, classify entry.1 = entry.2 := by decide +kernel
  exact hall (raw, kind) h

/-- The reserved kinds are those of the reserved texts. -/
theorem classify_eq_iff {raw : String} {kind : TokenKind}
    (hkind : kind ∉ [literal, number, increment, decrement, name, unknown]) :
    classify raw = kind ↔ (raw, kind) ∈ reserved := by
  constructor
  · rintro rfl
    rcases classify_cases raw with h | ⟨h, -⟩ | h | h
    · simp [h] at hkind
    · simp [h] at hkind
    · exact h
    · exact absurd (List.mem_cons_of_mem _ (List.mem_cons_of_mem _ h)) hkind
  · exact classify_of_mem_reserved

/-- Between quoted texts, numbers and reserved ones there is none that ends with a sign. -/
theorem classify_of_sign {c : Char} (h : IsSign c) (base : List Char) :
    classify (String.ofList (base ++ [c])) = ofName (base ++ [c]) := by
  have hliteral : isLiteral (base ++ [c]) = false := by
    rw [isLiteral, List.getLast?_concat]
    rcases h with rfl | rfl <;> simp
  have hnumeric : isNumeric (String.ofList (base ++ [c])) = false := by
    rw [isNumeric, String.toList_ofList, Numeral.ofChars?_sign h]
    simp
  have hlookup : reserved.lookup (String.ofList (base ++ [c])) = none := by
    rw [List.lookup_eq_none_iff]
    intro entry hentry
    have hends : ∀ entry ∈ reserved, entry.1.toList.getLast? ≠ some '+' ∧
        entry.1.toList.getLast? ≠ some '-' := by
      decide
    have hne : entry.1.toList.getLast? ≠ some c := by
      rcases h with rfl | rfl
      · exact (hends entry hentry).1
      · exact (hends entry hentry).2
    rw [bne_iff_ne]
    rintro heq
    rw [← heq, String.toList_ofList, List.getLast?_concat] at hne
    exact hne rfl
  rw [classify, String.toList_ofList, hliteral, hnumeric, hlookup]
  rfl

theorem ofName_step {kind : TokenKind} {c : Char}
    (hkind : kind = .increment ∧ c = '+' ∨ kind = .decrement ∧ c = '-') (name : List Char) :
    ofName (name ++ [c, c]) = if isName name then kind else .unknown := by
  have hreverse : (name ++ [c, c]).reverse = c :: c :: name.reverse := by simp
  rw [ofName, hreverse]
  rcases hkind with ⟨rfl, rfl⟩ | ⟨rfl, rfl⟩
  · simp
  · simp

/-- A token for a step is a name and a sign twice. -/
theorem classify_eq_step {raw : String} {kind : TokenKind} {c : Char}
    (hkind : kind = .increment ∧ c = '+' ∨ kind = .decrement ∧ c = '-') :
    classify raw = kind ↔
      ∃ name : String, isName name.toList = true ∧ raw = name ++ String.ofList [c, c] := by
  have hunknown : kind ≠ .unknown := by
    rintro rfl
    simp at hkind
  constructor
  · intro h
    have hname : ofName raw.toList = kind := by
      rw [← h]
      apply (classify_eq_ofName _).symm
      rw [h]
      rcases hkind with ⟨rfl, -⟩ | ⟨rfl, -⟩
      · decide
      · decide
    have hsigns : kind = .increment ∧ [c, c] = ['+', '+'] ∨
        kind = .decrement ∧ [c, c] = ['-', '-'] := by simpa using hkind
    obtain ⟨name, hraw⟩ := exists_append_of_ofName hsigns hname
    refine ⟨String.ofList name, ?_, ?_⟩
    · rw [String.toList_ofList]
      by_contra hnot
      rw [hraw, ofName_step hkind, if_neg hnot] at hname
      exact hunknown hname.symm
    · rw [← String.ofList_append, ← hraw, String.ofList_toList]
  · rintro ⟨name, hname, rfl⟩
    have hsign : IsSign c := hkind.imp And.right And.right
    have hlast := classify_of_sign hsign (name.toList ++ [c])
    rw [List.append_assoc, List.singleton_append, ofName_step hkind, if_pos hname,
      String.ofList_append, String.ofList_toList] at hlast
    exact hlast

end TokenKind

end ApiScript
