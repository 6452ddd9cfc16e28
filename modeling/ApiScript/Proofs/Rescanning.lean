import ApiScript.Proofs.Losslessness

/-!
# Scanning again

A line without a comment can be cut off at its end: what follows it after a blank is scanned by
itself. So the tokens of a line, written with blanks between them, are scanned to the same tokens.
-/
namespace ApiScript.Token

/-- Tokens fill a line without a comment to its end. -/
theorem fills_of_not_hasComment {cs : List Char} {ts : List (List Char)}
    (h : scan (.word []) cs = .ok ts) (hcomment : ¬ HasComment cs) : Fills [] ts cs := by
  have houtcome := outcome_of_line cs
  rw [h] at houtcome
  cases houtcome with
  | spent hfills hrest =>
    cases hrest with
    | nil => exact hfills
    | comment rest =>
      obtain ⟨x, rfl, hx, -⟩ := hfills.exists_outside
      exact absurd ((hx.hasComment_append_iff _).2 (hasComment_hash rest)) hcomment

theorem tokenize_append {a : String} {ts : List String} (ha : tokenize a = .ok ts)
    (hcomment : ¬ HasComment a.toList) (b : String) :
    tokenize (a ++ " " ++ b) = (tokenize b).map (ts ++ ·) := by
  obtain ⟨tokens, htokens, rfl⟩ := map_eq_ok_iff.1 ha
  have hend : EndsWord (' ' :: b.toList) := endsWord_cons (by decide) b.toList
  have hfills := (fills_of_not_hasComment htokens hcomment).append hend
  have hline : (a ++ " " ++ b).toList = a.toList ++ ' ' :: b.toList := by
    simp [String.toList_append]
  rw [tokenize, tokenize, hline, hfills.scan_eq, scan_blank (by decide), map_map, map_map]
  simp only [List.map_append]

/-- Tokens that are written with blanks between them are scanned to themselves. -/
theorem tokenize_intercalate {line : String} {ts : List String} (h : tokenize line = .ok ts) :
    tokenize (" ".intercalate ts) = .ok ts := by
  have hgroups : ∀ g ∈ ts.map fun t => [t], IsGroup (g.map String.toList) := by
    intro g hg
    obtain ⟨t, ht, rfl⟩ := List.mem_map.1 hg
    exact .last (isLexeme_of_tokenize h t ht)
  have hline : lineOf (ts.map fun t => [t]) = " ".intercalate ts := by
    rw [lineOf, List.map_map]
    congr 1
    simp [Function.comp_def, String.join]
  have hscan := tokenize_lineOf hgroups
  rwa [hline, ← List.flatMap_def, List.flatMap_singleton'] at hscan

/-- The tokens of a line, written with blanks between them, are the tokens of that line. What comes
after a line without a comment, and a blank, is cut into tokens as it is by itself, or fails as it
does by itself. -/
theorem tokens_survive_rescanning :
    (∀ line ts, tokenize line = .ok ts → tokenize (" ".intercalate ts) = .ok ts) ∧
      ∀ a ts, tokenize a = .ok ts → ¬ HasComment a.toList →
        ∀ b, tokenize (a ++ " " ++ b) = (tokenize b).map (ts ++ ·) :=
  ⟨fun _ _ h => tokenize_intercalate h, fun _ _ ha hcomment b => tokenize_append ha hcomment b⟩

theorem quoted_hash_survives_rescanning :
    tokenize "f('a # b')" = .ok ["f", "(", "'a # b'", ")"] ∧ ¬ HasComment "f('a # b')".toList ∧
      tokenize (" ".intercalate ["f", "(", "'a # b'", ")"]) = .ok ["f", "(", "'a # b'", ")"] ∧
      tokenize ("f('a # b')" ++ " " ++ "x='c") = .error .unterminatedLiteral ∧
      tokenize ("f('a # b')" ++ " " ++ "x# 'c") = .ok (["f", "(", "'a # b'", ")"] ++ ["x"]) := by
  have htokens : tokenize "f('a # b')" = .ok ["f", "(", "'a # b'", ")"] := by rfl
  have hcomment : ¬ HasComment "f('a # b')".toList := by decide
  obtain ⟨hjoined, happended⟩ := tokens_survive_rescanning
  refine ⟨htokens, hcomment, hjoined _ _ htokens, ?_, ?_⟩
  · rw [happended _ _ htokens hcomment]
    rfl
  · rw [happended _ _ htokens hcomment]
    rfl

end ApiScript.Token
