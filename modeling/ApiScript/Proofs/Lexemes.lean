import ApiScript.Token.Scan

/-!
# Lexemes

Every token of a line is a lexeme: a quoted text without quotes inside, a delimiter, or a word of
plain characters. The first two end by themselves, while a word goes on up to a blank or the end of
the line. Lexemes that are written in groups, with a blank between two groups and a word only at the
end of one, are cut into the same lexemes again.
-/
namespace ApiScript.Token

def isPlain (c : Char) : Bool :=
  decide (c ≠ '#') && decide (c ≠ '\'') && !Text.isBlank c && decide (c ∉ delimiters)

inductive IsClosed : List Char → Prop
  | literal {cs : List Char} : '\'' ∉ cs → IsClosed ('\'' :: (cs ++ ['\'']))
  | delimiter {c : Char} : c ∈ delimiters → IsClosed [c]

structure IsWord (cs : List Char) : Prop where
  ne_nil : cs ≠ []
  plain : ∀ c ∈ cs, isPlain c = true

inductive IsLexeme (cs : List Char) : Prop
  | closed : IsClosed cs → IsLexeme cs
  | word : IsWord cs → IsLexeme cs

theorem isPlain_iff {c : Char} :
    isPlain c = true ↔ c ≠ '#' ∧ c ≠ '\'' ∧ Text.isBlank c = false ∧ c ∉ delimiters := by
  simp [isPlain, and_assoc]

theorem quote_not_mem_delimiters : '\'' ∉ delimiters := by decide

theorem ne_of_mem_delimiters {c : Char} (h : c ∈ delimiters) :
    c ≠ '#' ∧ c ≠ '\'' ∧ Text.isBlank c = false := by
  have hall : delimiters.all
      (fun c => c ≠ '#' ∧ c ≠ '\'' ∧ Text.isBlank c = false) = true := by decide
  exact of_decide_eq_true (List.all_eq_true.1 hall c h)

section Scanning

/-- What has been read of a token may still become a lexeme. -/
def Pending.IsOpen : Pending → Prop
  | .word read => ∀ c ∈ read, isPlain c = true
  | .literal read => '\'' ∉ read

theorem isLexeme_of_mem_flush {read : List Char} {rest : List (List Char)}
    (hread : ∀ c ∈ read, isPlain c = true) (hrest : ∀ t ∈ rest, IsLexeme t) :
    ∀ t ∈ flush read rest, IsLexeme t := by
  cases read with
  | nil => exact hrest
  | cons c cs =>
    intro t ht
    rcases List.mem_cons.1 ht with rfl | ht
    · exact .word ⟨by simp, fun d hd => hread d (List.mem_reverse.1 hd)⟩
    · exact hrest t ht

theorem map_eq_ok_iff {α β : Type} {x : Except Cause α} {f : α → β} {b : β} :
    x.map f = .ok b ↔ ∃ a, x = .ok a ∧ f a = b := by
  cases x <;> simp [Except.map]

/-- From an open token on, a line is cut into lexemes. -/
theorem isLexeme_of_scan {p : Pending} {cs : List Char} {ts : List (List Char)}
    (hp : p.IsOpen) (h : scan p cs = .ok ts) : ∀ t ∈ ts, IsLexeme t := by
  have hnone : ∀ t ∈ ([] : List (List Char)), IsLexeme t := by simp
  induction cs generalizing p ts with
  | nil =>
    cases p with
    | word read =>
      cases h
      exact isLexeme_of_mem_flush hp hnone
    | literal read => cases h
  | cons c cs ih =>
    have hfresh : (Pending.word []).IsOpen := by simp [Pending.IsOpen]
    cases p with
    | literal read =>
      rw [scan] at h
      split at h
      · obtain ⟨rest, hrest, rfl⟩ := map_eq_ok_iff.1 h
        intro t ht
        rcases List.mem_cons.1 ht with rfl | ht
        · exact .closed (.literal (fun hmem => hp (List.mem_reverse.1 hmem)))
        · exact ih hfresh hrest t ht
      · next hquote =>
        refine ih (p := .literal (c :: read)) ?_ h
        simp only [Pending.IsOpen, List.mem_cons, not_or]
        exact ⟨Ne.symm hquote, hp⟩
    | word read =>
      rw [scan] at h
      split at h
      · cases h
        exact isLexeme_of_mem_flush hp hnone
      split at h
      · obtain ⟨rest, hrest, rfl⟩ := map_eq_ok_iff.1 h
        exact isLexeme_of_mem_flush hp (ih (p := .literal []) (by simp [Pending.IsOpen]) hrest)
      split at h
      · obtain ⟨rest, hrest, rfl⟩ := map_eq_ok_iff.1 h
        exact isLexeme_of_mem_flush hp (ih hfresh hrest)
      split at h
      · next hdelimiter =>
        obtain ⟨rest, hrest, rfl⟩ := map_eq_ok_iff.1 h
        refine isLexeme_of_mem_flush hp fun t ht => ?_
        rcases List.mem_cons.1 ht with rfl | ht
        · exact .closed (.delimiter hdelimiter)
        · exact ih hfresh hrest t ht
      · next hhash hquote hblank hdelimiter =>
        refine ih (p := .word (c :: read)) ?_ h
        intro d hd
        rcases List.mem_cons.1 hd with rfl | hd
        · exact isPlain_iff.2 ⟨hhash, hquote, by simpa using hblank, hdelimiter⟩
        · exact hp d hd

end Scanning

theorem isLexeme_of_tokenize {line : String} {raw : List String} (h : tokenize line = .ok raw) :
    ∀ r ∈ raw, IsLexeme r.toList := by
  obtain ⟨ts, hts, rfl⟩ := map_eq_ok_iff.1 h
  intro r hr
  obtain ⟨t, ht, rfl⟩ := List.mem_map.1 hr
  rw [String.toList_ofList]
  exact isLexeme_of_scan (p := .word []) (by simp [Pending.IsOpen]) hts t ht

section Writing

theorem scan_literal_append {cs : List Char} (h : '\'' ∉ cs) (read rest : List Char) :
    scan (.literal read) (cs ++ '\'' :: rest) =
      (scan (.word []) rest).map (('\'' :: (read.reverse ++ cs ++ ['\''])) :: ·) := by
  induction cs generalizing read with
  | nil => simp [scan]
  | cons c cs ih =>
    obtain ⟨hc, hcs⟩ : '\'' ≠ c ∧ '\'' ∉ cs := by simpa using h
    rw [List.cons_append, scan, if_neg (Ne.symm hc), ih hcs]
    simp

theorem scan_word_append {cs : List Char} (h : ∀ c ∈ cs, isPlain c = true)
    (read rest : List Char) :
    scan (.word read) (cs ++ rest) = scan (.word (cs.reverse ++ read)) rest := by
  induction cs generalizing read with
  | nil => rfl
  | cons c cs ih =>
    obtain ⟨hc, hcs⟩ := List.forall_mem_cons.1 h
    obtain ⟨hhash, hquote, hblank, hdelimiter⟩ := isPlain_iff.1 hc
    rw [List.cons_append, scan, if_neg hhash, if_neg hquote, if_neg (by simp [hblank]),
      if_neg hdelimiter, ih hcs]
    simp

theorem map_flush_nil (x : Except Cause (List (List Char))) : x.map (flush []) = x := by
  cases x <;> rfl

theorem scan_closed {t : List Char} (h : IsClosed t) (rest : List Char) :
    scan (.word []) (t ++ rest) = (scan (.word []) rest).map (t :: ·) := by
  cases h with
  | @literal cs hcs =>
    have hquote : '\'' ≠ '#' := by decide
    rw [List.cons_append, List.append_assoc, List.singleton_append, scan, if_neg hquote,
      if_pos rfl, map_flush_nil, scan_literal_append hcs]
    rfl
  | @delimiter c hc =>
    obtain ⟨hhash, hquote, hblank⟩ := ne_of_mem_delimiters hc
    rw [List.singleton_append, scan, if_neg hhash, if_neg hquote, if_neg (by simp [hblank]),
      if_pos hc]
    rfl

theorem ne_of_isBlank {c : Char} (h : Text.isBlank c = true) : c ≠ '#' ∧ c ≠ '\'' := by
  constructor
  · rintro rfl
    exact absurd h (by decide)
  · rintro rfl
    exact absurd h (by decide)

theorem scan_blank {c : Char} (h : Text.isBlank c = true) (cs : List Char) :
    scan (.word []) (c :: cs) = scan (.word []) cs := by
  obtain ⟨hhash, hquote⟩ := ne_of_isBlank h
  rw [scan, if_neg hhash, if_neg hquote, if_pos h, map_flush_nil]

theorem map_map {α β γ : Type} (x : Except Cause α) (f : α → β) (g : β → γ) :
    (x.map f).map g = x.map fun a => g (f a) := by
  cases x <;> rfl

def EndsWord (rest : List Char) : Prop := ∀ c ∈ rest.head?, isPlain c = false

/-- A word that ends is put before what is cut off the text after it. -/
theorem scan_endsWord {rest : List Char} (h : EndsWord rest) (read : List Char) :
    scan (.word read) rest = (scan (.word []) rest).map (flush read) := by
  cases rest with
  | nil => rfl
  | cons c rest =>
    rw [scan, scan]
    by_cases hhash : c = '#'
    · rw [if_pos hhash, if_pos hhash]
      rfl
    rw [if_neg hhash, if_neg hhash]
    by_cases hquote : c = '\''
    · rw [if_pos hquote, if_pos hquote, map_flush_nil]
    rw [if_neg hquote, if_neg hquote]
    by_cases hblank : Text.isBlank c = true
    · rw [if_pos hblank, if_pos hblank, map_flush_nil]
    rw [if_neg hblank, if_neg hblank]
    have hdelimiter : c ∈ delimiters := by simpa [isPlain, hhash, hquote, hblank] using h c rfl
    rw [if_pos hdelimiter, if_pos hdelimiter, map_map]
    rfl

theorem scan_word {t rest : List Char} (h : IsWord t) (hrest : EndsWord rest) :
    scan (.word []) (t ++ rest) = (scan (.word []) rest).map (t :: ·) := by
  rw [scan_word_append h.plain, List.append_nil, scan_endsWord hrest]
  congr 1
  funext ts
  cases hread : t.reverse with
  | nil => exact absurd (List.reverse_eq_nil_iff.1 hread) h.ne_nil
  | cons c cs => rw [flush, ← hread, List.reverse_reverse]

def IsBreak (rest : List Char) : Prop := ∀ c ∈ rest.head?, Text.isBlank c = true

theorem IsBreak.endsWord {rest : List Char} (h : IsBreak rest) : EndsWord rest := by
  intro c hc
  simp [isPlain, h c hc]

theorem scan_lexeme {t rest : List Char} (h : IsLexeme t) (hrest : IsBreak rest) :
    scan (.word []) (t ++ rest) = (scan (.word []) rest).map (t :: ·) := by
  cases h with
  | closed h => exact scan_closed h rest
  | word h => exact scan_word h hrest.endsWord

/-- Lexemes that can be written without blanks between them. -/
inductive IsGroup : List (List Char) → Prop
  | last {t : List Char} : IsLexeme t → IsGroup [t]
  | cons {t : List Char} {ts : List (List Char)} : IsClosed t → IsGroup ts → IsGroup (t :: ts)

theorem scan_group {ts : List (List Char)} {rest : List Char} (h : IsGroup ts)
    (hrest : IsBreak rest) :
    scan (.word []) (ts.flatten ++ rest) = (scan (.word []) rest).map (ts ++ ·) := by
  induction h with
  | last ht =>
    rw [List.flatten_singleton, scan_lexeme ht hrest]
    rfl
  | cons ht _ ih =>
    rw [List.flatten_cons, List.append_assoc, scan_closed ht, ih, map_map]
    rfl

/-- Groups of lexemes with blanks between them are cut into the lexemes. -/
theorem scan_intercalate {groups : List (List (List Char))} (h : ∀ g ∈ groups, IsGroup g) :
    scan (.word []) ([' '].intercalate (groups.map List.flatten)) = .ok groups.flatten := by
  induction groups with
  | nil => rfl
  | cons group rest ih =>
    obtain ⟨hgroup, hrest⟩ := List.forall_mem_cons.1 h
    cases rest with
    | nil =>
      have hend : IsBreak [] := by simp [IsBreak]
      have hscan := scan_group hgroup hend
      rw [List.append_nil] at hscan
      simpa [List.intercalate, scan, flush, Except.map] using hscan
    | cons next rest =>
      have hblank : scan (.word []) (' ' :: [' '].intercalate ((next :: rest).map List.flatten)) =
          .ok (next :: rest).flatten := by
        rw [scan_blank (by decide)]
        exact ih hrest
      have hbreak : IsBreak (' ' :: [' '].intercalate ((next :: rest).map List.flatten)) := by
        rintro c ⟨⟩
        decide
      have hscan := scan_group hgroup hbreak
      rw [hblank] at hscan
      simpa [List.intercalate, Except.map] using hscan

end Writing

/-- A line of groups of tokens, with blanks between the groups only. -/
def lineOf (groups : List (List String)) : String := " ".intercalate (groups.map String.join)

theorem tokenize_lineOf {groups : List (List String)}
    (h : ∀ g ∈ groups, IsGroup (g.map String.toList)) :
    tokenize (lineOf groups) = .ok groups.flatten := by
  have hchars : (lineOf groups).toList =
      [' '].intercalate ((groups.map fun g => g.map String.toList).map List.flatten) := by
    rw [lineOf, String.toList_intercalate, List.map_map, List.map_map]
    congr 1
    apply List.map_congr_left
    intro g _
    rw [Function.comp_apply, String.toList_join]
    rfl
  have hgroups : ∀ g ∈ groups.map fun g => g.map String.toList, IsGroup g := by
    intro g hg
    obtain ⟨texts, htexts, rfl⟩ := List.mem_map.1 hg
    exact h texts htexts
  have hback (texts : List String) : (texts.map String.toList).map String.ofList = texts := by
    simp [Function.comp_def]
  rw [tokenize, hchars, scan_intercalate hgroups, Except.map, List.map_flatten, List.map_map]
  simp only [Function.comp_def, hback, List.map_id']

end ApiScript.Token
