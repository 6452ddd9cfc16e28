import ApiScript.Proofs.Lexemes

/-!
# Lines filled with tokens

Tokens fill a line up to some rest of it if they stand there one after the other, with nothing but
blanks around them, and if each word among them is as long as it can be. Every line is filled with
tokens up to its end or a comment, and these are the tokens that scanning gives, or up to a quote
that no other quote follows, and then scanning fails.
-/
namespace ApiScript.Token

inductive Fills (rest : List Char) : List (List Char) → List Char → Prop
  | nil : Fills rest [] rest
  | blank {c : Char} {ts : List (List Char)} {cs : List Char} :
    Text.isBlank c = true → Fills rest ts cs → Fills rest ts (c :: cs)
  | closed {t : List Char} {ts : List (List Char)} {cs : List Char} :
    IsClosed t → Fills rest ts cs → Fills rest (t :: ts) (t ++ cs)
  | word {t : List Char} {ts : List (List Char)} {cs : List Char} :
    IsWord t → EndsWord cs → Fills rest ts cs → Fills rest (t :: ts) (t ++ cs)

inductive IsSpent : List Char → Prop
  | nil : IsSpent []
  | comment (cs : List Char) : IsSpent ('#' :: cs)

inductive IsUnclosed : List Char → Prop
  | quote {cs : List Char} : '\'' ∉ cs → IsUnclosed ('\'' :: cs)

inductive Outcome (cs : List Char) : Except Cause (List (List Char)) → Prop
  | spent {rest : List Char} {ts : List (List Char)} :
    Fills rest ts cs → IsSpent rest → Outcome cs (.ok ts)
  | unclosed {rest : List Char} {ts : List (List Char)} :
    Fills rest ts cs → IsUnclosed rest → Outcome cs (.error .unterminatedLiteral)

variable {ts : List (List Char)} {rest cs : List Char}

theorem Outcome.map {cs' : List Char} {result : Except Cause (List (List Char))}
    {f : List (List Char) → List (List Char)} (h : Outcome cs result)
    (hf : ∀ {rest ts}, Fills rest ts cs → Fills rest (f ts) cs') : Outcome cs' (result.map f) := by
  cases h with
  | spent hfills hrest => exact .spent (hf hfills) hrest
  | unclosed hfills hrest => exact .unclosed (hf hfills) hrest

/-- The characters of the token at hand, in the order in which they were read. -/
def Pending.chars : Pending → List Char
  | .word read => read.reverse
  | .literal read => '\'' :: read.reverse

theorem fills_flush {read : List Char} (hread : ∀ c ∈ read, isPlain c = true) (hend : EndsWord cs)
    (h : Fills rest ts cs) : Fills rest (flush read ts) (read.reverse ++ cs) := by
  cases read with
  | nil => exact h
  | cons c read =>
    refine .word ⟨by simp, fun d hd => ?_⟩ hend h
    exact hread d (List.mem_reverse.1 hd)

theorem endsWord_cons {c : Char} (h : isPlain c = false) (cs : List Char) : EndsWord (c :: cs) := by
  rintro d ⟨⟩
  exact h

/-- From the token at hand on, scanning gives the tokens that fill the line. -/
theorem outcome_scan {p : Pending} (hp : p.IsOpen) (cs : List Char) :
    Outcome (p.chars ++ cs) (scan p cs) := by
  have hfresh : (Pending.word []).IsOpen := by simp [Pending.IsOpen]
  induction cs generalizing p with
  | nil =>
    cases p with
    | word read => exact .spent (fills_flush hp (by simp [EndsWord]) .nil) .nil
    | literal read =>
      rw [List.append_nil]
      exact .unclosed .nil (.quote fun hmem => hp (List.mem_reverse.1 hmem))
  | cons c cs ih =>
    cases p with
    | literal read =>
      rw [scan]
      split
      · next hquote =>
        subst hquote
        have hliteral : IsClosed ('\'' :: (read.reverse ++ ['\''])) :=
          .literal fun hmem => hp (List.mem_reverse.1 hmem)
        simpa [Pending.chars] using (ih hfresh).map fun h => .closed hliteral h
      · next hquote =>
        have hopen : (Pending.literal (c :: read)).IsOpen := by
          simpa [Pending.IsOpen] using ⟨Ne.symm hquote, hp⟩
        simpa [Pending.chars] using ih hopen
    | word read =>
      rw [scan]
      split
      · next hhash =>
        subst hhash
        exact .spent (fills_flush hp (endsWord_cons rfl cs) .nil) (.comment cs)
      split
      · next hquote =>
        subst hquote
        have hopen : (Pending.literal []).IsOpen := by simp [Pending.IsOpen]
        exact (ih hopen).map fun h => fills_flush hp (endsWord_cons rfl cs) h
      split
      · next hblank =>
        have hend : EndsWord (c :: cs) := endsWord_cons (by simp [isPlain, hblank]) cs
        exact (ih hfresh).map fun h => fills_flush hp hend (.blank hblank h)
      split
      · next hdelimiter =>
        have hend : EndsWord (c :: cs) := endsWord_cons (by simp [isPlain, hdelimiter]) cs
        exact (ih hfresh).map fun h => fills_flush hp hend (.closed (.delimiter hdelimiter) h)
      · next hhash hquote hblank hdelimiter =>
        have hplain : isPlain c = true :=
          isPlain_iff.2 ⟨hhash, hquote, by simpa using hblank, hdelimiter⟩
        have hopen : (Pending.word (c :: read)).IsOpen := List.forall_mem_cons.2 ⟨hplain, hp⟩
        simpa [Pending.chars] using ih hopen

theorem outcome_of_line (cs : List Char) : Outcome cs (scan (.word []) cs) :=
  outcome_scan (p := .word []) (by simp [Pending.IsOpen]) cs

theorem map_nil_append (x : Except Cause (List (List Char))) : (x.map fun ts => [] ++ ts) = x := by
  cases x <;> rfl

/-- The tokens that fill a line are put before those of the rest. -/
theorem Fills.scan_eq (h : Fills rest ts cs) :
    scan (.word []) cs = (scan (.word []) rest).map (ts ++ ·) := by
  induction h with
  | nil => exact (map_nil_append _).symm
  | blank hc _ ih => rw [scan_blank hc, ih]
  | closed ht _ ih =>
    rw [scan_closed ht, ih, map_map]
    rfl
  | word ht hend _ ih =>
    rw [scan_word ht hend, ih, map_map]
    rfl

/-- A line that is filled to its end can be continued where a word would end. -/
theorem Fills.append (h : Fills [] ts cs) (hrest : EndsWord rest) : Fills rest ts (cs ++ rest) := by
  induction h with
  | nil => exact .nil
  | blank hc _ ih => exact .blank hc ih
  | closed ht _ ih =>
    rw [List.append_assoc]
    exact .closed ht ih
  | @word t ts cs ht hend _ ih =>
    have hend' : EndsWord (cs ++ rest) := by
      cases cs with
      | nil => exact hrest
      | cons d cs => exact hend
    rw [List.append_assoc]
    exact .word ht hend' ih

end ApiScript.Token
