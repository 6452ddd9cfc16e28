import ApiScript.Proofs.InstructionForms
import ApiScript.Proofs.Lexemes
import ApiScript.Proofs.NumericText

/-!
# The spelling of tokens

A token that a line can hold is spelled by a lexeme. The lexeme of a name, a number or a step is the
text itself, and that of a literal is its text in quotes, so a token can be written again from its
text and its kind.
-/
namespace ApiScript

open TokenKind (classify)

def quoted (text : String) : String := "'" ++ text ++ "'"

theorem toList_quoted (text : String) : (quoted text).toList = '\'' :: (text.toList ++ ['\'']) := by
  simp [quoted, String.toList_append]

namespace TokenKind

theorem isLiteral_quotes (cs : List Char) : isLiteral ('\'' :: (cs ++ ['\''])) = true := by
  have hlast : ('\'' :: (cs ++ ['\''])).getLast? = some '\'' := by
    rw [← List.cons_append, List.getLast?_concat]
  simp [isLiteral, hlast]

theorem classify_of_isLiteral {raw : String} (h : isLiteral raw.toList = true) :
    classify raw = .literal := by
  rw [classify, if_pos h]

/-- What is classified by its spelling as a name is no reserved text. -/
theorem classify_eq_ofName {raw : String}
    (h : classify raw ∈ [increment, decrement, name, unknown]) :
    classify raw = ofName raw.toList := by
  unfold classify at h ⊢
  split
  · next hliteral => simp [hliteral] at h
  split
  · next hliteral hnumeric => simp [hliteral, hnumeric] at h
  · next hliteral hnumeric =>
    rw [if_neg hliteral, if_neg hnumeric] at h
    cases hlookup : reserved.lookup raw with
    | none => rfl
    | some kind =>
      rw [hlookup, Option.getD_some] at h
      have hmem := mem_reserved_of_lookup hlookup
      have hkinds : ∀ entry ∈ reserved, entry.2 ∉ [increment, decrement, name, unknown] := by decide
      exact absurd h (hkinds _ hmem)

theorem isLiteral_of_classify {raw : String} (h : classify raw = .literal) :
    isLiteral raw.toList = true := by
  by_contra hliteral
  unfold classify at h
  rw [if_neg hliteral] at h
  split at h
  · cases h
  · cases hlookup : reserved.lookup raw with
    | none =>
      rw [hlookup, Option.getD_none] at h
      have hname := ofName_mem raw.toList
      rw [h] at hname
      simp at hname
    | some kind =>
      rw [hlookup, Option.getD_some] at h
      have hmem := mem_reserved_of_lookup hlookup
      have hkinds : ∀ entry ∈ reserved, entry.2 ≠ .literal := by decide
      exact hkinds _ hmem h

/-- The last two characters of a step are its sign. -/
theorem exists_append_of_ofName {cs : List Char} {kind : TokenKind} {sign : List Char}
    (hkind : kind = .increment ∧ sign = ['+', '+'] ∨ kind = .decrement ∧ sign = ['-', '-'])
    (h : ofName cs = kind) : ∃ base, cs = base ++ sign := by
  unfold ofName at h
  split at h
  · next base hreverse =>
    rcases hkind with ⟨-, rfl⟩ | ⟨rfl, rfl⟩
    · exact ⟨base.reverse, List.reverse_eq_iff.1 hreverse |>.trans (by simp)⟩
    · split at h <;> cases h
  · next base hreverse =>
    rcases hkind with ⟨rfl, rfl⟩ | ⟨-, rfl⟩
    · split at h <;> cases h
    · exact ⟨base.reverse, List.reverse_eq_iff.1 hreverse |>.trans (by simp)⟩
  · rcases hkind with ⟨rfl, -⟩ | ⟨rfl, -⟩
    · split at h <;> cases h
    · split at h <;> cases h

end TokenKind

namespace Token

theorem ofRaw_quoted (text : String) : ofRaw (quoted text) = ⟨text, .literal⟩ := by
  have hliteral : TokenKind.isLiteral (quoted text).toList = true := by
    rw [toList_quoted]
    exact TokenKind.isLiteral_quotes text.toList
  have hclassify := TokenKind.classify_of_isLiteral hliteral
  simp [ofRaw, hclassify, unquote, toList_quoted]

theorem ofRaw_of_classify {raw : String} {kind : TokenKind} (h : classify raw = kind)
    (hkind : kind ≠ .literal) : ofRaw raw = ⟨raw, kind⟩ := by
  subst h
  simp [ofRaw, hkind]

theorem isLexeme_quoted {text : String} (h : '\'' ∉ text.toList) :
    IsLexeme (quoted text).toList := by
  rw [toList_quoted]
  exact .closed (.literal h)

structure Spells (raw : String) (t : Token) : Prop where
  ofRaw_eq : ofRaw raw = t
  isLexeme : IsLexeme raw.toList

def IsSpelled (t : Token) : Prop := ∃ raw, Spells raw t

theorem isSpelled_of_tokenize {line : String} {raw : List String} (h : tokenize line = .ok raw) :
    ∀ t ∈ raw.map ofRaw, IsSpelled t := by
  intro t ht
  obtain ⟨r, hr, rfl⟩ := List.mem_map.1 ht
  exact ⟨r, rfl, isLexeme_of_tokenize h r hr⟩

theorem classify_of_ofRaw {raw text : String} {kind : TokenKind} (h : ofRaw raw = ⟨text, kind⟩) :
    classify raw = kind := congrArg Token.kind h

/-- A lexeme for a literal is its text in quotes. -/
theorem spells_literal {raw text : String} (h : Spells raw ⟨text, .literal⟩) :
    raw = quoted text ∧ '\'' ∉ text.toList := by
  obtain ⟨hraw, hlexeme⟩ := h
  have hliteral := TokenKind.isLiteral_of_classify (classify_of_ofRaw hraw)
  have hshape : ∃ cs, raw.toList = '\'' :: (cs ++ ['\'']) ∧ '\'' ∉ cs := by
    generalize raw.toList = chars at hliteral hlexeme
    cases hlexeme with
    | closed hclosed =>
      cases hclosed with
      | literal hcs => exact ⟨_, rfl, hcs⟩
      | delimiter _ => simp [TokenKind.isLiteral] at hliteral
    | word hword =>
      cases chars with
      | nil => exact absurd rfl hword.ne_nil
      | cons c cs =>
        have hplain := isPlain_iff.1 (hword.plain c List.mem_cons_self)
        simp [TokenKind.isLiteral, hplain.2.1] at hliteral
  obtain ⟨cs, hcs, hquote⟩ := hshape
  have hquoted : raw = quoted (String.ofList cs) := by
    apply String.toList_inj.1
    rw [hcs, toList_quoted, String.toList_ofList]
  rw [hquoted, ofRaw_quoted] at hraw
  cases hraw
  exact ⟨hquoted, by rwa [String.toList_ofList]⟩

theorem spells_of_ne_literal {raw text : String} {kind : TokenKind} (h : Spells raw ⟨text, kind⟩)
    (hkind : kind ≠ .literal) : raw = text := by
  have hclassify := classify_of_ofRaw h.ofRaw_eq
  have hraw := h.ofRaw_eq
  rw [ofRaw_of_classify hclassify hkind] at hraw
  exact congrArg Token.text hraw

theorem not_mem_quote_of_isSpelled {t : Token} (h : t.IsSpelled) : '\'' ∉ t.text.toList := by
  obtain ⟨raw, hraw⟩ := h
  obtain ⟨text, kind⟩ := t
  by_cases hkind : kind = .literal
  · subst hkind
    exact (spells_literal hraw).2
  · obtain rfl := spells_of_ne_literal hraw hkind
    intro hquote
    have hclassify := classify_of_ofRaw hraw.ofRaw_eq
    cases hraw.isLexeme with
    | closed hclosed =>
      generalize hchars : raw.toList = chars at hclosed hquote
      cases hclosed with
      | @literal cs _ =>
        have hliteral : TokenKind.isLiteral raw.toList = true := by
          rw [hchars]
          exact TokenKind.isLiteral_quotes cs
        exact hkind (hclassify.symm.trans (TokenKind.classify_of_isLiteral hliteral))
      | delimiter hc =>
        rw [List.mem_singleton] at hquote
        exact quote_not_mem_delimiters (hquote ▸ hc)
    | word hword => exact (isPlain_iff.1 (hword.plain _ hquote)).2.1 rfl

end Token

def Operand.raw : Operand → String
  | .number text => text
  | .literal text => quoted text
  | .name text => text

theorem Operand.spells_raw {v : Operand} (h : v.token.IsSpelled) : Token.Spells v.raw v.token := by
  obtain ⟨raw, hraw⟩ := h
  have heq : raw = v.raw := by
    cases v with
    | number text => exact Token.spells_of_ne_literal hraw nofun
    | literal text => exact (Token.spells_literal hraw).1
    | name text => exact Token.spells_of_ne_literal hraw nofun
  rwa [heq] at hraw

theorem spells_named {name : String} (h : (Form.named name).IsSpelled) :
    Token.Spells name (Form.named name) := Operand.spells_raw (v := .name name) h

/-- A token for a step is spelled by its target and the sign. -/
theorem spells_step {t : Token} {sign : String} (h : t.IsSpelled)
    (hkind : t.kind = .increment ∧ sign = "++" ∨ t.kind = .decrement ∧ sign = "--") :
    Token.Spells (Reader.stepTarget t.text ++ sign) t := by
  obtain ⟨raw, hraw⟩ := h
  obtain ⟨text, kind⟩ := t
  have hne : kind ≠ .literal := by
    rintro rfl
    rcases hkind with ⟨hkind, -⟩ | ⟨hkind, -⟩
    · cases hkind
    · cases hkind
  obtain rfl := Token.spells_of_ne_literal hraw hne
  have hclassify : TokenKind.classify raw = kind := Token.classify_of_ofRaw hraw.ofRaw_eq
  have hname : TokenKind.ofName raw.toList = kind := by
    rw [← hclassify]
    apply (TokenKind.classify_eq_ofName _).symm
    rw [hclassify]
    rcases hkind with ⟨rfl, -⟩ | ⟨rfl, -⟩
    · decide
    · decide
  have hsign : kind = .increment ∧ sign.toList = ['+', '+'] ∨
      kind = .decrement ∧ sign.toList = ['-', '-'] := by
    rcases hkind with ⟨hkind, rfl⟩ | ⟨hkind, rfl⟩
    · exact .inl ⟨hkind, rfl⟩
    · exact .inr ⟨hkind, rfl⟩
  obtain ⟨base, hbase⟩ := TokenKind.exists_append_of_ofName hsign hname
  have htext : Reader.stepTarget raw ++ sign = raw := by
    apply String.toList_inj.1
    have hdrop : (base ++ sign.toList).dropLast.dropLast = base := by
      rcases hsign with ⟨-, hsign⟩ | ⟨-, hsign⟩
      · simp [hsign]
      · simp [hsign]
    rw [String.toList_append, Reader.stepTarget, String.toList_ofList, hbase, hdrop]
  rwa [htext]

section Numbers

theorem digitsValue_repr (n : Nat) : Numeral.digitsValue (Nat.repr n).toList = n := by
  rw [Nat.repr, String.toList_ofList]
  exact Nat.ofDigitChars_toDigits (by decide) (by decide)

theorem whole?_repr {n : Nat} (h : n < 2 ^ 64) : whole? (Nat.repr n) = some n := by
  have hdigits : Numeral.digitsOnly? (Nat.repr n).toList = some (Nat.repr n).toList := by
    rw [Numeral.digitsOnly?, if_pos]
    exact ⟨repr_ne_nil n, List.all_eq_true.2 (isDigit_repr n)⟩
  have hwhole : wholeDigits? (Nat.repr n).toList = some (Nat.repr n).toList := by
    rw [← hdigits]
    apply wholeDigits?.eq_2
    intro cs hcs
    have hplus := isDigit_repr n '+' (by simp [hcs])
    cases hplus
  rw [whole?, hwhole, Option.bind_eq_bind, Option.bind_some, digitsValue_repr]
  exact if_pos h

theorem lt_of_whole? {text : String} {n : Nat} (h : whole? text = some n) : n < 2 ^ 64 := by
  unfold whole? at h
  obtain ⟨digits, -, h⟩ := Option.bind_eq_some_iff.1 h
  dsimp only at h
  split at h
  · next hlt =>
    cases h
    exact hlt
  · cases h

theorem isPlain_of_isDigit {c : Char} (h : c.isDigit = true) : Token.isPlain c = true := by
  have hrange := toNat_of_isDigit h
  have hne {d : Char} (hd : d.toNat < 48 ∨ 57 < d.toNat) : c ≠ d := by
    rintro rfl
    omega
  have hdelimiter : c ∉ Token.delimiters := by
    have hall : Token.delimiters.all (fun d => d.toNat < 48 ∨ 57 < d.toNat) = true := by decide
    exact fun hmem => hne (of_decide_eq_true (List.all_eq_true.1 hall c hmem)) rfl
  exact Token.isPlain_iff.2
    ⟨hne (by decide), hne (by decide), (isVisible_of_isDigit h).isBlank, hdelimiter⟩

theorem spells_repr (n : Nat) : Token.Spells (Nat.repr n) ⟨Nat.repr n, .number⟩ := by
  have hliteral : TokenKind.isLiteral (Nat.repr n).toList = false := by
    cases hchars : (Nat.repr n).toList with
    | nil => exact absurd hchars (repr_ne_nil n)
    | cons c cs =>
      have hdigit := isDigit_repr n c (by simp [hchars])
      have hquote := (Token.isPlain_iff.1 (isPlain_of_isDigit hdigit)).2.1
      simp [TokenKind.isLiteral, hquote]
  have hclassify : TokenKind.classify (Nat.repr n) = .number := by
    rw [TokenKind.classify, hliteral, if_neg Bool.false_ne_true,
      if_pos (positional_repr n).isNumeric]
  exact ⟨Token.ofRaw_of_classify hclassify nofun,
    .word ⟨repr_ne_nil n, fun c hc => isPlain_of_isDigit (isDigit_repr n c hc)⟩⟩

end Numbers

end ApiScript
