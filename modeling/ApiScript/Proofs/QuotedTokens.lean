import ApiScript.Proofs.TokenRoles

/-!
# Quoted tokens in conditions and definitions

Most roles in a line are told by the kind of the token, so a quoted token can have none of them but
that of an operand. The operator of a comparison and the kind that a function declares are told by
the text of the token, in which the quotes are gone. These may be quoted, and the line is read as it
is without the quotes.
-/
namespace ApiScript

open TokenKind (classify)

def IsQuoted (raw : String) : Prop := TokenKind.isLiteral raw.toList = true

instance : DecidablePred IsQuoted := fun raw =>
  inferInstanceAs (Decidable (TokenKind.isLiteral raw.toList = true))

theorem isQuoted_iff {raw : String} : IsQuoted raw ↔ classify raw = .literal :=
  ⟨TokenKind.classify_of_isLiteral, TokenKind.isLiteral_of_classify⟩

theorem not_isQuoted_of_classify {raw : String} {kind : TokenKind} (h : classify raw = kind)
    (hkind : kind ≠ .literal) : ¬ IsQuoted raw := by
  rw [isQuoted_iff, h]
  exact hkind

theorem bare_of_not_isQuoted {raw : String} (h : ¬ IsQuoted raw) : bare raw = raw := by
  rw [isQuoted_iff] at h
  rw [bare, Token.ofRaw_of_classify rfl h]

theorem IsQuoted.two_le_length {raw : String} (h : IsQuoted raw) : 2 ≤ raw.toList.length := by
  simp only [IsQuoted, TokenKind.isLiteral, Bool.and_eq_true, decide_eq_true_eq] at h
  exact h.1.1

theorem bare_eq_self_iff {raw : String} : bare raw = raw ↔ ¬ IsQuoted raw := by
  refine ⟨fun hbare hquoted => ?_, bare_of_not_isQuoted⟩
  have hkind : classify raw = .literal := isQuoted_iff.1 hquoted
  have hlength := hquoted.two_le_length
  have hshorter : (bare raw).toList.length = raw.toList.length - 1 - 1 := by
    simp [bare, Token.ofRaw, hkind, Token.unquote]
  rw [hbare] at hshorter
  omega

theorem bare_quoted (text : String) : bare (quoted text) = text := by
  rw [bare, Token.ofRaw_quoted]

namespace Role

def isOperatorOrKind : Role → Bool
  | .operator | .extension | .returnKind => true
  | .fixed | .operand => false

def isTextual : Role → Bool
  | .operator | .returnKind => true
  | .fixed | .operand | .extension => false

end Role

namespace Cast

section Quotes

variable {line : Cast} {i : Instruction}

/-- Where a token may be quoted: an operand may be, and a token that is told by its text may be
quoted once. -/
def Fits : String × Role → Prop
  | (_, .operand) => True
  | (raw, .operator) | (raw, .returnKind) => ¬ IsQuoted (bare raw)
  | (raw, .fixed) | (raw, .extension) => ¬ IsQuoted raw

instance : DecidablePred Fits
  | (_, .operand) => inferInstanceAs (Decidable True)
  | (raw, .operator) | (raw, .returnKind) => inferInstanceAs (Decidable (¬ IsQuoted (bare raw)))
  | (raw, .fixed) | (raw, .extension) => inferInstanceAs (Decidable (¬ IsQuoted raw))

theorem fits_negation (negated : Bool) : ∀ t ∈ negation negated, Fits t := by
  cases negated with
  | false => exact nofun
  | true => exact List.forall_mem_cons.2 ⟨by decide, nofun⟩

theorem Operator.fits {op : Comparison} (h : Operator line op) : ∀ t ∈ line, Fits t := by
  cases h with
  | single htext =>
    refine List.forall_mem_cons.2 ⟨?_, nofun⟩
    rw [Fits, htext]
    cases op <;> decide
  | @joined sign _ htext =>
    refine List.forall_mem_cons.2 ⟨fun hquoted => ?_, List.forall_mem_cons.2 ⟨by decide, nofun⟩⟩
    -- the sign in front of the equals sign is too short for two quotes
    have hlength : (bare sign).toList.length + 1 = op.symbol.toList.length := by
      rw [← htext, String.toList_append, List.length_append]
      rfl
    have hshort : op.symbol.toList.length ≤ 2 := by cases op <;> decide
    have hlong := hquoted.two_le_length
    omega

theorem Tested.fits {test : Test} (h : Tested line test) : ∀ t ∈ line, Fits t := by
  cases h with
  | succeeded => exact List.forall_mem_cons.2 ⟨by decide, nofun⟩
  | declared hname =>
    exact List.forall_mem_cons.2 ⟨not_isQuoted_of_classify hname nofun, nofun⟩
  | compares _ hoperator _ =>
    refine List.forall_mem_cons.2 ⟨trivial, List.forall_mem_append.2 ⟨hoperator.fits, ?_⟩⟩
    exact List.forall_mem_cons.2 ⟨trivial, nofun⟩

theorem Declared.fits {kind : Option Kind} (h : Declared line kind) : ∀ t ∈ line, Fits t := by
  cases h with
  | nothing => exact nofun
  | @kind word kind htext =>
    refine List.forall_mem_cons.2 ⟨?_, nofun⟩
    rw [Fits, htext]
    cases kind <;> decide

/-- Parameters are names with marks around them. -/
theorem kind_ne_literal_of_arguments {tokens : List Token} {names : List String}
    (h : Form.Arguments tokens (names.map .name)) : ∀ t ∈ tokens, t.kind ≠ .literal := by
  generalize hvs : names.map Operand.name = vs at h
  induction h generalizing names with
  | last v hclose =>
    obtain ⟨name, rfl, rfl⟩ := List.map_eq_singleton_iff.1 hvs
    simp [hclose, Operand.token]
  | more v hcomma _ ih =>
    obtain ⟨name, rest, rfl, rfl, hrest⟩ := List.map_eq_cons_iff.1 hvs
    simpa [hcomma, Operand.token] using ih hrest

theorem kind_ne_literal_of_parameters {tokens : List Token} {names : List String}
    (h : Form.Parameters tokens names) : ∀ t ∈ tokens, t.kind ≠ .literal := by
  cases h with
  | omitted => exact nofun
  | listed hlist =>
    generalize hvs : names.map Operand.name = vs at hlist
    cases hlist with
    | none hopening hclose => simp [hopening, hclose]
    | some hopening hargs =>
      subst hvs
      exact List.forall_mem_cons.2 ⟨by simp [hopening], kind_ne_literal_of_arguments hargs⟩

theorem Writes.fits (h : Writes line i) : ∀ t ∈ line, Fits t := by
  cases h with
  | branch negated htested =>
    refine List.forall_mem_cons.2 ⟨by decide, List.forall_mem_append.2 ⟨?_, htested.fits⟩⟩
    exact fits_negation negated
  | loop negated htested =>
    refine List.forall_mem_cons.2 ⟨by decide, List.forall_mem_append.2 ⟨?_, htested.fits⟩⟩
    exact fits_negation negated
  | @define _ params _ _ _ hname hparams hdeclared =>
    have hmiddle : ∀ t ∈ all .fixed params, Fits t := by
      intro t ht
      obtain ⟨param, hparam, rfl⟩ := List.mem_map.1 ht
      intro hquoted
      exact kind_ne_literal_of_parameters hparams _ (List.mem_map_of_mem hparam)
        (isQuoted_iff.1 hquoted)
    have hbare : Fits (_, .fixed) := not_isQuoted_of_classify hname nofun
    refine List.forall_mem_cons.2 ⟨by decide, List.forall_mem_cons.2 ⟨hbare, ?_⟩⟩
    exact List.forall_mem_append.2 ⟨hmiddle, List.forall_mem_cons.2 ⟨by decide, hdeclared.fits⟩⟩

/-- To be quoted as an operand only is to be bare as an operator and as a declared kind. -/
theorem Fits.quoted_iff {t : String × Role} (h : Fits t) :
    (IsQuoted t.1 → t.2 = .operand) ↔ (t.2.isOperatorOrKind = true → ¬ IsQuoted t.1) := by
  obtain ⟨raw, role⟩ := t
  cases role with
  | operand => simp [Role.isOperatorOrKind]
  | fixed =>
    have hbare : ¬ IsQuoted raw := h
    simp [hbare]
  | extension =>
    have hbare : ¬ IsQuoted raw := h
    simp [hbare]
  | operator => simp [Role.isOperatorOrKind]
  | returnKind => simp [Role.isOperatorOrKind]

theorem Fits.operand_or_isTextual {t : String × Role} (h : Fits t) (hquoted : IsQuoted t.1) :
    t.2 = .operand ∨ t.2.isTextual = true := by
  obtain ⟨raw, role⟩ := t
  cases role with
  | operand => exact .inl rfl
  | fixed => exact absurd hquoted h
  | extension => exact absurd hquoted h
  | operator => exact .inr rfl
  | returnKind => exact .inr rfl

end Quotes

def respell (spell : String → String) (line : Cast) : Cast :=
  line.map fun t => if t.2.isTextual then (spell t.1, t.2) else t

section Spelling

variable {line : Cast} {i : Instruction} {spell : String → String}

def KeepsText (spell : String → String) (line : Cast) : Prop :=
  ∀ t ∈ line, t.2.isTextual = true → bare (spell t.1) = bare t.1

theorem KeepsText.tail {t : String × Role} (h : KeepsText spell (t :: line)) :
    KeepsText spell line :=
  (List.forall_mem_cons.1 h).2

theorem KeepsText.left {back : Cast} (h : KeepsText spell (line ++ back)) : KeepsText spell line :=
  (List.forall_mem_append.1 h).1

theorem KeepsText.right {front : Cast} (h : KeepsText spell (front ++ line)) :
    KeepsText spell line :=
  (List.forall_mem_append.1 h).2

theorem respell_append (spell : String → String) (front back : Cast) :
    respell spell (front ++ back) = respell spell front ++ respell spell back :=
  List.map_append

theorem respell_cons_fixed (spell : String → String) (t : String) (line : Cast) :
    respell spell ((t, .fixed) :: line) = (t, .fixed) :: respell spell line := rfl

theorem respell_negation (spell : String → String) (negated : Bool) :
    respell spell (negation negated) = negation negated := by
  cases negated <;> rfl

theorem respell_all_fixed (spell : String → String) (raw : List String) :
    respell spell (all .fixed raw) = all .fixed raw :=
  List.map_map

theorem Operator.respell {op : Comparison} (h : Operator line op) (hspell : KeepsText spell line) :
    Operator (respell spell line) op := by
  cases h with
  | single htext => exact .single ((hspell _ List.mem_cons_self rfl).trans htext)
  | joined htext => exact .joined (by rw [hspell _ List.mem_cons_self rfl, htext])

theorem Tested.respell {test : Test} (h : Tested line test) (hspell : KeepsText spell line) :
    Tested (respell spell line) test := by
  cases h with
  | succeeded => exact .succeeded
  | declared hname => exact .declared hname
  | @compares left right operator _ _ _ hleft hoperator hright =>
    have hsame : Cast.respell spell ((left, .operand) :: (operator ++ [(right, .operand)])) =
        (left, .operand) :: (Cast.respell spell operator ++ [(right, .operand)]) :=
      congrArg (List.cons _) (respell_append spell operator _)
    rw [hsame]
    exact .compares hleft (hoperator.respell hspell.tail.left) hright

theorem Declared.respell {kind : Option Kind} (h : Declared line kind)
    (hspell : KeepsText spell line) : Declared (respell spell line) kind := by
  cases h with
  | nothing => exact .nothing
  | kind htext => exact .kind ((hspell _ List.mem_cons_self rfl).trans htext)

/-- A line is read as before if other tokens with the same text stand where the text counts. -/
theorem Writes.respell (h : Writes line i) (hspell : KeepsText spell line) :
    Writes (respell spell line) i := by
  cases h with
  | branch negated htested =>
    rw [respell_cons_fixed, respell_append, respell_negation]
    exact .branch negated (htested.respell hspell.tail.right)
  | loop negated htested =>
    rw [respell_cons_fixed, respell_append, respell_negation]
    exact .loop negated (htested.respell hspell.tail.right)
  | define hname hparams hdeclared =>
    rw [respell_cons_fixed, respell_cons_fixed, respell_append, respell_all_fixed,
      respell_cons_fixed]
    exact .define hname hparams (hdeclared.respell hspell.tail.tail.right.tail)

theorem Fits.bare_bare {t : String × Role} (h : Fits t) (htextual : t.2.isTextual = true) :
    bare (bare t.1) = bare t.1 := by
  obtain ⟨raw, role⟩ := t
  cases role with
  | operator => exact bare_of_not_isQuoted h
  | returnKind => exact bare_of_not_isQuoted h
  | fixed => cases htextual
  | operand => cases htextual
  | extension => cases htextual

theorem respell_bare_eq_self_iff :
    respell bare line = line ↔ ∀ t ∈ line, t.2.isTextual = true → ¬ IsQuoted t.1 := by
  have htoken (t : String × Role) :
      (if t.2.isTextual then (bare t.1, t.2) else t) = t ↔
        (t.2.isTextual = true → ¬ IsQuoted t.1) := by
    by_cases htextual : t.2.isTextual = true
    · simp [htextual, Prod.ext_iff, bare_eq_self_iff]
    · simp [htextual]
  rw [respell, ← forall₂_congr fun t _ => htoken t]
  nth_rewrite 2 [← List.map_id line]
  exact List.map_inj_left

end Spelling

end Cast

/-- Every token of a condition or a definition that is read has one role. A quoted token is an
operand, or it is told by its text. The quotes stand at operands only exactly if operators and
declared kinds are bare, which is so exactly if no token that is told by its text is quoted. With
and without quotes at these tokens the line is read as the same instruction. -/
theorem quoted_operators_and_kinds_are_read {head : String} {tail : List String} {i : Instruction}
    (hhead : head ∈ Cast.openings) (hread : Instruction.read? (head :: tail) = .ok (some i)) :
    ∃ line : Cast, line.Writes i ∧ line.tokens = head :: tail ∧
      (∀ (other : Cast) (j : Instruction), other.Writes j → other.tokens = head :: tail →
        other = line) ∧
      (∀ t ∈ line, IsQuoted t.1 → t.2 = .operand ∨ t.2.isTextual = true) ∧
      ((∀ t ∈ line, IsQuoted t.1 → t.2 = .operand) ↔
        ∀ t ∈ line, t.2.isOperatorOrKind = true → ¬ IsQuoted t.1) ∧
      ((∀ t ∈ line, IsQuoted t.1 → t.2 = .operand) ↔ line.respell bare = line) ∧
      Instruction.read? (line.respell bare).tokens = .ok (some i) ∧
      Instruction.read? (line.respell fun raw => quoted (bare raw)).tokens = .ok (some i) := by
  obtain ⟨line, hline, htokens⟩ := Cast.exists_writes hhead hread
  have hfits := hline.fits
  have hbare : Cast.KeepsText bare line := fun t ht => (hfits t ht).bare_bare
  have hquoted : Cast.KeepsText (fun raw => quoted (bare raw)) line :=
    fun t _ _ => bare_quoted (bare t.1)
  refine ⟨line, hline, htokens, ?_, ?_, ?_, ?_, ?_, ?_⟩
  · intro other j hother hsame
    exact hother.eq_of_tokens hline (hsame.trans htokens.symm)
  · intro t ht hquoted
    exact (hfits t ht).operand_or_isTextual hquoted
  · exact forall₂_congr fun t ht => (hfits t ht).quoted_iff
  · rw [Cast.respell_bare_eq_self_iff]
    constructor
    · intro h t ht htextual hquoted
      rw [h t ht hquoted] at htextual
      cases htextual
    · intro h t ht hquoted
      rcases (hfits t ht).operand_or_isTextual hquoted with hoperand | htextual
      · exact hoperand
      · exact absurd hquoted (h t ht htextual)
  · exact (hline.respell hbare).read?_tokens
  · exact (hline.respell hquoted).read?_tokens

/-- The first sign of an operator is quoted, and so is an operand. Without the quotes at the sign
the line is read as the same loop. -/
theorem quoted_sign_is_read_as_bare :
    let raw := ["for", "!", "i", "'<'", "=", "'='"]
    let i : Instruction := .loop ⟨true, .compares (.name "i") .lessEqual (.literal "=")⟩
    Instruction.read? raw = .ok (some i) ∧
      ∃ line : Cast, line.Writes i ∧ line.tokens = raw ∧
        (∀ t ∈ line, IsQuoted t.1 → t.2 = .operand ∨ t.2.isTextual = true) ∧
        (line.respell bare).tokens = ["for", "!", "i", "<", "=", "'='"] ∧
        Instruction.read? (line.respell bare).tokens = .ok (some i) := by
  intro raw i
  have hread : Instruction.read? raw = .ok (some i) := by decide +kernel
  obtain ⟨line, hline, htokens, hunique, hplaced, -, -, hbare, -⟩ :=
    quoted_operators_and_kinds_are_read (by decide) hread
  let known : Cast :=
    [("for", .fixed), ("!", .fixed), ("i", .operand), ("'<'", .operator), ("=", .extension),
      ("'='", .operand)]
  have hknown : known.Writes i :=
    .loop true (.compares (by decide +kernel) (.joined (by decide +kernel)) (by decide +kernel))
  obtain rfl : known = line := hunique known i hknown rfl
  exact ⟨hread, known, hline, htokens, hplaced, by decide +kernel, hbare⟩

/-- A quoted operator and a quoted kind are taken for what their texts say. -/
theorem quoted_operator_and_kind_accepted :
    let comparison : Cast :=
      [("if", .fixed), ("i", .operand), ("'=='", .operator), ("1", .operand)]
    let definition : Cast :=
      [("def", .fixed), ("F", .fixed), (":", .fixed), ("'num'", .returnKind)]
    Token.tokenize "if i '==' 1" = .ok comparison.tokens ∧
      Instruction.read? comparison.tokens =
        .ok (some (.branch ⟨false, .compares (.name "i") .equal (.number "1")⟩)) ∧
      comparison.Writes (.branch ⟨false, .compares (.name "i") .equal (.number "1")⟩) ∧
      IsQuoted "'=='" ∧
      Token.tokenize "def F: 'num'" = .ok definition.tokens ∧
      Instruction.read? definition.tokens = .ok (some (.define ⟨"F", [], some .num⟩)) ∧
      definition.Writes (.define ⟨"F", [], some .num⟩) ∧ IsQuoted "'num'" := by
  intro comparison definition
  have hcomparison :
      comparison.Writes (.branch ⟨false, .compares (.name "i") .equal (.number "1")⟩) :=
    .branch false (.compares (by decide +kernel) (.single (by decide +kernel)) (by decide +kernel))
  have hdefinition : definition.Writes (.define ⟨"F", [], some .num⟩) :=
    @Cast.Writes.define "F" [] [] [("'num'", .returnKind)] (some .num) (by decide +kernel) .omitted
      (.kind (by decide +kernel))
  exact ⟨by decide +kernel, hcomparison.read?_tokens, hcomparison, by decide, by decide +kernel,
    hdefinition.read?_tokens, hdefinition, by decide⟩

end ApiScript
