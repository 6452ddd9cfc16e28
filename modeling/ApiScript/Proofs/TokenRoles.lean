import ApiScript.Proofs.Acceptance

/-!
# The roles of tokens

The tokens of an `if`, a `for` or a `def` line with their roles: the sides of a comparison, its
operator, the kind that a function declares, and what is fixed by the form of the line. A line that
is read has exactly one such cast.
-/
namespace ApiScript

open TokenKind (classify)

/-- The text of a token, which a quoted token has between its quotes. -/
def bare (raw : String) : String := (Token.ofRaw raw).text

inductive Role where
  /-- A keyword, a name, or a mark. -/
  | fixed
  /-- One side of a comparison. -/
  | operand
  /-- The first token of the operator of a comparison. -/
  | operator
  /-- The equals sign that goes on with an operator. -/
  | extension
  /-- The kind that a function declares. -/
  | returnKind
  deriving DecidableEq, Repr

abbrev Cast := List (String × Role)

namespace Cast

def tokens (line : Cast) : List String := line.map Prod.fst

@[simp]
theorem tokens_nil : tokens [] = [] := rfl

@[simp]
theorem tokens_cons (t : String × Role) (line : Cast) :
    tokens (t :: line) = t.1 :: tokens line := rfl

@[simp]
theorem tokens_append (front back : Cast) : tokens (front ++ back) = tokens front ++ tokens back :=
  List.map_append

def all (role : Role) (raw : List String) : Cast := raw.map fun t => (t, role)

@[simp]
theorem tokens_all (role : Role) (raw : List String) : tokens (all role raw) = raw := by
  simp [tokens, all, Function.comp_def]

def negation (negated : Bool) : Cast := if negated then [("!", .fixed)] else []

inductive Operator : Cast → Comparison → Prop
  | single {sign : String} {op : Comparison} :
    bare sign = op.symbol → Operator [(sign, .operator)] op
  | joined {sign : String} {op : Comparison} :
    bare sign ++ "=" = op.symbol → Operator [(sign, .operator), ("=", .extension)] op

inductive Tested : Cast → Test → Prop
  | succeeded : Tested [("success", .fixed)] .succeeded
  | declared {name : String} : classify name = .name → Tested [(name, .fixed)] (.declared name)
  | compares {left right : String} {operator : Cast} {l r : Operand} {op : Comparison} :
    Token.ofRaw left = l.token → Operator operator op → Token.ofRaw right = r.token →
      Tested ((left, .operand) :: (operator ++ [(right, .operand)])) (.compares l op r)

inductive Declared : Cast → Option Kind → Prop
  | nothing : Declared [] none
  | kind {word : String} {kind : Kind} :
    bare word = kind.toText → Declared [(word, .returnKind)] (some kind)

inductive Writes : Cast → Instruction → Prop
  | branch {line : Cast} {test : Test} (negated : Bool) :
    Tested line test →
      Writes (("if", .fixed) :: (negation negated ++ line)) (.branch ⟨negated, test⟩)
  | loop {line : Cast} {test : Test} (negated : Bool) :
    Tested line test →
      Writes (("for", .fixed) :: (negation negated ++ line)) (.loop ⟨negated, test⟩)
  | define {name : String} {params names : List String} {kinds : Cast} {kind : Option Kind} :
    classify name = .name → Form.Parameters (params.map Token.ofRaw) names → Declared kinds kind →
      Writes (("def", .fixed) :: (name, .fixed) :: (all .fixed params ++ (":", .fixed) :: kinds))
        (.define ⟨name, names, kind⟩)

section Reading

variable {raw : List String}

theorem eq_of_classify {head : String} {kind : TokenKind} {text : String}
    (h : classify head = kind)
    (hkind : kind ∉ [.literal, .number, .increment, .decrement, .name, .unknown])
    (honly : ∀ entry ∈ TokenKind.reserved, entry.2 = kind → entry.1 = text) : head = text :=
  honly _ ((TokenKind.classify_eq_iff hkind).1 h) rfl

theorem named_iff {raw name : String} :
    Token.ofRaw raw = Form.named name ↔ classify raw = .name ∧ raw = name := by
  constructor
  · intro h
    have hname : classify raw = .name := congrArg Token.kind h
    rw [Token.ofRaw_of_classify hname nofun] at h
    exact ⟨hname, congrArg Token.text h⟩
  · rintro ⟨hname, rfl⟩
    exact Token.ofRaw_of_classify hname nofun

theorem operator_iff {op : Comparison} :
    Form.Operator (raw.map Token.ofRaw) op ↔ ∃ line, Operator line op ∧ tokens line = raw := by
  constructor
  · intro h
    generalize hraw : raw.map Token.ofRaw = ts at h
    cases h with
    | single htext =>
      obtain ⟨sign, rfl, rfl⟩ := List.map_eq_singleton_iff.1 hraw
      exact ⟨_, .single htext, rfl⟩
    | joined heq htext =>
      obtain ⟨sign, rest, rfl, rfl, hrest⟩ := List.map_eq_cons_iff.1 hraw
      obtain ⟨second, rfl, rfl⟩ := List.map_eq_singleton_iff.1 hrest
      obtain rfl : second = "=" := eq_of_classify heq (by decide) (by decide)
      exact ⟨_, .joined htext, rfl⟩
  · rintro ⟨line, h, rfl⟩
    cases h with
    | single htext => exact .single htext
    | joined htext => exact .joined (by decide +kernel) htext

theorem tested_iff {test : Test} :
    Form.Tested (raw.map Token.ofRaw) test ↔ ∃ line, Tested line test ∧ tokens line = raw := by
  constructor
  · intro h
    generalize hraw : raw.map Token.ofRaw = ts at h
    cases h with
    | succeeded hkind =>
      obtain ⟨word, rfl, rfl⟩ := List.map_eq_singleton_iff.1 hraw
      obtain rfl : word = "success" := eq_of_classify hkind (by decide) (by decide)
      exact ⟨_, .succeeded, rfl⟩
    | declared name =>
      obtain ⟨word, rfl, hword⟩ := List.map_eq_singleton_iff.1 hraw
      obtain ⟨hname, rfl⟩ := named_iff.1 hword
      exact ⟨_, .declared hname, rfl⟩
    | compares l r hform =>
      obtain ⟨left, rest, rfl, hleft, hrest⟩ := List.map_eq_cons_iff.1 hraw
      obtain ⟨middle, last, rfl, rfl, hlast⟩ := List.map_eq_append_iff.1 hrest
      obtain ⟨right, rfl, hright⟩ := List.map_eq_singleton_iff.1 hlast
      obtain ⟨operator, hoperator, rfl⟩ := operator_iff.1 hform
      exact ⟨_, .compares hleft hoperator hright, by simp⟩
  · rintro ⟨line, h, rfl⟩
    cases h with
    | succeeded => exact .succeeded (by decide +kernel)
    | @declared name hname =>
      simp only [tokens_cons, tokens_nil, List.map_cons, List.map_nil, named_iff.2 ⟨hname, rfl⟩]
      exact .declared name
    | compares hleft hoperator hright =>
      have hform := operator_iff.2 ⟨_, hoperator, rfl⟩
      simp only [tokens_cons, tokens_append, tokens_nil, List.map_cons, List.map_append,
        List.map_nil, hleft, hright]
      exact .compares _ _ hform

theorem conditional_iff {negated : Bool} {test : Test} :
    Form.Conditional (raw.map Token.ofRaw) ⟨negated, test⟩ ↔
      ∃ line, Tested line test ∧ tokens (negation negated ++ line) = raw := by
  constructor
  · intro h
    generalize hraw : raw.map Token.ofRaw = ts at h
    cases h with
    | plain htested =>
      subst hraw
      exact tested_iff.1 htested
    | negated hbang htested =>
      obtain ⟨sign, rest, rfl, rfl, rfl⟩ := List.map_eq_cons_iff.1 hraw
      obtain rfl : sign = "!" := eq_of_classify hbang (by decide) (by decide)
      obtain ⟨line, hline, rfl⟩ := tested_iff.1 htested
      exact ⟨line, hline, rfl⟩
  · rintro ⟨line, hline, rfl⟩
    have htested := tested_iff.2 ⟨line, hline, rfl⟩
    cases negated with
    | false => exact .plain htested
    | true => exact .negated (by decide +kernel) htested

theorem declared_iff {kind : Option Kind} :
    Form.Returns (raw.map Token.ofRaw) kind ↔ ∃ line, Declared line kind ∧ tokens line = raw := by
  constructor
  · intro h
    generalize hraw : raw.map Token.ofRaw = ts at h
    cases h with
    | nothing =>
      obtain rfl := List.map_eq_nil_iff.1 hraw
      exact ⟨_, .nothing, rfl⟩
    | number htext =>
      obtain ⟨word, rfl, rfl⟩ := List.map_eq_singleton_iff.1 hraw
      exact ⟨_, .kind htext, rfl⟩
    | string htext =>
      obtain ⟨word, rfl, rfl⟩ := List.map_eq_singleton_iff.1 hraw
      exact ⟨_, .kind htext, rfl⟩
  · rintro ⟨line, h, rfl⟩
    cases h with
    | nothing => exact .nothing
    | @kind word kind htext =>
      cases kind with
      | num => exact .number htext
      | str => exact .string htext

def openings : List String := ["if", "for", "def"]

theorem classify_if : classify "if" = .keyword .branch := by decide +kernel

theorem classify_for : classify "for" = .keyword .loop := by decide +kernel

theorem classify_def : classify "def" = .keyword .define := by decide +kernel

theorem read?_keyword_iff {head : String} {tail : List String} {word : Keyword} {i : Instruction}
    (hword : classify head = .keyword word) (hne : word ≠ .otherwise) :
    Instruction.read? (head :: tail) = .ok (some i) ↔ Form.Rest word (tail.map Token.ofRaw) i := by
  rw [Instruction.read?_eq_some_iff]
  constructor
  · rintro (⟨chained, hraw, -⟩ | hform)
    · cases hraw
      have helse : classify "else" = .keyword .otherwise := by decide +kernel
      rw [helse] at hword
      cases hword
      exact absurd rfl hne
    · generalize htokens : (head :: tail).map Token.ofRaw = tokens at hform
      have hkind : (Token.ofRaw head).kind = .keyword word := hword
      cases hform with
      | keyword hfirst hrest =>
        cases htokens
        rw [hkind] at hfirst
        cases hfirst
        exact hrest
      | increment hfirst =>
        rw [← (List.cons.inj htokens).1, hkind] at hfirst
        cases hfirst
      | decrement hfirst =>
        rw [← (List.cons.inj htokens).1, hkind] at hfirst
        cases hfirst
      | call name _ =>
        rw [(List.cons.inj htokens).1] at hkind
        cases hkind
  · intro hrest
    exact .inr (.keyword hword hrest)

theorem definition_iff {i : Instruction} :
    Form.Rest .define (raw.map Token.ofRaw) i ↔ ∃ name params names kinds kind,
      classify name = .name ∧ Form.Parameters (params.map Token.ofRaw) names ∧
        Declared kinds kind ∧ i = .define ⟨name, names, kind⟩ ∧
        raw = name :: (params ++ ":" :: tokens kinds) := by
  constructor
  · intro h
    generalize hraw : raw.map Token.ofRaw = ts at h
    cases h with
    | define name hparams hcolon hreturns =>
      obtain ⟨head, rest, rfl, hhead, hrest⟩ := List.map_eq_cons_iff.1 hraw
      obtain ⟨params, back, rfl, rfl, hback⟩ := List.map_eq_append_iff.1 hrest
      obtain ⟨mark, words, rfl, rfl, rfl⟩ := List.map_eq_cons_iff.1 hback
      obtain ⟨hname, rfl⟩ := named_iff.1 hhead
      obtain rfl : mark = ":" := eq_of_classify hcolon (by decide) (by decide)
      obtain ⟨kinds, hdeclared, rfl⟩ := declared_iff.1 hreturns
      exact ⟨_, _, _, _, _, hname, hparams, hdeclared, rfl, rfl⟩
  · rintro ⟨name, params, names, kinds, kind, hname, hparams, hdeclared, rfl, rfl⟩
    have hreturns := declared_iff.2 ⟨kinds, hdeclared, rfl⟩
    rw [List.map_cons, List.map_append, List.map_cons, named_iff.2 ⟨hname, rfl⟩]
    exact .define name hparams (by decide +kernel) hreturns

theorem exists_writes {head : String} {tail : List String} {i : Instruction}
    (hhead : head ∈ openings) (hread : Instruction.read? (head :: tail) = .ok (some i)) :
    ∃ line, Writes line i ∧ tokens line = head :: tail := by
  simp only [openings, List.mem_cons, List.not_mem_nil, or_false] at hhead
  rcases hhead with rfl | rfl | rfl
  · cases (read?_keyword_iff classify_if nofun).1 hread with
    | @branch _ c hcondition =>
      obtain ⟨line, hline, rfl⟩ := conditional_iff.1 hcondition
      exact ⟨_, .branch c.negated hline, rfl⟩
  · cases (read?_keyword_iff classify_for nofun).1 hread with
    | @loop _ c hcondition =>
      obtain ⟨line, hline, rfl⟩ := conditional_iff.1 hcondition
      exact ⟨_, .loop c.negated hline, rfl⟩
  · obtain ⟨name, params, names, kinds, kind, hname, hparams, hdeclared, rfl, rfl⟩ :=
      definition_iff.1 ((read?_keyword_iff classify_def nofun).1 hread)
    exact ⟨_, .define hname hparams hdeclared, by simp⟩

theorem Writes.read?_tokens {line : Cast} {i : Instruction} (h : Writes line i) :
    Instruction.read? (tokens line) = .ok (some i) := by
  cases h with
  | branch negated htested =>
    refine (read?_keyword_iff classify_if nofun).2 ?_
    exact .branch (conditional_iff.2 ⟨_, htested, rfl⟩)
  | loop negated htested =>
    refine (read?_keyword_iff classify_for nofun).2 ?_
    exact .loop (conditional_iff.2 ⟨_, htested, rfl⟩)
  | define hname hparams hdeclared =>
    simp only [tokens_cons, tokens_append, tokens_all]
    refine (read?_keyword_iff classify_def nofun).2 (definition_iff.2 ?_)
    exact ⟨_, _, _, _, _, hname, hparams, hdeclared, rfl, rfl⟩

end Reading

section Roles

variable {line other : Cast} {i : Instruction}

theorem Operator.eq_of_tokens {op op' : Comparison} (h : Operator line op) (h' : Operator other op')
    (heq : tokens line = tokens other) : line = other := by
  cases h with
  | single _ =>
    cases h' with
    | single _ => simpa using heq
    | joined _ => simp at heq
  | joined _ =>
    cases h' with
    | single _ => simp at heq
    | joined _ => simpa using heq

theorem Tested.eq_of_tokens {test : Test} (h : Tested line test) (h' : Tested other test)
    (heq : tokens line = tokens other) : line = other := by
  cases h with
  | succeeded =>
    cases h' with
    | succeeded => rfl
  | declared _ =>
    cases h' with
    | declared _ => rfl
  | compares _ hoperator _ =>
    cases h' with
    | compares _ hoperator' _ =>
      simp only [tokens_cons, tokens_append, tokens_nil, List.cons.injEq] at heq
      obtain ⟨rfl, hrest⟩ := heq
      obtain ⟨hmiddle, hlast⟩ := List.append_inj' hrest rfl
      obtain rfl := hoperator.eq_of_tokens hoperator' hmiddle
      cases hlast
      rfl

theorem Declared.eq_of_tokens {kind : Option Kind} (h : Declared line kind)
    (h' : Declared other kind) (heq : tokens line = tokens other) : line = other := by
  cases h with
  | nothing =>
    cases h' with
    | nothing => rfl
  | kind _ =>
    cases h' with
    | kind _ => simpa using heq

theorem Declared.length_tokens {kind : Option Kind} (h : Declared line kind) :
    (tokens line).length = kind.toList.length := by
  cases h <;> rfl

/-- The tokens of a line that is read have one role each. -/
theorem Writes.eq_of_tokens {j : Instruction} (h : Writes line i) (h' : Writes other j)
    (heq : tokens line = tokens other) : line = other := by
  have hsame := h.read?_tokens
  rw [heq, h'.read?_tokens] at hsame
  cases hsame
  cases h with
  | branch negated htested =>
    cases h' with
    | branch _ htested' =>
      simp only [tokens_cons, tokens_append, List.cons.injEq, true_and,
        List.append_cancel_left_eq] at heq
      rw [htested.eq_of_tokens htested' heq]
  | loop negated htested =>
    cases h' with
    | loop _ htested' =>
      simp only [tokens_cons, tokens_append, List.cons.injEq, true_and,
        List.append_cancel_left_eq] at heq
      rw [htested.eq_of_tokens htested' heq]
  | define _ _ hdeclared =>
    cases h' with
    | define _ _ hdeclared' =>
      simp only [tokens_cons, tokens_append, tokens_all, List.cons.injEq, true_and] at heq
      have hlength := hdeclared.length_tokens.trans hdeclared'.length_tokens.symm
      obtain ⟨rfl, hback⟩ := List.append_inj' heq (congrArg Nat.succ hlength)
      obtain rfl := hdeclared.eq_of_tokens hdeclared' (List.cons.inj hback).2
      rfl

end Roles

end Cast

end ApiScript
