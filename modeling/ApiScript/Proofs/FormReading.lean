import ApiScript.Proofs.InstructionForms

/-!
# Reading the forms

Conditions, requests and the other forms are read as the grammar has them, so a line is read as an
instruction exactly when it is a line of the grammar, or `else` with anything after it.
-/
namespace ApiScript

namespace Reader

open Form

variable {α : Type} {tokens rest : List Token}

theorem comparisonOf_eq_ok {text : String} {op : Comparison} :
    comparisonOf text = .ok op ↔ text = op.symbol := by
  constructor
  · intro h
    unfold comparisonOf at h
    split at h
    case h_7 => cases h
    all_goals
      next hkind =>
        cases h
        have hreserved := TokenKind.mem_reserved_of_mark hkind
        simpa [TokenKind.reserved, Comparison.symbol] using hreserved
  · rintro rfl
    cases op <;> rfl

/-- The text of an operator and the tokens that it is read from. -/
theorem operatorText_cases {text : String} (h : operatorText tokens = .ok (text, rest)) :
    ∃ t, (tokens = t :: rest ∧ text = t.text) ∨
      ∃ eq, eq.kind = .mark .assign ∧ tokens = t :: eq :: rest ∧ text = t.text ++ "=" := by
  rw [operatorText, bind_eq_ok] at h
  obtain ⟨t, mid, ht, h⟩ := h
  obtain rfl := next_eq_ok.1 ht
  refine ⟨t, ?_⟩
  split at h
  · obtain ⟨joined, after, heat, htext⟩ := bind_eq_ok.1 h
    cases joined with
    | true =>
      obtain ⟨eq, heq, rfl⟩ := eat_eq_true.1 heat
      obtain ⟨rfl, rfl⟩ := pure_eq_ok.1 htext
      exact .inr ⟨eq, heq, rfl, rfl⟩
    | false =>
      obtain ⟨rfl, -⟩ := eat_eq_false.1 heat
      obtain ⟨rfl, rfl⟩ := pure_eq_ok.1 htext
      exact .inl ⟨rfl, rfl⟩
  · obtain ⟨rfl, rfl⟩ := pure_eq_ok.1 h
    exact .inl ⟨rfl, rfl⟩

theorem operatorText_of_operator {op : Comparison} (h : Operator tokens op) (r : Operand) :
    operatorText (tokens ++ [r.token]) = .ok (op.symbol, [r.token]) := by
  have hnot : eat (.mark .assign) [r.token] = .ok (false, [r.token]) :=
    eat_eq_false.2 ⟨rfl, kindOf?_token_ne r .assign⟩
  rw [operatorText, bind_eq_ok]
  cases h with
  | @single t _ htext =>
    refine ⟨t, [r.token], rfl, ?_⟩
    rw [← htext]
    split
    · exact bind_eq_ok.2 ⟨false, _, hnot, rfl⟩
    · rfl
  | @joined t eq _ heq htext =>
    refine ⟨t, [eq, r.token], rfl, ?_⟩
    have hinit : t.text = String.ofList op.symbol.toList.dropLast := by
      simp [← htext, String.toList_append]
    have hlast : op.symbol.toList.getLast? = some '=' := by simp [← htext, String.toList_append]
    have hfirst : t.text = "=" ∨ t.text = "!" ∨ t.text = "<" ∨ t.text = ">" := by
      rw [hinit]
      revert hlast
      cases op <;> decide
    rw [if_pos hfirst, ← htext]
    exact bind_eq_ok.2 ⟨true, _, eat_eq_true.2 ⟨eq, heq, rfl⟩, rfl⟩

theorem takes_comparison (t : Token) : Takes (comparison t) fun tokens test => ∃ l r front op,
    t = l.token ∧ tokens = front ++ [r.token] ∧ Operator front op ∧ test = .compares l op r := by
  intro tokens test rest
  simp only [comparison, bind_eq_ok, lift_eq_ok, operand_eq_ok, comparisonOf_eq_ok,
    nextOperand_eq_ok, finish_eq_ok, pure_eq_ok]
  constructor
  · rintro ⟨l, _, ⟨rfl, rfl⟩, text, _, htext, op, _, ⟨rfl, rfl⟩, r, _, rfl, -, -, ⟨rfl, rfl⟩, rfl,
      rfl⟩
    refine ⟨rfl, l, r, ?_⟩
    rcases operatorText_cases htext with ⟨s, ⟨rfl, hs⟩ | ⟨eq, heq, rfl, hs⟩⟩
    · exact ⟨[s], op, rfl, rfl, .single hs.symm, rfl⟩
    · exact ⟨[s, eq], op, rfl, rfl, .joined heq hs.symm, rfl⟩
  · rintro ⟨rfl, l, r, front, op, rfl, rfl, hop, rfl⟩
    exact ⟨l, _, ⟨rfl, rfl⟩, _, _, operatorText_of_operator hop r, op, _, ⟨rfl, rfl⟩, r, _, rfl, (),
      _, ⟨rfl, rfl⟩, rfl, rfl⟩

theorem declaredTest_eq_ok {t : Token} {test : Test} :
    declaredTest t = .ok test ↔ ∃ name, t = named name ∧ test = .declared name := by
  obtain ⟨text, kind⟩ := t
  unfold declaredTest
  split
  · next h =>
    cases h
    simp [named, eq_comm]
  · next h => simp [named, refuse]; grind

theorem takes_nameOrComparison :
    Takes nameOrComparison fun tokens test => Tested tokens test ∧ test ≠ .succeeded := by
  intro tokens test rest
  simp only [nameOrComparison, bind_eq_ok, next_eq_ok, get_eq_ok]
  constructor
  · rintro ⟨first, _, rfl, _, _, ⟨rfl, rfl⟩, h⟩
    split at h
    · next hlone =>
      subst hlone
      obtain ⟨hname, rfl⟩ := lift_eq_ok.1 h
      obtain ⟨name, rfl, rfl⟩ := declaredTest_eq_ok.1 hname
      exact ⟨rfl, .declared name, nofun⟩
    · obtain ⟨rfl, l, r, front, op, rfl, rfl, hop, rfl⟩ := (takes_comparison _ _ _ _).1 h
      exact ⟨rfl, .compares l r hop, nofun⟩
  · rintro ⟨rfl, h, hne⟩
    cases h with
    | succeeded _ => exact absurd rfl hne
    | declared name =>
      exact ⟨_, _, rfl, _, _, ⟨rfl, rfl⟩, lift_eq_ok.2 ⟨declaredTest_eq_ok.2 ⟨name, rfl, rfl⟩, rfl⟩⟩
    | @compares front op l r hop =>
      refine ⟨_, _, rfl, _, _, ⟨rfl, rfl⟩, ?_⟩
      rw [if_neg (by simp)]
      exact (takes_comparison _ _ _ _).2 ⟨rfl, l, r, front, op, rfl, rfl, hop, rfl⟩

/-- A test other than that for success begins with the token of a value. -/
theorem Tested.exists_token {test : Test} (h : Tested tokens test) (hne : test ≠ .succeeded) :
    ∃ v rest, tokens = Operand.token v :: rest := by
  cases h with
  | succeeded _ => exact absurd rfl hne
  | declared name => exact ⟨.name name, _, rfl⟩
  | compares l r _ => exact ⟨l, _, rfl⟩

def test : Reader Test := do
  let success ← eat (.word .success)
  if success then succeeded else nameOrComparison

theorem condition_eq_bind : condition = (do
    let negated ← eat (.mark .bang)
    let test ← test
    pure (Condition.mk negated test)) := by
  unfold condition test
  simp only [bind_assoc]
  congr
  funext negated
  congr
  funext success
  cases success <;> rfl

theorem takes_test : Takes test Tested := by
  intro tokens t rest
  rw [test, bind_eq_ok]
  constructor
  · rintro ⟨success, mid, heat, h⟩
    cases success with
    | true =>
      obtain ⟨t, ht, rfl⟩ := eat_eq_true.1 heat
      simp only [succeeded, if_true, bind_eq_ok, finish_eq_ok, pure_eq_ok] at h
      obtain ⟨-, -, ⟨rfl, rfl⟩, rfl, rfl⟩ := h
      exact ⟨rfl, .succeeded ht⟩
    | false =>
      obtain ⟨rfl, -⟩ := eat_eq_false.1 heat
      obtain ⟨rfl, htest, -⟩ := (takes_nameOrComparison _ _ _).1 h
      exact ⟨rfl, htest⟩
  · rintro ⟨rfl, h⟩
    by_cases hne : t = .succeeded
    · subst hne
      cases h with
      | succeeded ht => exact ⟨true, [], eat_eq_true.2 ⟨_, ht, rfl⟩, rfl⟩
    · have hsuccess : kindOf? tokens ≠ some (.word .success) := by
        obtain ⟨v, rest, rfl⟩ := Tested.exists_token h hne
        cases v <;> simp [kindOf?, Operand.token]
      exact ⟨false, tokens, eat_eq_false.2 ⟨rfl, hsuccess⟩,
        (takes_nameOrComparison _ _ _).2 ⟨rfl, h, hne⟩⟩

theorem takes_condition : Takes condition Conditional := by
  intro tokens c rest
  rw [condition_eq_bind, bind_eq_ok]
  constructor
  · rintro ⟨negated, mid, heat, h⟩
    obtain ⟨test, after, hread, h⟩ := bind_eq_ok.1 h
    obtain ⟨rfl, htest⟩ := (takes_test _ _ _).1 hread
    obtain ⟨rfl, rfl⟩ := pure_eq_ok.1 h
    cases negated with
    | true =>
      obtain ⟨bang, hbang, rfl⟩ := eat_eq_true.1 heat
      exact ⟨rfl, .negated hbang htest⟩
    | false =>
      obtain ⟨rfl, -⟩ := eat_eq_false.1 heat
      exact ⟨rfl, .plain htest⟩
  · rintro ⟨rfl, h⟩
    cases h with
    | plain htest =>
      have hbang : kindOf? tokens ≠ some (.mark .bang) := by
        cases htest with
        | succeeded ht => simp [kindOf?, ht]
        | declared name => simp [kindOf?, named]
        | compares l r _ => exact kindOf?_token_ne l .bang
      exact ⟨false, _, eat_eq_false.2 ⟨rfl, hbang⟩,
        bind_eq_ok.2 ⟨_, _, (takes_test _ _ _).2 ⟨rfl, htest⟩, rfl⟩⟩
    | negated hbang htest =>
      exact ⟨true, _, eat_eq_true.2 ⟨_, hbang, rfl⟩,
        bind_eq_ok.2 ⟨_, _, (takes_test _ _ _).2 ⟨rfl, htest⟩, rfl⟩⟩

theorem takes_variableAfter (keyword : String) :
    Takes (variableAfter keyword) fun tokens name => tokens = [named name] := by
  intro tokens name rest
  simp only [variableAfter, bind_eq_ok, expect_eq_ok, finish_eq_ok, pure_eq_ok]
  constructor
  · rintro ⟨t, _, ⟨hname, rfl⟩, -, -, ⟨rfl, rfl⟩, rfl, rfl⟩
    exact ⟨rfl, by rw [← eq_named hname]⟩
  · rintro ⟨rfl, rfl⟩
    exact ⟨_, _, ⟨rfl, rfl⟩, (), _, ⟨rfl, rfl⟩, rfl, rfl⟩

theorem takes_property (word : Keyword) (text : String) :
    Takes (property word text) fun tokens p => Property word tokens p.1 p.2 := by
  intro tokens p rest
  simp only [property, bind_eq_ok, expect_eq_ok, expectMark_eq_ok, finish_eq_ok, pure_eq_ok]
  constructor
  · rintro ⟨t, _, ⟨ht, rfl⟩, eq, _, ⟨heq, rfl⟩, r, _, ⟨hr, rfl⟩, colon, _, ⟨hcolon, rfl⟩, second, _,
      ⟨hsecond, rfl⟩, last, _, ⟨hlast, rfl⟩, -, -, ⟨rfl, rfl⟩, rfl, rfl⟩
    rw [eq_named ht, eq_named hr]
    exact ⟨rfl, .intro _ _ heq hcolon hsecond hlast⟩
  · obtain ⟨target, reference⟩ := p
    rintro ⟨rfl, h⟩
    cases h with
    | intro _ _ heq hcolon hsecond hlast =>
      exact ⟨_, _, ⟨rfl, rfl⟩, _, _, ⟨heq, rfl⟩, _, _, ⟨rfl, rfl⟩, _, _, ⟨hcolon, rfl⟩, _, _,
        ⟨hsecond, rfl⟩, _, _, ⟨hlast, rfl⟩, (), _, ⟨rfl, rfl⟩, rfl, rfl⟩

theorem set_eq_ok {f g : RequestFields} {key value : Token} :
    f.set key value = .ok g ↔ Field f key value g := by
  constructor
  · intro h
    unfold RequestFields.set at h
    split at h
    · next hkey =>
      cases h
      exact .endpoint hkey
    · next hkey =>
      cases h
      exact .method hkey
    · next hkey =>
      split at h
      · next hwhole =>
        cases h
        exact .timeout hkey hwhole
      · cases h
    · next hkey =>
      split at h
      · next htrue =>
        cases h
        exact .halt true hkey htrue
      split at h
      · next hfalse =>
        cases h
        exact .halt false hkey hfalse
      · cases h
    · cases h
  · intro h
    cases h with
    | endpoint hkey => simp [RequestFields.set, hkey]
    | method hkey => simp [RequestFields.set, hkey]
    | timeout hkey hwhole => simp [RequestFields.set, hkey, hwhole]
    | halt b hkey hvalue =>
      simp only [RequestFields.set, hkey, hvalue]
      cases b <;> rfl

theorem kindOf?_field {f g : RequestFields} {key value : Token}
    (h : Field f key value g) (tokens : List Token) :
    kindOf? (key :: tokens) ≠ some (.mark .closeBrace) := by
  cases h with
  | endpoint hkey => simp [kindOf?, hkey]
  | method hkey => simp [kindOf?, hkey]
  | timeout hkey _ => simp [kindOf?, hkey]
  | halt _ hkey _ => simp [kindOf?, hkey]

theorem requestFields_close {f : RequestFields} {close : Token}
    (hclose : close.kind = .mark .closeBrace) : requestFields f [close] = .ok (f, [close]) := by
  rw [requestFields, if_pos hclose]

theorem requestFields_separated {f g : RequestFields} {key colon value : Token}
    (hcolon : colon.kind = .mark .colon) (hfield : Field f key value g) {separator : Token} :
    requestFields f (key :: colon :: value :: separator :: tokens) =
      if separator.kind = .mark .closeBrace then .ok (g, separator :: tokens)
      else if separator.kind = .mark .comma then requestFields g tokens
      else refuse (.instead (.mark ",") separator.text) := by
  have hkey : key.kind ≠ .mark .closeBrace := by
    simpa [kindOf?] using kindOf?_field hfield []
  rw [requestFields, if_neg hkey]
  dsimp only
  rw [if_pos hcolon, set_eq_ok.2 hfield]
  rfl

theorem requestFields_brace {f g : RequestFields} {key colon value close : Token}
    (hcolon : colon.kind = .mark .colon) (hfield : Field f key value g)
    (hclose : close.kind = .mark .closeBrace) :
    requestFields f [key, colon, value, close] = .ok (g, [close]) := by
  rw [requestFields_separated hcolon hfield, if_pos hclose]

theorem requestFields_comma {f g : RequestFields} {key colon value comma : Token}
    (hcolon : colon.kind = .mark .colon) (hfield : Field f key value g)
    (hcomma : comma.kind = .mark .comma) :
    requestFields f (key :: colon :: value :: comma :: tokens) = requestFields g tokens := by
  rw [requestFields_separated hcolon hfield, if_neg (by simp [hcomma]), if_pos hcomma]

/-- Fields are read up to a brace that closes them, unless there are none. -/
theorem requestFields_eq_ok {f g : RequestFields} :
    (∃ close, requestFields f tokens = .ok (g, [close]) ∧ close.kind = .mark .closeBrace) ↔
      ((∃ close, tokens = [close] ∧ close.kind = .mark .closeBrace) ∧ g = f) ∨
        Fields tokens f g := by
  constructor
  · rintro ⟨close, h, hclose⟩
    fun_induction requestFields f tokens with
    | case1 => cases h
    | case2 f key tokens hkey =>
      cases h
      exact .inl ⟨⟨_, rfl, hkey⟩, rfl⟩
    | case3 => cases h
    | case4 => cases h
    | case5 => cases h
    | case6 f key hkey colon value rest hcolon ih =>
      obtain ⟨set, hset, h⟩ := check_eq_ok.1 h
      rw [set_eq_ok] at hset
      cases rest with
      | nil => cases h
      | cons separator rest =>
        dsimp only at h
        split at h
        · next hseparator =>
          cases h
          exact .inr (.last hcolon hset hseparator)
        split at h
        · next hcomma =>
          rcases ih set h with ⟨⟨last, rfl, hlast⟩, rfl⟩ | hmore
          · exact .inr (.trailing hcolon hset hcomma hlast)
          · exact .inr (.more hcolon hset hcomma hmore)
        · cases h
    | case7 => cases h
  · rintro (⟨⟨close, rfl, hclose⟩, rfl⟩ | h)
    · exact ⟨close, requestFields_close hclose, hclose⟩
    · induction h with
      | last hcolon hfield hclose => exact ⟨_, requestFields_brace hcolon hfield hclose, hclose⟩
      | trailing hcolon hfield hcomma hclose =>
        exact ⟨_, (requestFields_comma hcolon hfield hcomma).trans (requestFields_close hclose),
          hclose⟩
      | more hcolon hfield hcomma _ ih =>
        obtain ⟨close, hread, hclose⟩ := ih
        exact ⟨close, (requestFields_comma hcolon hfield hcomma).trans hread, hclose⟩

theorem requestOf_eq_ok {target : String} {f : RequestFields} {r : Request} :
    requestOf target f = .ok r ↔ ∃ endpoint, f.endpoint = some endpoint ∧
      f.method.toList.map Char.toLower = ['g', 'e', 't'] ∧
      r = ⟨target, endpoint, "GET", f.timeout, f.halt⟩ := by
  unfold requestOf
  split
  · next h => simp [h, refuse]
  · next h =>
    split
    · next hmethod => simp [h, hmethod, eq_comm]
    · next hmethod => simp [h, hmethod, refuse]

theorem takes_request : Takes request (Rest .request) := by
  intro tokens i rest
  simp only [request, bind_eq_ok, expect_eq_ok, expectMark_eq_ok, get_eq_ok, finish_eq_ok]
  constructor
  · rintro ⟨t, _, ⟨ht, rfl⟩, eq, _, ⟨heq, rfl⟩, opening, tokens, ⟨hopening, rfl⟩, _, _, ⟨rfl, rfl⟩,
      f, _, hfields, close, _, ⟨hclose, rfl⟩, -, -, ⟨rfl, rfl⟩, h⟩
    split at h
    · obtain ⟨h, -⟩ := lift_eq_ok.1 h
      cases h
    · next hsome =>
      obtain ⟨r, _, hlift, h⟩ := bind_eq_ok.1 h
      obtain ⟨hr, rfl⟩ := lift_eq_ok.1 hlift
      obtain ⟨rfl, rfl⟩ := pure_eq_ok.1 h
      obtain ⟨endpoint, hendpoint, hmethod, rfl⟩ := requestOf_eq_ok.1 hr
      rw [eq_named ht]
      rcases requestFields_eq_ok.1 ⟨close, hfields, hclose⟩ with ⟨⟨last, rfl, hlast⟩, -⟩ | hfields
      · exact absurd (by simp [kindOf?, hlast]) hsome
      · exact ⟨rfl, .request _ heq hopening hfields hendpoint hmethod⟩
  · rintro ⟨rfl, h⟩
    cases h with
    | @request eq opening tokens f endpoint target heq hopening hfields hendpoint hmethod =>
      have hsome : kindOf? tokens ≠ some (.mark .closeBrace) := by
        cases hfields with
        | last _ hfield _ => exact kindOf?_field hfield _
        | trailing _ hfield _ _ => exact kindOf?_field hfield _
        | more _ hfield _ _ => exact kindOf?_field hfield _
      obtain ⟨close, hread, hclose⟩ := requestFields_eq_ok.2 (.inr hfields)
      refine ⟨_, _, ⟨rfl, rfl⟩, eq, _, ⟨heq, rfl⟩, opening, _, ⟨hopening, rfl⟩, _, _, ⟨rfl, rfl⟩, f,
        _, hread, close, _, ⟨hclose, rfl⟩, (), _, ⟨rfl, rfl⟩, ?_⟩
      rw [if_neg hsome]
      exact bind_eq_ok.2 ⟨_, _, lift_eq_ok.2
        ⟨requestOf_eq_ok.2 ⟨endpoint, hendpoint, hmethod, rfl⟩, rfl⟩, rfl⟩

theorem takes_mode : Takes mode (Rest .use) := by
  intro tokens i rest
  simp only [mode, bind_eq_ok, next_eq_ok]
  constructor
  · rintro ⟨⟨text, kind⟩, tokens, rfl, h⟩
    have huse (mode : Mode) (h : (do finish; pure (.use mode) : Reader Instruction) tokens =
        .ok (i, rest)) : rest = [] ∧ Rest .use (⟨text, .word mode.word⟩ :: tokens) i := by
      obtain ⟨rfl, rfl, rfl⟩ := (takes_finish_pure _ _ _ _).1 h
      exact ⟨rfl, .use mode rfl⟩
    cases kind with
    | word w =>
      cases w with
      | debug => exact huse .debug h
      | scope => exact huse .scope h
      | warns => exact huse .warns h
      | _ => cases h
    | _ => cases h
  · rintro ⟨rfl, h⟩
    cases h with
    | @use t mode ht =>
      refine ⟨t, [], rfl, ?_⟩
      cases mode <;> rw [ht] <;> rfl

theorem takes_leave : Takes leave (Rest .leave) := by
  intro tokens i rest
  simp only [leave, bind_eq_ok, get_eq_ok]
  constructor
  · rintro ⟨_, _, ⟨rfl, rfl⟩, h⟩
    split at h
    · next hnone =>
      obtain ⟨rfl, rfl⟩ := pure_eq_ok.1 h
      subst hnone
      exact ⟨rfl, .leave⟩
    · simp only [bind_eq_ok, nextOperand_eq_ok, finish_eq_ok, pure_eq_ok] at h
      obtain ⟨v, _, rfl, -, -, ⟨rfl, rfl⟩, rfl, rfl⟩ := h
      exact ⟨rfl, .leaveWith v⟩
  · rintro ⟨rfl, h⟩
    cases h with
    | leave => exact ⟨_, _, ⟨rfl, rfl⟩, rfl⟩
    | leaveWith v =>
      refine ⟨_, _, ⟨rfl, rfl⟩, ?_⟩
      simp only [reduceCtorEq, if_false, bind_eq_ok, nextOperand_eq_ok, finish_eq_ok, pure_eq_ok]
      exact ⟨v, _, rfl, (), _, ⟨rfl, rfl⟩, rfl, rfl⟩

theorem takes_callStatement (name : String) : Takes (callStatement (named name)) fun tokens i =>
    ∃ args, ArgumentList tokens args ∧ i = .call ⟨name, args⟩ := by
  intro tokens i rest
  simp only [callStatement, bind_eq_ok, argumentList_eq_ok, finish_eq_ok, pure_eq_ok]
  constructor
  · rintro ⟨args, _, ⟨front, rfl, hargs⟩, -, -, ⟨rfl, rfl⟩, rfl, rfl⟩
    rw [List.append_nil]
    exact ⟨rfl, args, hargs, rfl⟩
  · rintro ⟨rfl, args, hargs, rfl⟩
    exact ⟨args, [], ⟨tokens, by simp, hargs⟩, (), _, ⟨rfl, rfl⟩, rfl, rfl⟩

theorem takes_print :
    Takes (do let value ← nextOperand; finish; pure (.print value)) (Rest .print) := by
  intro tokens i rest
  simp only [bind_eq_ok, nextOperand_eq_ok, finish_eq_ok, pure_eq_ok]
  constructor
  · rintro ⟨v, _, rfl, -, -, ⟨rfl, rfl⟩, rfl, rfl⟩
    exact ⟨rfl, .print v⟩
  · rintro ⟨rfl, h⟩
    cases h with
    | print v => exact ⟨v, _, rfl, (), _, ⟨rfl, rfl⟩, rfl, rfl⟩

theorem form_keyword_iff {first : Token} {word : Keyword} {i : Instruction}
    (h : first.kind = .keyword word) : Form (first :: tokens) i ↔ Rest word tokens i := by
  constructor
  · intro hform
    cases hform with
    | keyword hfirst hrest =>
      rw [h] at hfirst
      cases hfirst
      exact hrest
    | increment hfirst => simp [h] at hfirst
    | decrement hfirst => simp [h] at hfirst
    | call name _ => simp [named] at h
  · exact .keyword h

section Keywords

variable {first : Token} {form : Reader Instruction} {i : Instruction}

/-- After a keyword, a line has the form of that keyword. -/
theorem takes_keyword {word : Keyword} (hkind : first.kind = .keyword word)
    (h : Takes form (Rest word)) :
    form tokens = .ok (i, rest) ↔ rest = [] ∧ Form (first :: tokens) i := by
  rw [h tokens i rest, form_keyword_iff hkind]

theorem takes_branch : Takes (Instruction.branch <$> condition) (Rest .branch) := by
  refine (takes_condition.map Instruction.branch).of_iff fun tokens i => ⟨?_, ?_⟩
  · rintro ⟨c, hc, rfl⟩
    exact .branch hc
  · rintro ⟨⟩
    exact ⟨_, ‹_›, rfl⟩

theorem takes_loop : Takes (Instruction.loop <$> condition) (Rest .loop) := by
  refine (takes_condition.map Instruction.loop).of_iff fun tokens i => ⟨?_, ?_⟩
  · rintro ⟨c, hc, rfl⟩
    exact .loop hc
  · rintro ⟨⟩
    exact ⟨_, ‹_›, rfl⟩

theorem takes_close : Takes (do finish; pure .close) (Rest .close) := by
  refine (takes_finish_pure Instruction.close).of_iff fun tokens i => ⟨?_, ?_⟩
  · rintro ⟨rfl, rfl⟩
    exact .close
  · rintro ⟨⟩
    exact ⟨rfl, rfl⟩

theorem takes_delete (keyword : String) :
    Takes (Instruction.delete <$> variableAfter keyword) (Rest .delete) := by
  refine ((takes_variableAfter keyword).map Instruction.delete).of_iff fun tokens i => ⟨?_, ?_⟩
  · rintro ⟨name, rfl, rfl⟩
    exact .delete name
  · rintro ⟨⟩
    exact ⟨_, rfl, rfl⟩

theorem takes_read (keyword : String) :
    Takes (Instruction.read <$> variableAfter keyword) (Rest .read) := by
  refine ((takes_variableAfter keyword).map Instruction.read).of_iff fun tokens i => ⟨?_, ?_⟩
  · rintro ⟨name, rfl, rfl⟩
    exact .read name
  · rintro ⟨⟩
    exact ⟨_, rfl, rfl⟩

theorem takes_fetch (text : String) :
    Takes (do
      let (target, reference) ← property .fetch text
      pure (.fetch target reference)) (Rest .fetch) := by
  refine ((takes_property .fetch text).map fun p => Instruction.fetch p.1 p.2).of_iff
    fun tokens i => ⟨?_, ?_⟩
  · rintro ⟨p, hp, rfl⟩
    exact .fetch hp
  · rintro ⟨⟩
    exact ⟨(_, _), ‹_›, rfl⟩

theorem takes_status (text : String) :
    Takes (do
      let (target, reference) ← property .status text
      pure (.status target reference)) (Rest .status) := by
  refine ((takes_property .status text).map fun p => Instruction.status p.1 p.2).of_iff
    fun tokens i => ⟨?_, ?_⟩
  · rintro ⟨p, hp, rfl⟩
    exact .status hp
  · rintro ⟨⟩
    exact ⟨(_, _), ‹_›, rfl⟩

/-- The form that the first token chooses reads exactly the lines of the grammar. -/
theorem form?_eq_ok (h : form? first tokens = some form) :
    form tokens = .ok (i, rest) ↔ rest = [] ∧ Form (first :: tokens) i := by
  unfold form? at h
  split at h
  case h_1 hkind => cases h; exact takes_keyword hkind takes_definition
  case h_2 hkind => cases h; exact takes_keyword hkind takes_assignment
  case h_3 hkind => cases h; exact takes_keyword hkind takes_branch
  case h_4 hkind => cases h; exact takes_keyword hkind takes_loop
  case h_5 hkind => cases h; exact takes_keyword hkind takes_close
  case h_6 hkind => cases h; exact takes_keyword hkind (takes_delete _)
  case h_7 hkind => cases h; exact takes_keyword hkind (takes_read _)
  case h_8 hkind => cases h; exact takes_keyword hkind (takes_fetch _)
  case h_9 hkind => cases h; exact takes_keyword hkind (takes_status _)
  case h_10 hkind => cases h; exact takes_keyword hkind takes_request
  case h_11 hkind => cases h; exact takes_keyword hkind takes_mode
  case h_12 hkind => cases h; exact takes_keyword hkind takes_print
  case h_13 hkind => cases h; exact takes_keyword hkind takes_leave
  case h_14 hkind =>
    cases h
    rw [takes_finish_pure _ tokens i rest]
    constructor
    · rintro ⟨rfl, rfl, rfl⟩
      exact ⟨rfl, .increment hkind⟩
    · rintro ⟨rfl, h⟩
      cases h with
      | keyword h _ => simp [hkind] at h
      | increment _ => exact ⟨rfl, rfl, rfl⟩
      | decrement h => simp [hkind] at h
      | call _ _ => simp [named] at hkind
  case h_15 hkind =>
    cases h
    rw [takes_finish_pure _ tokens i rest]
    constructor
    · rintro ⟨rfl, rfl, rfl⟩
      exact ⟨rfl, .decrement hkind⟩
    · rintro ⟨rfl, h⟩
      cases h with
      | keyword h _ => simp [hkind] at h
      | increment h => simp [hkind] at h
      | decrement _ => exact ⟨rfl, rfl, rfl⟩
      | call _ _ => simp [named] at hkind
  case h_16 hkind =>
    split at h
    · cases h
      rw [eq_named hkind, takes_callStatement _ tokens i rest]
      constructor
      · rintro ⟨rfl, args, hargs, rfl⟩
        exact ⟨rfl, .call _ hargs⟩
      · rintro ⟨rfl, h⟩
        cases h with
        | keyword h _ => simp [named] at h
        | increment h => simp [named] at h
        | decrement h => simp [named] at h
        | call _ hargs => exact ⟨rfl, _, hargs, rfl⟩
    · cases h
  case h_17 => cases h

/-- A line of the grammar has a first token that chooses a form. -/
theorem exists_form? (h : Form (first :: tokens) i) : ∃ form, form? first tokens = some form := by
  cases h with
  | @keyword _ word _ _ hkind hrest =>
    unfold form?
    rw [hkind]
    cases word with
    | otherwise => cases hrest
    | _ => exact ⟨_, rfl⟩
  | increment hkind => exact ⟨_, by rw [form?, hkind]⟩
  | decrement hkind => exact ⟨_, by rw [form?, hkind]⟩
  | @call _ _ name hargs =>
    have hopen : kindOf? tokens = some (.mark .openParen) := by
      simpa using kindOf?_argumentList hargs []
    exact ⟨_, by rw [form?, named, if_pos hopen]⟩

end Keywords

end Reader

namespace Instruction

theorem classify_eq_otherwise {raw : String} :
    TokenKind.classify raw = .keyword .otherwise ↔ raw = "else" := by
  constructor
  · intro h
    simpa [TokenKind.reserved] using TokenKind.mem_reserved_of_keyword h
  · rintro rfl
    rfl

/-- What is read is what the grammar says, or `else` with all that follows it. -/
theorem read?_eq_some_iff {raw : List String} {i : Instruction} :
    read? raw = .ok (some i) ↔
      (∃ chained, raw = "else" :: chained ∧ i = .otherwise chained) ∨
        Form (raw.map Token.ofRaw) i := by
  cases raw with
  | nil =>
    constructor
    · exact nofun
    · rintro (⟨_, h, -⟩ | h)
      · cases h
      · cases h
  | cons head tail =>
    have hkind : (Token.ofRaw head).kind = .keyword .otherwise ↔ head = "else" :=
      classify_eq_otherwise
    unfold read?
    dsimp only
    split
    · next helse =>
      obtain rfl := hkind.1 helse
      constructor
      · intro h
        cases h
        exact .inl ⟨tail, rfl, rfl⟩
      · rintro (⟨chained, h, rfl⟩ | h)
        · cases h
          rfl
        · cases (Reader.form_keyword_iff helse).1 h
    · next helse =>
      have hnot : ∀ chained, head :: tail ≠ "else" :: chained := by
        rintro chained ⟨⟩
        exact helse (hkind.2 rfl)
      cases hform : Reader.form? (Token.ofRaw head) (tail.map Token.ofRaw) with
      | none =>
        constructor
        · exact nofun
        · rintro (⟨chained, h, -⟩ | h)
          · exact absurd h (hnot chained)
          · obtain ⟨form, hsome⟩ := Reader.exists_form? h
            rw [hform] at hsome
            cases hsome
      | some form =>
        dsimp only
        cases hread : form (tail.map Token.ofRaw) with
        | error cause =>
          constructor
          · exact nofun
          · rintro (⟨chained, h, -⟩ | h)
            · exact absurd h (hnot chained)
            · rw [(Reader.form?_eq_ok hform).2 ⟨rfl, h⟩] at hread
              cases hread
        | ok p =>
          constructor
          · intro h
            cases h
            exact .inr ((Reader.form?_eq_ok hform).1 hread).2
          · rintro (⟨chained, h, -⟩ | h)
            · exact absurd h (hnot chained)
            · rw [(Reader.form?_eq_ok hform).2 ⟨rfl, h⟩] at hread
              cases hread
              rfl

end Instruction

end ApiScript
