import ApiScript.Proofs.ReadInstructions

/-!
# The forms of instructions

The lines that write an instruction, as a grammar over their tokens. Reading accepts exactly the
lines of the grammar and gives the instruction that they write.
-/
namespace ApiScript

def Operand.token : Operand → Token
  | .number text => ⟨text, .number⟩
  | .literal text => ⟨text, .literal⟩
  | .name text => ⟨text, .name⟩

def Comparison.symbol : Comparison → String
  | .equal => "=="
  | .notEqual => "!="
  | .less => "<"
  | .lessEqual => "<="
  | .greater => ">"
  | .greaterEqual => ">="

def Mode.word : Mode → Word
  | .debug => .debug
  | .scope => .scope
  | .warns => .warns

namespace Form

open Reader (RequestFields stepTarget)

def named (text : String) : Token := ⟨text, .name⟩

inductive Arguments : List Token → List Operand → Prop
  | last {close : Token} (v : Operand) :
    close.kind = .mark .closeParen → Arguments [v.token, close] [v]
  | more {comma : Token} {tokens : List Token} {vs : List Operand} (v : Operand) :
    comma.kind = .mark .comma → Arguments tokens vs →
      Arguments (v.token :: comma :: tokens) (v :: vs)

inductive ArgumentList : List Token → List Operand → Prop
  | none {opening close : Token} :
    opening.kind = .mark .openParen → close.kind = .mark .closeParen →
      ArgumentList [opening, close] []
  | some {opening : Token} {tokens : List Token} {vs : List Operand} :
    opening.kind = .mark .openParen → Arguments tokens vs → ArgumentList (opening :: tokens) vs

/-- Parameters are arguments that are names. A function without any may leave the parentheses
out. -/
inductive Parameters : List Token → List String → Prop
  | omitted : Parameters [] []
  | listed {tokens : List Token} {names : List String} :
    ArgumentList tokens (names.map .name) → Parameters tokens names

inductive Returns : List Token → Option Kind → Prop
  | nothing : Returns [] none
  | number {t : Token} : t.text = "num" → Returns [t] (some .num)
  | string {t : Token} : t.text = "str" → Returns [t] (some .str)

/-- The right side of an assignment. A constant is neither the result of a call nor indexed. -/
inductive Assigned (target : String) : Bool → List Token → Instruction → Prop
  | plain (v : Operand) (constant : Bool) :
    Assigned target constant [v.token] (.assign target v constant)
  | call {tokens : List Token} {args : List Operand} (name : String) :
    ArgumentList tokens args →
      Assigned target false (named name :: tokens) (.callInto target ⟨name, args⟩)
  | index {opening close : Token} {position : String} {n : Nat} (source : String) :
    opening.kind = .mark .openBracket → whole? position = some n →
      close.kind = .mark .closeBracket →
      Assigned target false [named source, opening, ⟨position, .number⟩, close]
        (.index target source n)

/-- An operator is one token, or two of which the second is an equals sign. Only the text of the
first counts, which may be quoted. -/
inductive Operator : List Token → Comparison → Prop
  | single {t : Token} {op : Comparison} : t.text = op.symbol → Operator [t] op
  | joined {t eq : Token} {op : Comparison} :
    eq.kind = .mark .assign → t.text ++ "=" = op.symbol → Operator [t, eq] op

inductive Tested : List Token → Test → Prop
  | succeeded {t : Token} : t.kind = .word .success → Tested [t] .succeeded
  | declared (name : String) : Tested [named name] (.declared name)
  | compares {tokens : List Token} {op : Comparison} (l r : Operand) :
    Operator tokens op → Tested (l.token :: (tokens ++ [r.token])) (.compares l op r)

inductive Conditional : List Token → Condition → Prop
  | plain {tokens : List Token} {test : Test} :
    Tested tokens test → Conditional tokens ⟨false, test⟩
  | negated {bang : Token} {tokens : List Token} {test : Test} :
    bang.kind = .mark .bang → Tested tokens test → Conditional (bang :: tokens) ⟨true, test⟩

inductive Field (f : RequestFields) (key value : Token) : RequestFields → Prop
  | endpoint : key.kind = .word .endpoint → Field f key value { f with endpoint := value.text }
  | method : key.kind = .word .method → Field f key value { f with method := value.text }
  | timeout {n : Nat} :
    key.kind = .word .timeout → whole? value.text = some n →
      Field f key value { f with timeout := n }
  | halt (b : Bool) :
    key.kind = .word .halt → value.text = toString b → Field f key value { f with halt := b }

/-- Fields between commas up to the closing brace, which may stand after a comma. The last field
with a key decides. -/
inductive Fields : List Token → RequestFields → RequestFields → Prop
  | last {key colon value close : Token} {f g : RequestFields} :
    colon.kind = .mark .colon → Field f key value g → close.kind = .mark .closeBrace →
      Fields [key, colon, value, close] f g
  | trailing {key colon value comma close : Token} {f g : RequestFields} :
    colon.kind = .mark .colon → Field f key value g → comma.kind = .mark .comma →
      close.kind = .mark .closeBrace → Fields [key, colon, value, comma, close] f g
  | more {key colon value comma : Token} {tokens : List Token} {f g h : RequestFields} :
    colon.kind = .mark .colon → Field f key value g → comma.kind = .mark .comma →
      Fields tokens g h → Fields (key :: colon :: value :: comma :: tokens) f h

inductive Property (word : Keyword) : List Token → String → String → Prop
  | intro {eq colon second last : Token} (target reference : String) :
    eq.kind = .mark .assign → colon.kind = .mark .colon → second.kind = .mark .colon →
      last.kind = .keyword word →
      Property word [named target, eq, named reference, colon, second, last] target reference

/-- What may follow a keyword, and the instruction that it completes. -/
inductive Rest : Keyword → List Token → Instruction → Prop
  | define {params returns : List Token} {colon : Token} {names : List String}
    {kind : Option Kind} (name : String) :
    Parameters params names → colon.kind = .mark .colon → Returns returns kind →
      Rest .define (named name :: (params ++ colon :: returns)) (.define ⟨name, names, kind⟩)
  | assign {eq : Token} {tokens : List Token} {i : Instruction} (target : String) :
    eq.kind = .mark .assign → Assigned target false tokens i →
      Rest .assign (named target :: eq :: tokens) i
  | constant {const eq : Token} {tokens : List Token} {i : Instruction} (target : String) :
    const.kind = .word .const → eq.kind = .mark .assign → Assigned target true tokens i →
      Rest .assign (const :: named target :: eq :: tokens) i
  | branch {tokens : List Token} {c : Condition} :
    Conditional tokens c → Rest .branch tokens (.branch c)
  | loop {tokens : List Token} {c : Condition} :
    Conditional tokens c → Rest .loop tokens (.loop c)
  | close : Rest .close [] .close
  | delete (target : String) : Rest .delete [named target] (.delete target)
  | read (target : String) : Rest .read [named target] (.read target)
  | fetch {tokens : List Token} {target reference : String} :
    Property .fetch tokens target reference → Rest .fetch tokens (.fetch target reference)
  | status {tokens : List Token} {target reference : String} :
    Property .status tokens target reference → Rest .status tokens (.status target reference)
  | request {eq opening : Token} {tokens : List Token} {f : RequestFields} {endpoint : String}
    (target : String) :
    eq.kind = .mark .assign → opening.kind = .mark .openBrace → Fields tokens {} f →
      f.endpoint = some endpoint → f.method.toList.map Char.toLower = ['g', 'e', 't'] →
      Rest .request (named target :: eq :: opening :: tokens)
        (.request ⟨target, endpoint, "GET", f.timeout, f.halt⟩)
  | use {t : Token} (mode : Mode) : t.kind = .word mode.word → Rest .use [t] (.use mode)
  | print (v : Operand) : Rest .print [v.token] (.print v)
  | leave : Rest .leave [] (.leave none)
  | leaveWith (v : Operand) : Rest .leave [v.token] (.leave (some v))

end Form

inductive Form : List Token → Instruction → Prop
  | keyword {first : Token} {word : Keyword} {tokens : List Token} {i : Instruction} :
    first.kind = .keyword word → Form.Rest word tokens i → Form (first :: tokens) i
  | increment {t : Token} : t.kind = .increment → Form [t] (.increment (Reader.stepTarget t.text))
  | decrement {t : Token} : t.kind = .decrement → Form [t] (.decrement (Reader.stepTarget t.text))
  | call {tokens : List Token} {args : List Operand} (name : String) :
    Form.ArgumentList tokens args → Form (Form.named name :: tokens) (.call ⟨name, args⟩)

namespace Reader

variable {α β : Type} {tokens rest : List Token}

section Steps

theorem check_eq_ok {x : Except Cause α} {f : α → Except Cause β} {b : β} :
    (x >>= f) = .ok b ↔ ∃ a, x = .ok a ∧ f a = .ok b := by
  cases x with
  | error cause => simp [bind, Except.bind]
  | ok a => simp [bind, Except.bind]

theorem bind_eq_ok {x : Reader α} {f : α → Reader β} {b : β} :
    (x >>= f) tokens = .ok (b, rest) ↔
      ∃ a mid, x tokens = .ok (a, mid) ∧ f a mid = .ok (b, rest) := by
  change ((x tokens) >>= fun p => f p.1 p.2) = _ ↔ _
  simp [check_eq_ok]

theorem pure_eq_ok {a b : α} :
    (pure a : Reader α) tokens = .ok (b, rest) ↔ b = a ∧ rest = tokens := by
  change Except.ok (a, tokens) = Except.ok (b, rest) ↔ _
  simp [eq_comm]

theorem lift_eq_ok {x : Except Cause α} {a : α} :
    (liftM x : Reader α) tokens = .ok (a, rest) ↔ x = .ok a ∧ rest = tokens := by
  change (x >>= fun a => Except.ok (a, tokens)) = _ ↔ _
  cases x with
  | error cause => simp [bind, Except.bind]
  | ok a => simp [bind, Except.bind, eq_comm]

theorem map_eq_ok {x : Reader α} {f : α → β} {b : β} :
    (f <$> x) tokens = .ok (b, rest) ↔ ∃ a, x tokens = .ok (a, rest) ∧ b = f a := by
  have hmap : f <$> x = x >>= fun a => pure (f a) := rfl
  rw [hmap, bind_eq_ok]
  constructor
  · rintro ⟨a, mid, hx, hpure⟩
    obtain ⟨rfl, rfl⟩ := pure_eq_ok.1 hpure
    exact ⟨a, hx, rfl⟩
  · rintro ⟨a, hx, rfl⟩
    exact ⟨a, rest, hx, rfl⟩

theorem get_eq_ok {ts : List Token} :
    (get : Reader (List Token)) tokens = .ok (ts, rest) ↔ ts = tokens ∧ rest = tokens := by
  change Except.ok (tokens, tokens) = Except.ok (ts, rest) ↔ _
  simp [eq_comm]

theorem next_eq_ok {t : Token} : next tokens = .ok (t, rest) ↔ tokens = t :: rest := by
  cases tokens with
  | nil => simp [next, refuse]
  | cons head tail => simp [next]

theorem expect_eq_ok {kind : TokenKind} {what : Expectation} {t : Token} :
    expect kind what tokens = .ok (t, rest) ↔ t.kind = kind ∧ tokens = t :: rest := by
  cases tokens with
  | nil => simp [expect, refuse]
  | cons head tail =>
    rw [expect]
    split
    · next h => simp; grind
    · next h => simp [refuse]; grind

theorem expectMark_eq_ok {mark : Mark} {text : String} {t : Token} :
    expectMark mark text tokens = .ok (t, rest) ↔ t.kind = .mark mark ∧ tokens = t :: rest :=
  expect_eq_ok

theorem eat_eq_true {kind : TokenKind} :
    eat kind tokens = .ok (true, rest) ↔ ∃ t, t.kind = kind ∧ tokens = t :: rest := by
  cases tokens with
  | nil => simp [eat]
  | cons head tail =>
    rw [eat]
    split
    · next h => simp; grind
    · next h => simp; grind

theorem eat_eq_false {kind : TokenKind} :
    eat kind tokens = .ok (false, rest) ↔ rest = tokens ∧ kindOf? tokens ≠ some kind := by
  cases tokens with
  | nil => simp [eat, kindOf?, eq_comm]
  | cons head tail =>
    rw [eat]
    split
    · next h => simp [kindOf?, h]
    · next h => simp [kindOf?]; grind

theorem finish_eq_ok {u : Unit} : finish tokens = .ok (u, rest) ↔ tokens = [] ∧ rest = [] := by
  cases tokens with
  | nil => simp [finish, eq_comm]
  | cons head tail => simp [finish, refuse]

/-- A reader accepts whole lines only, and exactly those of a form. -/
def Takes (x : Reader α) (form : List Token → α → Prop) : Prop :=
  ∀ tokens a rest, x tokens = .ok (a, rest) ↔ rest = [] ∧ form tokens a

theorem takes_finish_pure (a : α) :
    Takes (do finish; pure a) fun tokens b => tokens = [] ∧ b = a := by
  intro tokens b rest
  simp only [bind_eq_ok, finish_eq_ok, pure_eq_ok]
  constructor
  · rintro ⟨-, -, ⟨rfl, rfl⟩, rfl, rfl⟩
    exact ⟨rfl, rfl, rfl⟩
  · rintro ⟨rfl, rfl, rfl⟩
    exact ⟨(), [], ⟨rfl, rfl⟩, rfl, rfl⟩

theorem Takes.map {x : Reader α} {form : List Token → α → Prop} (h : Takes x form) (f : α → β) :
    Takes (f <$> x) fun tokens b => ∃ a, form tokens a ∧ b = f a := by
  intro tokens b rest
  simp only [map_eq_ok, h tokens]
  constructor
  · rintro ⟨a, ⟨rfl, ha⟩, rfl⟩
    exact ⟨rfl, a, ha, rfl⟩
  · rintro ⟨rfl, a, ha, rfl⟩
    exact ⟨a, ⟨rfl, ha⟩, rfl⟩

theorem Takes.of_iff {x : Reader α} {form other : List Token → α → Prop} (h : Takes x form)
    (hiff : ∀ tokens a, form tokens a ↔ other tokens a) : Takes x other := by
  intro tokens a rest
  rw [h tokens a rest, hiff]

end Steps

open Form

theorem operand_eq_ok {t : Token} {v : Operand} : operand t = .ok v ↔ t = v.token := by
  obtain ⟨text, kind⟩ := t
  cases v <;> cases kind <;> simp [operand, Operand.token, refuse]

theorem nextOperand_eq_ok {v : Operand} :
    nextOperand tokens = .ok (v, rest) ↔ tokens = v.token :: rest := by
  simp only [nextOperand, bind_eq_ok, next_eq_ok, lift_eq_ok, operand_eq_ok]
  constructor
  · rintro ⟨t, mid, rfl, rfl, rfl⟩
    rfl
  · rintro rfl
    exact ⟨_, _, rfl, rfl, rfl⟩

theorem kindOf?_token_ne (v : Operand) (m : Mark) :
    kindOf? (v.token :: tokens) ≠ some (.mark m) := by
  cases v <;> simp [kindOf?, Operand.token]

theorem kindOf?_arguments {vs : List Operand} (h : Arguments tokens vs) (rest : List Token)
    (m : Mark) : kindOf? (tokens ++ rest) ≠ some (.mark m) := by
  cases h with
  | last v _ => exact kindOf?_token_ne v m
  | more v _ _ => exact kindOf?_token_ne v m

theorem arguments_eq_ok {vs : List Operand} :
    arguments tokens = .ok (vs, rest) ↔ ∃ front, tokens = front ++ rest ∧ Arguments front vs := by
  constructor
  · intro h
    induction tokens using arguments.induct generalizing vs with
    | case1 => cases h
    | case2 token =>
      rw [arguments, check_eq_ok] at h
      obtain ⟨_, -, h⟩ := h
      cases h
    | case3 token separator tokens ih =>
      rw [arguments, check_eq_ok] at h
      obtain ⟨v, hv, h⟩ := h
      obtain rfl := operand_eq_ok.1 hv
      split at h
      · next hclose =>
        cases h
        exact ⟨_, rfl, .last v hclose⟩
      split at h
      · next hcomma =>
        split at h
        · cases h
        · rw [check_eq_ok] at h
          obtain ⟨⟨ws, mid⟩, hws, h⟩ := h
          cases h
          obtain ⟨front, rfl, hfront⟩ := ih hws
          exact ⟨_, rfl, .more v hcomma hfront⟩
      · cases h
  · rintro ⟨front, rfl, h⟩
    induction h with
    | last v hclose =>
      rw [List.cons_append, List.cons_append, arguments, operand_eq_ok.2 rfl]
      simp [bind, Except.bind, hclose]
    | more v hcomma hmore ih =>
      rw [List.cons_append, List.cons_append, arguments, operand_eq_ok.2 rfl]
      simp [bind, Except.bind, hcomma, kindOf?_arguments hmore, ih]

theorem argumentList_eq_ok {vs : List Operand} :
    argumentList tokens = .ok (vs, rest) ↔
      ∃ front, tokens = front ++ rest ∧ ArgumentList front vs := by
  simp only [argumentList, bind_eq_ok, expectMark_eq_ok]
  constructor
  · rintro ⟨opening, mid, ⟨hopening, rfl⟩, closed, after, heat, h⟩
    cases closed with
    | true =>
      obtain ⟨close, hclose, rfl⟩ := eat_eq_true.1 heat
      obtain ⟨rfl, rfl⟩ := pure_eq_ok.1 h
      exact ⟨_, rfl, .none hopening hclose⟩
    | false =>
      obtain ⟨rfl, -⟩ := eat_eq_false.1 heat
      obtain ⟨front, rfl, hfront⟩ := arguments_eq_ok.1 h
      exact ⟨_, rfl, .some hopening hfront⟩
  · rintro ⟨front, rfl, h⟩
    cases h with
    | none hopening hclose =>
      exact ⟨_, _, ⟨hopening, rfl⟩, true, _, eat_eq_true.2 ⟨_, hclose, rfl⟩, rfl⟩
    | some hopening hargs =>
      have heat := eat_eq_false.2 ⟨rfl, kindOf?_arguments hargs rest .closeParen⟩
      exact ⟨_, _, ⟨hopening, rfl⟩, false, _, heat, arguments_eq_ok.2 ⟨_, rfl, hargs⟩⟩

theorem kindOf?_argumentList {vs : List Operand} (h : ArgumentList tokens vs) (rest : List Token) :
    kindOf? (tokens ++ rest) = some (.mark .openParen) := by
  cases h with
  | none hopening _ => simp [kindOf?, hopening]
  | some hopening _ => simp [kindOf?, hopening]

theorem mapM_parameter_eq_ok {function : String} {vs : List Operand} {names : List String} :
    vs.mapM (parameter function) = .ok names ↔ vs = names.map .name := by
  induction vs generalizing names with
  | nil => cases names <;> simp [pure, Except.pure]
  | cons v vs ih =>
    rw [List.mapM_cons, check_eq_ok]
    cases names with
    | nil => simp [check_eq_ok, pure, Except.pure]
    | cons name names =>
      cases v <;> simp [parameter, refuse, check_eq_ok, ih, pure, Except.pure]
      grind

theorem parameters_eq_ok {function : String} {names : List String} :
    parameters function tokens = .ok (names, rest) ↔
      (∃ front, tokens = front ++ rest ∧ ArgumentList front (names.map .name)) ∨
        names = [] ∧ rest = tokens ∧ kindOf? tokens ≠ some (.mark .openParen) := by
  unfold parameters
  split
  · next hopen =>
    constructor
    · intro h
      obtain ⟨⟨vs, mid⟩, hvs, h⟩ := check_eq_ok.1 h
      obtain ⟨found, hfound, h⟩ := check_eq_ok.1 h
      cases h
      obtain rfl := mapM_parameter_eq_ok.1 hfound
      exact .inl (argumentList_eq_ok.1 hvs)
    · rintro (hfront | ⟨-, -, hother⟩)
      · refine check_eq_ok.2 ⟨(names.map .name, rest), argumentList_eq_ok.2 hfront, ?_⟩
        exact check_eq_ok.2 ⟨names, mapM_parameter_eq_ok.2 rfl, rfl⟩
      · exact absurd hopen hother
  · next hopen =>
    constructor
    · intro h
      cases h
      exact .inr ⟨rfl, rfl, hopen⟩
    · rintro (⟨front, rfl, hfront⟩ | ⟨rfl, rfl, -⟩)
      · exact absurd (kindOf?_argumentList hfront rest) hopen
      · rfl

theorem returnKind_eq_ok {kind : Option Kind} :
    returnKind tokens = .ok (kind, []) ↔ Returns tokens kind := by
  cases tokens with
  | nil =>
    constructor
    · intro h
      cases h
      exact .nothing
    · rintro ⟨⟩
      rfl
  | cons t tokens =>
    rw [returnKind]
    constructor
    · intro h
      split at h
      · next hnum =>
        cases h
        exact .number hnum
      split at h
      · next hstr =>
        cases h
        exact .string hstr
      · cases h
    · rintro (⟨⟩ | hnum | hstr)
      · rw [if_pos hnum]
      · rw [if_neg (by rw [hstr]; decide), if_pos hstr]

/-- A token of the name kind is that of its text. -/
theorem eq_named {t : Token} (h : t.kind = .name) : t = named t.text := by
  obtain ⟨text, kind⟩ := t
  cases h
  rfl

theorem takes_definition : Takes definition (Rest .define) := by
  intro tokens i rest
  simp only [definition, bind_eq_ok, expect_eq_ok, expectMark_eq_ok, finish_eq_ok, pure_eq_ok]
  constructor
  · rintro ⟨t, mid, ⟨hname, rfl⟩, names, after, hparams, colon, final, ⟨hcolon, rfl⟩, kind, last,
      hreturns, -, -, ⟨rfl, rfl⟩, rfl, rfl⟩
    rw [eq_named hname]
    rw [returnKind_eq_ok] at hreturns
    refine ⟨rfl, ?_⟩
    rcases parameters_eq_ok.1 hparams with ⟨front, rfl, hfront⟩ | ⟨rfl, rfl, -⟩
    · exact .define _ (.listed hfront) hcolon hreturns
    · exact .define _ .omitted hcolon hreturns
  · rintro ⟨rfl, h⟩
    cases h with
    | @define params returns colon names kind name hparams hcolon hreturns =>
      have hread :
          parameters name (params ++ colon :: returns) = .ok (names, colon :: returns) := by
        cases hparams with
        | omitted => exact parameters_eq_ok.2 (.inr ⟨rfl, rfl, by simp [kindOf?, hcolon]⟩)
        | listed hlist => exact parameters_eq_ok.2 (.inl ⟨_, rfl, hlist⟩)
      exact ⟨_, _, ⟨rfl, rfl⟩, names, _, hread, colon, _, ⟨hcolon, rfl⟩, kind, _,
        returnKind_eq_ok.2 hreturns, (), _, ⟨rfl, rfl⟩, rfl, rfl⟩

theorem callInto_eq_ok {target : String} {i : Instruction} :
    callInto target tokens = .ok (i, rest) ↔ rest = [] ∧ ∃ name front args,
      tokens = named name :: front ∧ ArgumentList front args ∧
        i = .callInto target ⟨name, args⟩ := by
  simp only [callInto, call, bind_eq_ok, expect_eq_ok, argumentList_eq_ok, finish_eq_ok, pure_eq_ok]
  constructor
  · rintro ⟨_, _, ⟨t, _, ⟨hname, rfl⟩, args, _, ⟨front, rfl, hargs⟩, rfl, rfl⟩, -, -, ⟨rfl, rfl⟩,
      rfl, rfl⟩
    rw [eq_named hname, List.append_nil]
    exact ⟨rfl, _, _, _, rfl, hargs, rfl⟩
  · rintro ⟨rfl, name, front, args, rfl, hargs, rfl⟩
    exact ⟨_, _, ⟨_, _, ⟨rfl, rfl⟩, args, [], ⟨front, by simp, hargs⟩, rfl, rfl⟩, (), _,
      ⟨rfl, rfl⟩, rfl, rfl⟩

theorem position_eq_ok {t : Token} {n : Nat} : position t = .ok n ↔ whole? t.text = some n := by
  unfold position
  split
  · next h => simp [h]
  · next h => simp [h, refuse]

theorem index_eq_ok {target : String} {i : Instruction} :
    index target tokens = .ok (i, rest) ↔ rest = [] ∧ ∃ source opening position close n,
      tokens = [source, opening, ⟨position, .number⟩, close] ∧
      opening.kind = .mark .openBracket ∧ whole? position = some n ∧
      close.kind = .mark .closeBracket ∧ i = .index target source.text n := by
  simp only [index, bind_eq_ok, next_eq_ok, expect_eq_ok, expectMark_eq_ok, lift_eq_ok,
    position_eq_ok, finish_eq_ok, pure_eq_ok]
  constructor
  · rintro ⟨source, _, rfl, opening, _, ⟨hopening, rfl⟩, ⟨position, _⟩, _, ⟨rfl, rfl⟩, n, _,
      ⟨hposition, rfl⟩, close, _, ⟨hclose, rfl⟩, -, -, ⟨rfl, rfl⟩, rfl, rfl⟩
    exact ⟨rfl, source, opening, position, close, n, rfl, hopening, hposition, hclose, rfl⟩
  · rintro ⟨rfl, source, opening, position, close, n, rfl, hopening, hposition, hclose, rfl⟩
    exact ⟨source, _, rfl, opening, _, ⟨hopening, rfl⟩, _, _, ⟨rfl, rfl⟩, n, _, ⟨hposition, rfl⟩,
      close, _, ⟨hclose, rfl⟩, (), _, ⟨rfl, rfl⟩, rfl, rfl⟩

theorem plainAssignment_eq_ok {target : String} {constant : Bool} {i : Instruction} :
    plainAssignment target constant tokens = .ok (i, rest) ↔
      rest = [] ∧ ∃ v, tokens = [v.token] ∧ i = .assign target v constant := by
  simp only [plainAssignment, bind_eq_ok, nextOperand_eq_ok, finish_eq_ok, pure_eq_ok]
  constructor
  · rintro ⟨v, _, rfl, -, -, ⟨rfl, rfl⟩, rfl, rfl⟩
    exact ⟨rfl, v, rfl, rfl⟩
  · rintro ⟨rfl, v, rfl, rfl⟩
    exact ⟨v, _, rfl, (), _, ⟨rfl, rfl⟩, rfl, rfl⟩

theorem takes_assignedValue (target : String) (constant : Bool) :
    Takes (assignedValue target constant) (Assigned target constant) := by
  intro tokens i rest
  constructor
  · intro h
    unfold assignedValue at h
    split at h
    · split at h
      · cases h
      · next hconstant =>
        obtain rfl := Bool.eq_false_iff.2 hconstant
        obtain ⟨rfl, name, front, args, rfl, hargs, rfl⟩ := callInto_eq_ok.1 h
        exact ⟨rfl, .call name hargs⟩
    · next hkinds =>
      split at h
      · cases h
      · next hconstant =>
        obtain rfl := Bool.eq_false_iff.2 hconstant
        obtain ⟨rfl, source, opening, position, close, n, rfl, hopening, hposition, hclose, rfl⟩ :=
          index_eq_ok.1 h
        have hsource : source.kind = .name := (List.cons.inj hkinds).1
        rw [eq_named hsource]
        exact ⟨rfl, .index _ hopening hposition hclose⟩
    · obtain ⟨rfl, v, rfl, rfl⟩ := plainAssignment_eq_ok.1 h
      exact ⟨rfl, .plain v constant⟩
  · rintro ⟨rfl, h⟩
    cases h with
    | plain v =>
      have hplain : plainAssignment target constant [v.token] =
          .ok (.assign target v constant, []) :=
        plainAssignment_eq_ok.2 ⟨rfl, v, rfl, rfl⟩
      simpa [assignedValue] using hplain
    | @call tokens args name hargs =>
      have hcall : callInto target (named name :: tokens) =
          .ok (.callInto target ⟨name, args⟩, []) :=
        callInto_eq_ok.2 ⟨rfl, name, tokens, args, rfl, hargs, rfl⟩
      cases hargs with
      | none hopening _ => simpa [assignedValue, named, hopening] using hcall
      | some hopening _ => simpa [assignedValue, named, hopening] using hcall
    | @index opening close position n source hopening hposition hclose =>
      have hindex : index target [named source, opening, ⟨position, .number⟩, close] =
          .ok (.index target source n, []) :=
        index_eq_ok.2 ⟨rfl, named source, opening, position, close, n, rfl, hopening, hposition,
          hclose, rfl⟩
      simpa [assignedValue, named, hopening] using hindex

theorem takes_assignment : Takes assignment (Rest .assign) := by
  intro tokens i rest
  simp only [assignment, bind_eq_ok, expect_eq_ok, expectMark_eq_ok, takes_assignedValue _ _ _ _ _]
  constructor
  · rintro ⟨constant, _, heat, t, _, ⟨hname, rfl⟩, eq, _, ⟨heq, rfl⟩, rfl, h⟩
    rw [eq_named hname] at heat
    cases constant with
    | true =>
      obtain ⟨const, hconst, rfl⟩ := eat_eq_true.1 heat
      exact ⟨rfl, .constant _ hconst heq h⟩
    | false =>
      obtain ⟨rfl, -⟩ := eat_eq_false.1 heat
      exact ⟨rfl, .assign _ heq h⟩
  · rintro ⟨rfl, h⟩
    cases h with
    | assign target heq h =>
      exact ⟨false, _, eat_eq_false.2 ⟨rfl, by simp [kindOf?, named]⟩, _, _, ⟨rfl, rfl⟩, _, _,
        ⟨heq, rfl⟩, rfl, h⟩
    | constant target hconst heq h =>
      exact ⟨true, _, eat_eq_true.2 ⟨_, hconst, rfl⟩, _, _, ⟨rfl, rfl⟩, _, _, ⟨heq, rfl⟩, rfl, h⟩

end Reader

end ApiScript
