import ApiScript.Proofs.Malformations
import ApiScript.Proofs.TokenTexts

/-!
# What is read and what is refused

The tokens of a line open no instruction, write one, or are refused. Which of these holds is said
here of the texts of the tokens: a line opens an instruction by its first token, or by a name and an
opening parenthesis, and writes one if all of it has the form that the first token asks for.
-/
namespace ApiScript

namespace Reader

end Reader

namespace Form

open Reader (RequestFields)

variable {tokens : List Token} {pairs : List (Token × Token)}

/-- Keys with their values, between commas up to the closing brace, which may stand after a
comma. -/
inductive Pairs : List Token → List (Token × Token) → Prop
  | last {key colon value close : Token} :
    colon.kind = .mark .colon → close.kind = .mark .closeBrace →
      Pairs [key, colon, value, close] [(key, value)]
  | trailing {key colon value comma close : Token} :
    colon.kind = .mark .colon → comma.kind = .mark .comma → close.kind = .mark .closeBrace →
      Pairs [key, colon, value, comma, close] [(key, value)]
  | more {key colon value comma : Token} {tokens : List Token} {pairs : List (Token × Token)} :
    colon.kind = .mark .colon → comma.kind = .mark .comma → Pairs tokens pairs →
      Pairs (key :: colon :: value :: comma :: tokens) ((key, value) :: pairs)

inductive Admits (key value : Token) : Prop
  | endpoint : key.kind = .word .endpoint → Admits key value
  | method : key.kind = .word .method → Admits key value
  | timeout {n : Nat} : key.kind = .word .timeout → whole? value.text = some n → Admits key value
  | halt (b : Bool) : key.kind = .word .halt → value.text = toString b → Admits key value

def lastValue (word : Word) (pairs : List (Token × Token)) : Option String :=
  (pairs.reverse.find? fun p => p.1.kind = .word word).map fun p => p.2.text

/-- The request that the fields of a `url` statement ask for: of each key the last value counts. -/
structure Asks (pairs : List (Token × Token)) (request : Request) : Prop where
  admits : ∀ p ∈ pairs, Admits p.1 p.2
  endpoint : lastValue .endpoint pairs = some request.endpoint
  method : request.method = "GET"
  get : ∀ text ∈ lastValue .method pairs, text.toList.map Char.toLower = ['g', 'e', 't']
  timeout : (lastValue .timeout pairs).elim (request.timeout = 5000) fun text =>
    whole? text = some request.timeout
  halt : request.halt = (lastValue .halt pairs == some "true")

def override (f : RequestFields) (pairs : List (Token × Token)) : RequestFields where
  endpoint := (lastValue .endpoint pairs).or f.endpoint
  method := (lastValue .method pairs).getD f.method
  timeout := (lastValue .timeout pairs).elim f.timeout fun text => (whole? text).getD 0
  halt := (lastValue .halt pairs).elim f.halt (· == "true")

theorem lastValue_singleton (word : Word) (key value : Token) :
    lastValue word [(key, value)] = if key.kind = .word word then some value.text else none := by
  by_cases h : key.kind = .word word <;> simp [lastValue, h]

theorem lastValue_cons (word : Word) (p : Token × Token) (pairs : List (Token × Token)) :
    lastValue word (p :: pairs) = (lastValue word pairs).or (lastValue word [p]) := by
  rw [lastValue, List.reverse_cons, List.find?_append, Option.map_or]
  rfl

theorem exists_of_lastValue {word : Word} {text : String} (h : lastValue word pairs = some text) :
    ∃ p ∈ pairs, p.1.kind = .word word ∧ p.2.text = text := by
  obtain ⟨p, hp, rfl⟩ := Option.map_eq_some_iff.1 h
  have hmem := List.mem_reverse.1 (List.mem_of_find?_eq_some hp)
  exact ⟨p, hmem, by simpa using List.find?_some hp, rfl⟩

theorem override_cons (f : RequestFields) (p : Token × Token) (pairs : List (Token × Token)) :
    override f (p :: pairs) = override (override f [p]) pairs := by
  simp only [override, lastValue_cons _ p pairs]
  cases lastValue .endpoint pairs <;> cases lastValue .method pairs <;>
    cases lastValue .timeout pairs <;> cases lastValue .halt pairs <;> rfl

/-- To set a field is to override the fields by one pair. -/
theorem field_iff {f g : RequestFields} {key value : Token} :
    Field f key value g ↔ Admits key value ∧ g = override f [(key, value)] := by
  have hflag (b : Bool) : (toString b == "true") = b := by cases b <;> rfl
  simp only [override, lastValue_singleton]
  constructor
  · intro h
    cases h with
    | endpoint hkey => exact ⟨.endpoint hkey, by simp [hkey]⟩
    | method hkey => exact ⟨.method hkey, by simp [hkey]⟩
    | timeout hkey hvalue => exact ⟨.timeout hkey hvalue, by simp [hkey, hvalue]⟩
    | halt b hkey hvalue => exact ⟨.halt b hkey hvalue, by simp [hkey, hvalue, hflag]⟩
  · rintro ⟨h, rfl⟩
    cases h with
    | endpoint hkey => simpa [hkey] using (Field.endpoint hkey : Field f key value _)
    | method hkey => simpa [hkey] using (Field.method hkey : Field f key value _)
    | timeout hkey hvalue => simpa [hkey, hvalue] using Field.timeout (f := f) hkey hvalue
    | halt b hkey hvalue => simpa [hkey, hvalue, hflag] using Field.halt (f := f) b hkey hvalue

/-- Fields are set one after another; at the end each is as the last pair with its key says. -/
theorem fields_iff {f g : RequestFields} :
    Fields tokens f g ↔
      ∃ pairs, Pairs tokens pairs ∧ (∀ p ∈ pairs, Admits p.1 p.2) ∧ g = override f pairs := by
  constructor
  · intro h
    induction h with
    | last hcolon hfield hclose =>
      obtain ⟨hadmits, rfl⟩ := field_iff.1 hfield
      exact ⟨_, .last hcolon hclose, by simpa using hadmits, rfl⟩
    | trailing hcolon hfield hcomma hclose =>
      obtain ⟨hadmits, rfl⟩ := field_iff.1 hfield
      exact ⟨_, .trailing hcolon hcomma hclose, by simpa using hadmits, rfl⟩
    | more hcolon hfield hcomma _ ih =>
      obtain ⟨hadmits, rfl⟩ := field_iff.1 hfield
      obtain ⟨pairs, hpairs, hall, rfl⟩ := ih
      refine ⟨_, .more hcolon hcomma hpairs, List.forall_mem_cons.2 ⟨hadmits, hall⟩, ?_⟩
      exact (override_cons _ _ _).symm
  · rintro ⟨pairs, hpairs, hall, rfl⟩
    induction hpairs generalizing f with
    | last hcolon hclose =>
      exact .last hcolon (field_iff.2 ⟨hall _ List.mem_cons_self, rfl⟩) hclose
    | trailing hcolon hcomma hclose =>
      exact .trailing hcolon (field_iff.2 ⟨hall _ List.mem_cons_self, rfl⟩) hcomma hclose
    | more hcolon hcomma _ ih =>
      obtain ⟨hadmits, hall⟩ := List.forall_mem_cons.1 hall
      rw [override_cons]
      exact .more hcolon (field_iff.2 ⟨hadmits, rfl⟩) hcomma (ih hall)

/-- What the pairs ask for is what is made of the fields that they override. -/
theorem asks_iff {request : Request} :
    Asks pairs request ↔
      (∀ p ∈ pairs, Admits p.1 p.2) ∧
        (override {} pairs).endpoint = some request.endpoint ∧ request.method = "GET" ∧
        (override {} pairs).method.toList.map Char.toLower = ['g', 'e', 't'] ∧
        request.timeout = (override {} pairs).timeout ∧
        request.halt = (override {} pairs).halt := by
  have hget (last : Option String) :
      (∀ text ∈ last, text.toList.map Char.toLower = ['g', 'e', 't']) ↔
        (last.getD "GET").toList.map Char.toLower = ['g', 'e', 't'] := by
    cases last with
    | none => simp
    | some text => simp
  have hhalt : (lastValue .halt pairs == some "true") = (override {} pairs).halt := by
    rw [override]
    cases lastValue .halt pairs <;> rfl
  have htimeout (hadmits : ∀ p ∈ pairs, Admits p.1 p.2) :
      (lastValue .timeout pairs).elim (request.timeout = 5000)
          (fun text => whole? text = some request.timeout) ↔
        request.timeout = (override {} pairs).timeout := by
    rw [override]
    cases hlast : lastValue .timeout pairs with
    | none => rfl
    | some text =>
      obtain ⟨p, hp, hkey, rfl⟩ := exists_of_lastValue hlast
      cases hadmits p hp with
      | timeout _ hvalue => simp [hvalue, eq_comm]
      | endpoint hkind => simp [hkind] at hkey
      | method hkind => simp [hkind] at hkey
      | halt _ hkind _ => simp [hkind] at hkey
  constructor
  · intro h
    refine ⟨h.admits, ?_, h.method, (hget _).1 h.get, (htimeout h.admits).1 h.timeout,
      h.halt.trans hhalt⟩
    simp [override, h.endpoint]
  · rintro ⟨hadmits, hendpoint, hmethod, hlower, htime, hhalted⟩
    exact ⟨hadmits, by simpa [override] using hendpoint, hmethod, (hget _).2 hlower,
      (htimeout hadmits).2 htime, hhalted.trans hhalt.symm⟩

/-- What follows `url`, by the last value of each key. -/
theorem rest_request_iff {i : Instruction} :
    Rest .request tokens i ↔ ∃ request eq opening rest pairs, i = .request request ∧
      tokens = named request.target :: eq :: opening :: rest ∧ eq.kind = .mark .assign ∧
      opening.kind = .mark .openBrace ∧ Pairs rest pairs ∧ Asks pairs request := by
  constructor
  · intro h
    cases h with
    | @request eq opening rest _ endpoint target heq hopening hfields hendpoint hmethod =>
      obtain ⟨pairs, hpairs, hadmits, rfl⟩ := fields_iff.1 hfields
      refine ⟨⟨target, endpoint, "GET", _, _⟩, eq, opening, rest, pairs, rfl, rfl, heq, hopening,
        hpairs, asks_iff.2 ?_⟩
      exact ⟨hadmits, hendpoint, rfl, hmethod, rfl, rfl⟩
  · rintro ⟨request, eq, opening, rest, pairs, rfl, rfl, heq, hopening, hpairs, hasks⟩
    obtain ⟨hadmits, hendpoint, hmethod, hget, htimeout, hhalt⟩ := asks_iff.1 hasks
    have hrest := Rest.request request.target heq hopening
      (fields_iff.2 ⟨pairs, hpairs, hadmits, rfl⟩) hendpoint hget
    rwa [← htimeout, ← hhalt, ← hmethod] at hrest

end Form

namespace Instruction

open TokenKind (classify isName)

def openingWords : List String :=
  ["def", "var", "if", "for", "else", "end", "del", "read", "res", "err", "url", "api", "use",
    "print", "return"]

inductive Opens : List String → Prop
  | word {head : String} (tail : List String) : head ∈ openingWords → Opens (head :: tail)
  | step {name sign : String} (tail : List String) :
    isName name.toList = true → sign ∈ ["++", "--"] → Opens ((name ++ sign) :: tail)
  | call {name : String} (tail : List String) : classify name = .name → Opens (name :: "(" :: tail)

inductive Writes : List String → Instruction → Prop
  | otherwise (chained : List String) : Writes ("else" :: chained) (.otherwise chained)
  | keyword {head : String} {tail : List String} {word : Keyword} {i : Instruction} :
    (head, .keyword word) ∈ TokenKind.reserved → word ≠ .request →
      Form.Rest word (tail.map Token.ofRaw) i → Writes (head :: tail) i
  | request {head : String} {tail : List String} {eq opening : Token} {tokens : List Token}
    {pairs : List (Token × Token)} {request : Request} :
    head ∈ ["url", "api"] →
      tail.map Token.ofRaw = Form.named request.target :: eq :: opening :: tokens →
      eq.kind = .mark .assign → opening.kind = .mark .openBrace → Form.Pairs tokens pairs →
      Form.Asks pairs request → Writes (head :: tail) (.request request)
  | increment {name : String} : isName name.toList = true → Writes [name ++ "++"] (.increment name)
  | decrement {name : String} : isName name.toList = true → Writes [name ++ "--"] (.decrement name)
  | call {name : String} {tail : List String} {args : List Operand} :
    classify name = .name → Form.ArgumentList (tail.map Token.ofRaw) args →
      Writes (name :: tail) (.call ⟨name, args⟩)

theorem classify_eq_request {raw : String} :
    classify raw = .keyword .request ↔ raw ∈ ["url", "api"] :=
  (TokenKind.classify_eq_iff (by decide)).trans (by simp [TokenKind.reserved])

theorem stepTarget_append (name : String) (c : Char) :
    Reader.stepTarget (name ++ String.ofList [c, c]) = name := by
  simp [Reader.stepTarget]

/-- A step is written as one token, which is a name and the sign. -/
theorem exists_step_iff {raw : List String} {kind : TokenKind} {c : Char} {target : String}
    (hkind : kind = .increment ∧ c = '+' ∨ kind = .decrement ∧ c = '-') :
    (∃ t : Token, raw.map Token.ofRaw = [t] ∧ t.kind = kind ∧ Reader.stepTarget t.text = target) ↔
      isName target.toList = true ∧ raw = [target ++ String.ofList [c, c]] := by
  have hliteral : kind ≠ .literal := by
    rintro rfl
    simp at hkind
  constructor
  · rintro ⟨t, hraw, ht, rfl⟩
    obtain ⟨head, rfl, rfl⟩ := List.map_eq_singleton_iff.1 hraw
    obtain ⟨name, hname, rfl⟩ := (TokenKind.classify_eq_step hkind).1 ht
    rw [Token.ofRaw_of_classify ht hliteral, stepTarget_append]
    exact ⟨hname, rfl⟩
  · rintro ⟨hname, rfl⟩
    have hclassify := (TokenKind.classify_eq_step hkind).2 ⟨target, hname, rfl⟩
    refine ⟨_, rfl, hclassify, ?_⟩
    rw [Token.ofRaw_of_classify hclassify hliteral, stepTarget_append]

/-- The texts write an instruction exactly if their tokens have one of the forms. -/
theorem writes_iff {raw : List String} {i : Instruction} :
    Writes raw i ↔ (∃ chained, raw = "else" :: chained ∧ i = .otherwise chained) ∨
      Form (raw.map Token.ofRaw) i := by
  constructor
  · intro h
    cases h with
    | otherwise chained => exact .inl ⟨chained, rfl, rfl⟩
    | keyword hword _ hrest =>
      exact .inr (.keyword (TokenKind.classify_of_mem_reserved hword) hrest)
    | request hhead htail heq hopening hpairs hasks =>
      refine .inr (.keyword (classify_eq_request.2 hhead) (Form.rest_request_iff.2 ?_))
      exact ⟨_, _, _, _, _, rfl, htail, heq, hopening, hpairs, hasks⟩
    | increment hname =>
      obtain ⟨t, ht, hkind, rfl⟩ := (exists_step_iff (.inl ⟨rfl, rfl⟩)).2 ⟨hname, rfl⟩
      exact .inr (ht ▸ .increment hkind)
    | decrement hname =>
      obtain ⟨t, ht, hkind, rfl⟩ := (exists_step_iff (.inr ⟨rfl, rfl⟩)).2 ⟨hname, rfl⟩
      exact .inr (ht ▸ .decrement hkind)
    | @call name tail args hname hargs =>
      refine .inr ?_
      rw [List.map_cons, Token.ofRaw_of_classify hname nofun]
      exact .call name hargs
  · rintro (⟨chained, rfl, rfl⟩ | h)
    · exact .otherwise chained
    · generalize htokens : raw.map Token.ofRaw = tokens at h
      cases h with
      | @keyword _ word _ _ hkind hrest =>
        obtain ⟨head, tail, rfl, rfl, rfl⟩ := List.map_eq_cons_iff.1 htokens
        by_cases hword : word = .request
        · subst hword
          obtain ⟨request, eq, opening, rest, pairs, rfl, htail, heq, hopening, hpairs, hasks⟩ :=
            Form.rest_request_iff.1 hrest
          exact .request (classify_eq_request.1 hkind) htail heq hopening hpairs hasks
        · exact .keyword (TokenKind.mem_reserved_of_keyword hkind) hword hrest
      | @increment t hkind =>
        obtain ⟨hname, rfl⟩ := (exists_step_iff (.inl ⟨rfl, rfl⟩)).1 ⟨t, htokens, hkind, rfl⟩
        exact .increment hname
      | @decrement t hkind =>
        obtain ⟨hname, rfl⟩ := (exists_step_iff (.inr ⟨rfl, rfl⟩)).1 ⟨t, htokens, hkind, rfl⟩
        exact .decrement hname
      | @call _ args name hargs =>
        obtain ⟨head, tail, rfl, hhead, rfl⟩ := List.map_eq_cons_iff.1 htokens
        have hname : classify head = .name := congrArg Token.kind hhead
        rw [Token.ofRaw_of_classify hname nofun] at hhead
        obtain rfl : head = name := congrArg Token.text hhead
        exact .call hname hargs

end Instruction

end ApiScript
