import ApiScript.Proofs.FormReading
import ApiScript.Proofs.TokenSpelling

/-!
# Rendering instructions

Every instruction that a line can state is written back as a line. Literals and the endpoint of a
request stand in quotes, names and numbers as they are, a request has all of its fields, and the
tokens after `else` follow it. Reading the line gives the same instruction again.
-/
namespace ApiScript

def Comparison.tokens : Comparison → List String
  | .equal => ["=", "="]
  | .notEqual => ["!", "="]
  | .less => ["<"]
  | .lessEqual => ["<", "="]
  | .greater => [">"]
  | .greaterEqual => [">", "="]

def Mode.toText : Mode → String
  | .debug => "debug"
  | .scope => "scope"
  | .warns => "warns"

namespace Rendering

def spaced (tokens : List String) : List (List String) := tokens.map fun t => [t]

def items : List String → List String
  | [] => [")"]
  | [item] => [item, ")"]
  | item :: rest => item :: "," :: items rest

def arguments (args : List Operand) : List String := "(" :: items (args.map Operand.raw)

def parameters (params : List String) : List String := arguments (params.map .name)

def test : Test → List (List String)
  | .succeeded => spaced ["success"]
  | .declared name => spaced [name]
  | .compares l op r => [[l.raw], op.tokens, [r.raw]]

def condition (c : Condition) : List (List String) :=
  if c.negated then ["!"] :: test c.test else test c.test

def property (target reference text : String) : List (List String) :=
  [[target], ["="], [reference], [":", ":"], [text]]

def request (r : Request) : List String :=
  [r.target, "=", "\x7b", "endpoint", ":", quoted r.endpoint, ",", "method", ":", r.method, ",",
    "timeout", ":", Nat.repr r.timeout, ",", "halt", ":", toString r.halt, "\x7d"]

end Rendering

namespace Instruction

open Rendering

def groups : Instruction → List (List String)
  | .define s => spaced ("def" :: s.name ::
      (parameters s.params ++ ":" :: s.returns.toList.map Kind.toText))
  | .assign target value false => spaced ["var", target, "=", value.raw]
  | .assign target value true => spaced ["var", "const", target, "=", value.raw]
  | .branch c => ["if"] :: condition c
  | .loop c => ["for"] :: condition c
  | .otherwise chained => spaced ("else" :: chained)
  | .close => spaced ["end"]
  | .delete target => spaced ["del", target]
  | .status target reference => ["err"] :: property target reference "err"
  | .fetch target reference => ["res"] :: property target reference "res"
  | .request r => spaced ("url" :: Rendering.request r)
  | .use mode => spaced ["use", mode.toText]
  | .print value => spaced ["print", value.raw]
  | .read target => spaced ["read", target]
  | .leave none => spaced ["return"]
  | .leave (some value) => spaced ["return", value.raw]
  | .call c => spaced (c.name :: arguments c.args)
  | .callInto target c => spaced ("var" :: target :: "=" :: c.name :: arguments c.args)
  | .index target source position =>
    spaced ["var", target, "=", source, "[", Nat.repr position, "]"]
  | .increment target => spaced [target ++ "++"]
  | .decrement target => spaced [target ++ "--"]

def render (i : Instruction) : String := Token.lineOf i.groups

end Instruction

namespace Rendering

open Token (IsLexeme IsGroup IsSpelled Spells)
open Form

structure Renders (groups : List (List String)) (form : List Token → Prop) : Prop where
  form : form (groups.flatten.map Token.ofRaw)
  isGroup : ∀ g ∈ groups, IsGroup (g.map String.toList)

theorem flatten_spaced (raws : List String) : (spaced raws).flatten = raws := by
  induction raws with
  | nil => rfl
  | cons r raws ih => simpa [spaced] using ih

theorem renders_spaced {raws : List String} {form : List Token → Prop}
    (hform : form (raws.map Token.ofRaw)) (hraws : ∀ r ∈ raws, IsLexeme r.toList) :
    Renders (spaced raws) form := by
  refine ⟨by rwa [flatten_spaced], fun g hg => ?_⟩
  obtain ⟨r, hr, rfl⟩ := List.mem_map.1 hg
  exact .last (hraws r hr)

/-- The texts of the language that are not chosen by the writer of a script. -/
def fixedWords : List String :=
  ["def", "var", "const", "if", "for", "else", "end", "del", "err", "res", "url", "use", "print",
    "read", "return", "success", "endpoint", "method", "timeout", "halt", "GET", "true", "false",
    "num", "str", "debug", "scope", "warns"]

def fixedMarks : List String :=
  ["(", ")", "[", "]", "\x7b", "\x7d", ",", ":", "=", "!", "<", ">"]

theorem isWord_of_mem_fixedWords : ∀ r ∈ fixedWords, Token.IsWord r.toList := by
  have hwords : ∀ r ∈ fixedWords, r.toList ≠ [] ∧ r.toList.all Token.isPlain = true := by decide
  intro r hr
  obtain ⟨hne, hplain⟩ := hwords r hr
  exact ⟨hne, List.all_eq_true.1 hplain⟩

theorem isClosed_of_mem_fixedMarks : ∀ r ∈ fixedMarks, Token.IsClosed r.toList := by
  have hmarks : ∀ r ∈ fixedMarks, r.toList ∈ Token.delimiters.map ([·]) := by decide
  intro r hr
  obtain ⟨c, hc, hchars⟩ := List.mem_map.1 (hmarks r hr)
  rw [← hchars]
  exact .delimiter hc

theorem isLexeme_word {r : String} (h : r ∈ fixedWords) : IsLexeme r.toList :=
  .word (isWord_of_mem_fixedWords r h)

theorem isLexeme_mark {r : String} (h : r ∈ fixedMarks) : IsLexeme r.toList :=
  .closed (isClosed_of_mem_fixedMarks r h)

section Arguments

theorem isLexeme_of_mem_items {raws : List String} (h : ∀ r ∈ raws, IsLexeme r.toList) :
    ∀ r ∈ items raws, IsLexeme r.toList := by
  have hclose : IsLexeme ")".toList := isLexeme_mark (by decide)
  have hcomma : IsLexeme ",".toList := isLexeme_mark (by decide)
  fun_induction items raws with
  | case1 => exact List.forall_mem_singleton.2 hclose
  | case2 item =>
    have hitem := h item List.mem_cons_self
    simp only [List.forall_mem_cons]
    exact ⟨hitem, hclose, List.forall_mem_nil _⟩
  | case3 item rest _ ih =>
    obtain ⟨hitem, hrest⟩ := List.forall_mem_cons.1 h
    simp only [List.forall_mem_cons]
    exact ⟨hitem, hcomma, ih hrest⟩

theorem arguments_items : {vs : List Operand} → vs ≠ [] → (∀ v ∈ vs, v.token.IsSpelled) →
    Form.Arguments ((items (vs.map Operand.raw)).map Token.ofRaw) vs
  | [], hne, _ => absurd rfl hne
  | [v], _, hvs => by
    have hv := Operand.spells_raw (hvs v List.mem_cons_self)
    change Form.Arguments [Token.ofRaw v.raw, Token.ofRaw ")"] [v]
    rw [hv.ofRaw_eq]
    exact .last v rfl
  | v :: w :: vs, _, hvs => by
    obtain ⟨hspelled, hrest⟩ := List.forall_mem_cons.1 hvs
    have hv := Operand.spells_raw hspelled
    change Form.Arguments (Token.ofRaw v.raw :: Token.ofRaw "," :: _) _
    rw [hv.ofRaw_eq]
    exact .more v rfl (arguments_items (List.cons_ne_nil w vs) hrest)

theorem argumentList_arguments {vs : List Operand} (h : ∀ v ∈ vs, v.token.IsSpelled) :
    ArgumentList ((arguments vs).map Token.ofRaw) vs := by
  cases vs with
  | nil => exact .none rfl rfl
  | cons v vs => exact .some rfl (arguments_items (List.cons_ne_nil v vs) h)

theorem isLexeme_of_mem_arguments {vs : List Operand} (h : ∀ v ∈ vs, v.token.IsSpelled) :
    ∀ r ∈ arguments vs, IsLexeme r.toList := by
  refine List.forall_mem_cons.2 ⟨isLexeme_mark (by decide), isLexeme_of_mem_items fun r hr => ?_⟩
  obtain ⟨v, hv, rfl⟩ := List.mem_map.1 hr
  exact (Operand.spells_raw (h v hv)).isLexeme

variable {tokens : List Token} {vs : List Operand}

theorem isSpelled_of_arguments (h : Form.Arguments tokens vs) (hs : ∀ t ∈ tokens, t.IsSpelled) :
    ∀ v ∈ vs, v.token.IsSpelled := by
  induction h with
  | last v _ => exact List.forall_mem_singleton.2 (hs _ List.mem_cons_self)
  | more v _ _ ih =>
    simp only [List.forall_mem_cons] at hs ⊢
    exact ⟨hs.1, ih hs.2.2⟩

theorem isSpelled_of_argumentList (h : ArgumentList tokens vs) (hs : ∀ t ∈ tokens, t.IsSpelled) :
    ∀ v ∈ vs, v.token.IsSpelled := by
  cases h with
  | none _ _ => exact List.forall_mem_nil _
  | some _ hargs => exact isSpelled_of_arguments hargs (List.forall_mem_cons.1 hs).2

end Arguments

section Conditions

theorem operator_tokens (op : Comparison) : Operator (op.tokens.map Token.ofRaw) op := by
  cases op with
  | equal => exact .joined rfl rfl
  | notEqual => exact .joined rfl rfl
  | less => exact .single rfl
  | lessEqual => exact .joined rfl rfl
  | greater => exact .single rfl
  | greaterEqual => exact .joined rfl rfl

theorem isGroup_pair {first second : String} (hfirst : first ∈ fixedMarks)
    (hsecond : second ∈ fixedMarks) : IsGroup ([first, second].map String.toList) :=
  .cons (isClosed_of_mem_fixedMarks first hfirst) (.last (isLexeme_mark hsecond))

theorem isGroup_tokens (op : Comparison) : IsGroup (op.tokens.map String.toList) := by
  cases op with
  | equal => exact isGroup_pair (by decide) (by decide)
  | notEqual => exact isGroup_pair (by decide) (by decide)
  | less => exact .last (isLexeme_mark (by decide))
  | lessEqual => exact isGroup_pair (by decide) (by decide)
  | greater => exact .last (isLexeme_mark (by decide))
  | greaterEqual => exact isGroup_pair (by decide) (by decide)

variable {tokens : List Token}

theorem renders_test {t : Test} (h : Tested tokens t) (hs : ∀ t ∈ tokens, t.IsSpelled) :
    Renders (test t) (Tested · t) := by
  cases h with
  | succeeded _ =>
    exact renders_spaced (.succeeded rfl) (List.forall_mem_singleton.2 (isLexeme_word (by decide)))
  | declared name =>
    have hname := spells_named (hs _ List.mem_cons_self)
    refine renders_spaced ?_ (List.forall_mem_singleton.2 hname.isLexeme)
    rw [List.map_singleton, hname.ofRaw_eq]
    exact .declared name
  | compares l r _ =>
    have hl := Operand.spells_raw (hs l.token (by simp))
    have hr := Operand.spells_raw (hs r.token (by simp))
    refine ⟨?_, ?_⟩
    · simp only [test, List.flatten_cons, List.flatten_nil, List.map_append, List.map_singleton,
        List.append_nil, hl.ofRaw_eq, hr.ofRaw_eq]
      exact .compares l r (operator_tokens _)
    · simp only [test, List.forall_mem_cons]
      exact ⟨.last hl.isLexeme, isGroup_tokens _, .last hr.isLexeme, List.forall_mem_nil _⟩

theorem renders_condition {c : Condition} (h : Conditional tokens c)
    (hs : ∀ t ∈ tokens, t.IsSpelled) : Renders (condition c) (Conditional · c) := by
  cases h with
  | plain htest =>
    obtain ⟨hform, hgroups⟩ := renders_test htest hs
    exact ⟨.plain hform, hgroups⟩
  | negated _ htest =>
    obtain ⟨hform, hgroups⟩ := renders_test htest (List.forall_mem_cons.1 hs).2
    exact ⟨.negated rfl hform,
      List.forall_mem_cons.2 ⟨.last (isLexeme_mark (by decide)), hgroups⟩⟩

end Conditions

theorem Renders.cons {word : String} {groups : List (List String)}
    {form other : List Token → Prop} (h : Renders groups form) (hword : word ∈ fixedWords)
    (hform : ∀ tokens, form tokens → other (Token.ofRaw word :: tokens)) :
    Renders ([word] :: groups) other :=
  ⟨hform _ h.form, List.forall_mem_cons.2 ⟨.last (isLexeme_word hword), h.isGroup⟩⟩

theorem renders_property {word : Keyword} {tokens : List Token} {target reference : String}
    (text : String) (h : Property word tokens target reference) (hs : ∀ t ∈ tokens, t.IsSpelled)
    (htext : text ∈ fixedWords) (hkind : (Token.ofRaw text).kind = .keyword word) :
    Renders (property target reference text) (Property word · target reference) := by
  cases h with
  | intro _ _ =>
    have htarget := spells_named (hs (named target) (by simp))
    have hreference := spells_named (hs (named reference) (by simp))
    refine ⟨?_, ?_⟩
    · change Property word [Token.ofRaw target, Token.ofRaw "=", Token.ofRaw reference,
        Token.ofRaw ":", Token.ofRaw ":", Token.ofRaw text] target reference
      rw [htarget.ofRaw_eq, hreference.ofRaw_eq]
      exact .intro target reference rfl rfl rfl hkind
    · simp only [property, List.forall_mem_cons]
      exact ⟨.last htarget.isLexeme, .last (isLexeme_mark (by decide)), .last hreference.isLexeme,
        isGroup_pair (by decide) (by decide), .last (isLexeme_word htext), List.forall_mem_nil _⟩

section Requests

open Reader (RequestFields)

/-- The fields can be written: the timeout is within bounds and the endpoint has no quote. -/
structure IsWritable (f : RequestFields) : Prop where
  timeout : f.timeout < 2 ^ 64
  endpoint : ∀ e ∈ f.endpoint, '\'' ∉ e.toList

theorem isWritable_of_field {f g : RequestFields} {key value : Token} (h : Field f key value g)
    (hf : IsWritable f) (hvalue : value.IsSpelled) : IsWritable g := by
  cases h with
  | endpoint _ =>
    refine ⟨hf.timeout, ?_⟩
    rintro e ⟨⟩
    exact Token.not_mem_quote_of_isSpelled hvalue
  | method _ => exact ⟨hf.timeout, hf.endpoint⟩
  | timeout _ hwhole => exact ⟨lt_of_whole? hwhole, hf.endpoint⟩
  | halt b _ _ => exact ⟨hf.timeout, hf.endpoint⟩

theorem isWritable_of_fields {f g : RequestFields} {tokens : List Token} (h : Fields tokens f g)
    (hf : IsWritable f) (hs : ∀ t ∈ tokens, t.IsSpelled) : IsWritable g := by
  induction h with
  | last _ hfield _ => exact isWritable_of_field hfield hf (hs _ (by simp))
  | trailing _ hfield _ _ => exact isWritable_of_field hfield hf (hs _ (by simp))
  | more _ hfield _ _ ih =>
    simp only [List.forall_mem_cons] at hs
    exact ih (isWritable_of_field hfield hf hs.2.2.1) hs.2.2.2.2

/-- The four fields that a rendered request has. -/
theorem fields_rendered {timeout : Nat} (endpoint : String) (halt : Bool)
    (htimeout : timeout < 2 ^ 64) :
    Fields (["endpoint", ":", quoted endpoint, ",", "method", ":", "GET", ",", "timeout", ":",
      Nat.repr timeout, ",", "halt", ":", toString halt, "\x7d"].map Token.ofRaw) {}
      ⟨endpoint, "GET", timeout, halt⟩ := by
  have hendpoint : Field {} (Token.ofRaw "endpoint") (Token.ofRaw (quoted endpoint))
      { endpoint := some endpoint } := by
    rw [Token.ofRaw_quoted]
    exact .endpoint rfl
  have hmethod : Field { endpoint := some endpoint } (Token.ofRaw "method") (Token.ofRaw "GET")
      { endpoint := some endpoint } := .method rfl
  have hwhole : Field { endpoint := some endpoint } (Token.ofRaw "timeout")
      (Token.ofRaw (Nat.repr timeout)) { endpoint := some endpoint, timeout := timeout } := by
    rw [(spells_repr timeout).ofRaw_eq]
    exact .timeout rfl (whole?_repr htimeout)
  have hhalt : Field { endpoint := some endpoint, timeout := timeout } (Token.ofRaw "halt")
      (Token.ofRaw (toString halt))
      { endpoint := some endpoint, timeout := timeout, halt := halt } := by
    refine .halt halt rfl ?_
    cases halt <;> rfl
  exact .more rfl hendpoint rfl (.more rfl hmethod rfl (.more rfl hwhole rfl (.last rfl hhalt rfl)))

theorem isLexeme_of_mem_request {r : Request} (htarget : IsLexeme r.target.toList)
    (hendpoint : '\'' ∉ r.endpoint.toList) (hmethod : r.method = "GET") :
    ∀ t ∈ request r, IsLexeme t.toList := by
  have hhalt : IsLexeme (toString r.halt).toList := by
    cases r.halt
    · exact isLexeme_word (r := "false") (by decide)
    · exact isLexeme_word (r := "true") (by decide)
  simp only [request, List.forall_mem_cons, hmethod]
  exact ⟨htarget, isLexeme_mark (by decide), isLexeme_mark (by decide), isLexeme_word (by decide),
    isLexeme_mark (by decide), Token.isLexeme_quoted hendpoint, isLexeme_mark (by decide),
    isLexeme_word (by decide), isLexeme_mark (by decide), isLexeme_word (by decide),
    isLexeme_mark (by decide), isLexeme_word (by decide), isLexeme_mark (by decide),
    (spells_repr r.timeout).isLexeme, isLexeme_mark (by decide), isLexeme_word (by decide),
    isLexeme_mark (by decide), hhalt, isLexeme_mark (by decide), List.forall_mem_nil _⟩

end Requests

section Instructions

variable {tokens : List Token}

theorem renders_define {params returns : List Token} {colon : Token} {names : List String}
    {kind : Option Kind} (name : String) (hparams : Parameters params names)
    (hs : ∀ t ∈ named name :: (params ++ colon :: returns), t.IsSpelled) :
    Renders (Instruction.define ⟨name, names, kind⟩).groups
      (Form · (.define ⟨name, names, kind⟩)) := by
  obtain ⟨hname, hs⟩ := List.forall_mem_cons.1 hs
  have hname := spells_named hname
  have hnames : ∀ v ∈ names.map Operand.name, v.token.IsSpelled := by
    cases hparams with
    | omitted => exact List.forall_mem_nil _
    | listed hlist =>
      exact isSpelled_of_argumentList hlist fun t ht => hs t (List.mem_append_left _ ht)
  have hreturns : Returns ((kind.toList.map Kind.toText).map Token.ofRaw) kind ∧
      ∀ r ∈ kind.toList.map Kind.toText, IsLexeme r.toList := by
    cases kind with
    | none => exact ⟨.nothing, List.forall_mem_nil _⟩
    | some kind =>
      cases kind with
      | num => exact ⟨.number rfl, List.forall_mem_singleton.2 (isLexeme_word (by decide))⟩
      | str => exact ⟨.string rfl, List.forall_mem_singleton.2 (isLexeme_word (by decide))⟩
  apply renders_spaced
  · simp only [List.map_cons, List.map_append, hname.ofRaw_eq]
    exact .keyword rfl (.define name (.listed (argumentList_arguments hnames)) rfl hreturns.1)
  · simp only [List.forall_mem_cons, List.forall_mem_append]
    exact ⟨isLexeme_word (by decide), hname.isLexeme, isLexeme_of_mem_arguments hnames,
      isLexeme_mark (by decide), hreturns.2⟩

theorem renders_assigned {target : String} {constant : Bool} {i : Instruction}
    (htarget : (named target).IsSpelled) (h : Assigned target constant tokens i)
    (hs : ∀ t ∈ tokens, t.IsSpelled) : Renders i.groups (Form · i) := by
  have htarget := spells_named htarget
  cases h with
  | plain v =>
    have hv := Operand.spells_raw (hs v.token List.mem_cons_self)
    cases constant with
    | true =>
      apply renders_spaced
      · simp only [List.map_cons, List.map_nil, htarget.ofRaw_eq, hv.ofRaw_eq]
        exact .keyword rfl (.constant target rfl rfl (.plain v true))
      · simp only [List.forall_mem_cons]
        exact ⟨isLexeme_word (by decide), isLexeme_word (by decide), htarget.isLexeme,
          isLexeme_mark (by decide), hv.isLexeme, List.forall_mem_nil _⟩
    | false =>
      apply renders_spaced
      · simp only [List.map_cons, List.map_nil, htarget.ofRaw_eq, hv.ofRaw_eq]
        exact .keyword rfl (.assign target rfl (.plain v false))
      · simp only [List.forall_mem_cons]
        exact ⟨isLexeme_word (by decide), htarget.isLexeme, isLexeme_mark (by decide), hv.isLexeme,
          List.forall_mem_nil _⟩
  | call name hargs =>
    obtain ⟨hname, hs⟩ := List.forall_mem_cons.1 hs
    have hname := spells_named hname
    have hvs := isSpelled_of_argumentList hargs hs
    apply renders_spaced
    · simp only [List.map_cons, htarget.ofRaw_eq, hname.ofRaw_eq]
      exact .keyword rfl (.assign target rfl (.call name (argumentList_arguments hvs)))
    · simp only [List.forall_mem_cons]
      exact ⟨isLexeme_word (by decide), htarget.isLexeme, isLexeme_mark (by decide), hname.isLexeme,
        isLexeme_of_mem_arguments hvs⟩
  | @index opening close position n source _ hposition _ =>
    have hsource := spells_named (hs (named source) List.mem_cons_self)
    have hnumber := spells_repr n
    apply renders_spaced
    · simp only [List.map_cons, List.map_nil, htarget.ofRaw_eq, hsource.ofRaw_eq, hnumber.ofRaw_eq]
      exact .keyword rfl
        (.assign target rfl (.index source rfl (whole?_repr (lt_of_whole? hposition)) rfl))
    · simp only [List.forall_mem_cons]
      exact ⟨isLexeme_word (by decide), htarget.isLexeme, isLexeme_mark (by decide),
        hsource.isLexeme, isLexeme_mark (by decide), hnumber.isLexeme, isLexeme_mark (by decide),
        List.forall_mem_nil _⟩

theorem renders_request {eq opening : Token} {f : Reader.RequestFields} {endpoint target : String}
    (hs : ∀ t ∈ named target :: eq :: opening :: tokens, t.IsSpelled) (hfields : Fields tokens {} f)
    (hendpoint : f.endpoint = some endpoint) :
    Renders (Instruction.request ⟨target, endpoint, "GET", f.timeout, f.halt⟩).groups
      (Form · (.request ⟨target, endpoint, "GET", f.timeout, f.halt⟩)) := by
  simp only [List.forall_mem_cons] at hs
  have htarget := spells_named hs.1
  have hwritable := isWritable_of_fields hfields ⟨by decide, nofun⟩ hs.2.2.2
  apply renders_spaced
  · have hrendered := fields_rendered endpoint f.halt hwritable.timeout
    have hmethod : "GET".toList.map Char.toLower = ['g', 'e', 't'] := by decide
    simp only [request, List.map_cons, htarget.ofRaw_eq]
    exact .keyword rfl (.request (f := ⟨endpoint, "GET", f.timeout, f.halt⟩) target rfl rfl
      hrendered rfl hmethod)
  · refine List.forall_mem_cons.2 ⟨isLexeme_word (by decide), ?_⟩
    exact isLexeme_of_mem_request htarget.isLexeme (hwritable.endpoint endpoint hendpoint) rfl

/-- A line of a keyword and an operand. -/
theorem renders_operand {word : String} {v : Operand} {i : Instruction} (hv : v.token.IsSpelled)
    (hword : word ∈ fixedWords) (hform : Form [Token.ofRaw word, v.token] i) :
    Renders (spaced [word, v.raw]) (Form · i) := by
  have hv := Operand.spells_raw hv
  apply renders_spaced
  · simpa only [List.map_cons, List.map_nil, hv.ofRaw_eq] using hform
  · simp only [List.forall_mem_cons]
    exact ⟨isLexeme_word hword, hv.isLexeme, List.forall_mem_nil _⟩

/-- A line of fixed words. -/
theorem renders_fixed (words : List String) {i : Instruction}
    (hwords : ∀ word ∈ words, word ∈ fixedWords) (hform : Form (words.map Token.ofRaw) i) :
    Renders (spaced words) (Form · i) :=
  renders_spaced hform fun word hword => isLexeme_word (hwords word hword)

theorem renders_rest {word : Keyword} {i : Instruction} (h : Rest word tokens i)
    (hs : ∀ t ∈ tokens, t.IsSpelled) : Renders i.groups (Form · i) := by
  cases h with
  | define name hparams _ _ => exact renders_define name hparams hs
  | assign target _ h =>
    simp only [List.forall_mem_cons] at hs
    exact renders_assigned hs.1 h hs.2.2
  | constant target _ _ h =>
    simp only [List.forall_mem_cons] at hs
    exact renders_assigned hs.2.1 h hs.2.2.2
  | branch hc =>
    exact (renders_condition hc hs).cons (by decide) fun _ h => .keyword rfl (.branch h)
  | loop hc =>
    exact (renders_condition hc hs).cons (by decide) fun _ h => .keyword rfl (.loop h)
  | close => exact renders_fixed ["end"] (by decide) (.keyword rfl .close)
  | delete target =>
    exact renders_operand (v := .name target) (hs _ List.mem_cons_self) (by decide)
      (.keyword rfl (.delete target))
  | read target =>
    exact renders_operand (v := .name target) (hs _ List.mem_cons_self) (by decide)
      (.keyword rfl (.read target))
  | fetch h =>
    have hproperty := renders_property "res" h hs (by decide) rfl
    exact hproperty.cons (by decide) fun _ h => .keyword rfl (.fetch h)
  | status h =>
    have hproperty := renders_property "err" h hs (by decide) rfl
    exact hproperty.cons (by decide) fun _ h => .keyword rfl (.status h)
  | request target _ _ hfields hendpoint _ => exact renders_request hs hfields hendpoint
  | use mode =>
    cases mode with
    | debug => exact renders_fixed ["use", "debug"] (by decide) (.keyword rfl (.use .debug rfl))
    | scope => exact renders_fixed ["use", "scope"] (by decide) (.keyword rfl (.use .scope rfl))
    | warns => exact renders_fixed ["use", "warns"] (by decide) (.keyword rfl (.use .warns rfl))
  | print v =>
    exact renders_operand (hs _ List.mem_cons_self) (by decide) (.keyword rfl (.print v))
  | leave => exact renders_fixed ["return"] (by decide) (.keyword rfl .leave)
  | leaveWith v =>
    exact renders_operand (hs _ List.mem_cons_self) (by decide) (.keyword rfl (.leaveWith v))

theorem renders_form {i : Instruction} (h : Form tokens i) (hs : ∀ t ∈ tokens, t.IsSpelled) :
    Renders i.groups (Form · i) := by
  cases h with
  | keyword _ h => exact renders_rest h (List.forall_mem_cons.1 hs).2
  | @increment t hkind =>
    have ht := spells_step (hs t List.mem_cons_self) (.inl ⟨hkind, rfl⟩)
    refine renders_spaced ?_ (List.forall_mem_singleton.2 ht.isLexeme)
    rw [List.map_singleton, ht.ofRaw_eq]
    exact .increment hkind
  | @decrement t hkind =>
    have ht := spells_step (hs t List.mem_cons_self) (.inr ⟨hkind, rfl⟩)
    refine renders_spaced ?_ (List.forall_mem_singleton.2 ht.isLexeme)
    rw [List.map_singleton, ht.ofRaw_eq]
    exact .decrement hkind
  | call name hargs =>
    obtain ⟨hname, hs⟩ := List.forall_mem_cons.1 hs
    have hname := spells_named hname
    have hvs := isSpelled_of_argumentList hargs hs
    apply renders_spaced
    · simp only [List.map_cons, hname.ofRaw_eq]
      exact .call name (argumentList_arguments hvs)
    · exact List.forall_mem_cons.2 ⟨hname.isLexeme, isLexeme_of_mem_arguments hvs⟩

end Instructions

end Rendering

def Instruction.ofLine? (line : String) : Except Cause (Option Instruction) := do
  let raw ← Token.tokenize line
  Instruction.read? raw

namespace Instruction

open Rendering

theorem ofLine?_eq_ok {line : String} {k : Option Instruction} :
    ofLine? line = .ok k ↔ ∃ raw, Token.tokenize line = .ok raw ∧ read? raw = .ok k :=
  Reader.check_eq_ok

/-- An instruction that some line states is the one that its rendering states. -/
theorem ofLine?_render {line : String} {i : Instruction} (h : ofLine? line = .ok (some i)) :
    ofLine? i.render = .ok (some i) := by
  obtain ⟨raw, hraw, hread⟩ := ofLine?_eq_ok.1 h
  rcases read?_eq_some_iff.1 hread with ⟨chained, rfl, rfl⟩ | hform
  · have hlexemes := Token.isLexeme_of_tokenize hraw
    have hrenders : Renders (groups (.otherwise chained)) (fun _ => True) :=
      renders_spaced trivial hlexemes
    have htokens : (groups (.otherwise chained)).flatten = "else" :: chained := flatten_spaced _
    refine ofLine?_eq_ok.2 ⟨_, Token.tokenize_lineOf hrenders.isGroup, ?_⟩
    exact read?_eq_some_iff.2 (.inl ⟨chained, htokens, rfl⟩)
  · obtain ⟨hrendered, hgroups⟩ := renders_form hform (Token.isSpelled_of_tokenize hraw)
    exact ofLine?_eq_ok.2 ⟨_, Token.tokenize_lineOf hgroups, read?_eq_some_iff.2 (.inr hrendered)⟩

theorem ofLine?_render_branch :
    ofLine? "if!n'<'='a #b' # low" =
      .ok (some (branch ⟨true, .compares (.name "n") .lessEqual (.literal "a #b")⟩)) ∧
    ofLine? (branch ⟨true, .compares (.name "n") .lessEqual (.literal "a #b")⟩).render =
      .ok (some (branch ⟨true, .compares (.name "n") .lessEqual (.literal "a #b")⟩)) := by
  have htokens : Token.tokenize "if!n'<'='a #b' # low" =
      .ok ["if", "!", "n", "'<'", "=", "'a #b'"] := rfl
  have hread : read? ["if", "!", "n", "'<'", "=", "'a #b'"] =
      .ok (some (branch ⟨true, .compares (.name "n") .lessEqual (.literal "a #b")⟩)) := rfl
  have hline := ofLine?_eq_ok.2 ⟨_, htokens, hread⟩
  exact ⟨hline, ofLine?_render hline⟩

example : (branch ⟨true, .compares (.name "n") .lessEqual (.literal "a #b")⟩).render =
    "if ! n <= 'a #b'" := rfl

example : (request ⟨"u", "https://a.b/", "GET", 250, false⟩).render =
    "url u = \x7b endpoint : 'https://a.b/' , method : GET , timeout : 250 , halt : false \x7d" :=
  rfl

end Instruction

end ApiScript
