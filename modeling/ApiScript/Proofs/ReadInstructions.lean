import ApiScript.Instruction.Reading

/-!
# What reading gives

Whatever the tokens of a line are, reading either refuses them as malformed, or for a mode that is
not known, or gives an instruction. An instruction that is no boundary of a block is then stated with
its values, and every number among these is written as a number.
-/
namespace ApiScript

namespace TokenKind

theorem mem_reserved_of_lookup {raw : String} {kind : TokenKind}
    (h : reserved.lookup raw = some kind) : (raw, kind) ∈ reserved := by
  obtain ⟨before, after, hentries, -⟩ := List.lookup_eq_some_iff.1 h
  rw [hentries]
  exact List.mem_append_right _ List.mem_cons_self

theorem ofName_mem (cs : List Char) : ofName cs ∈ [increment, decrement, name, unknown] := by
  unfold ofName
  split <;> split <;> decide

/-- A text is quoted, a number, reserved, or spelled like a name. -/
theorem classify_cases (raw : String) :
    classify raw = .literal ∨ (classify raw = .number ∧ isNumeric raw = true) ∨
      (raw, classify raw) ∈ reserved ∨ classify raw ∈ [increment, decrement, name, unknown] := by
  unfold classify
  split
  · exact .inl rfl
  · split
    · next hnumeric => exact .inr (.inl ⟨rfl, hnumeric⟩)
    · cases hlookup : reserved.lookup raw with
      | none => exact .inr (.inr (.inr (ofName_mem raw.toList)))
      | some kind => exact .inr (.inr (.inl (mem_reserved_of_lookup hlookup)))

theorem isNumeric_of_classify {raw : String} (h : classify raw = .number) :
    isNumeric raw = true := by
  have hcases := classify_cases raw
  rw [h] at hcases
  rcases hcases with hkind | hnumeric | hreserved | hname
  · cases hkind
  · exact hnumeric.2
  · simp [reserved] at hreserved
  · simp at hname

theorem mem_reserved_of_keyword {raw : String} {word : Keyword}
    (h : classify raw = .keyword word) : (raw, .keyword word) ∈ reserved := by
  have hcases := classify_cases raw
  rw [h] at hcases
  simpa using hcases

theorem mem_reserved_of_mark {raw : String} {mark : Mark} (h : classify raw = .mark mark) :
    (raw, .mark mark) ∈ reserved := by
  have hcases := classify_cases raw
  rw [h] at hcases
  simpa using hcases

end TokenKind

def Cause.isRefusal : Cause → Bool
  | .malformed _ => true
  | .unknownMode => true
  | _ => false

def Condition.operands (c : Condition) : List Operand :=
  match c.test with
  | .compares lhs _ rhs => [lhs, rhs]
  | _ => []

def Instruction.operands : Instruction → List Operand
  | .assign _ value _ => [value]
  | .branch condition => condition.operands
  | .loop condition => condition.operands
  | .print value => [value]
  | .leave value => value.toList
  | .call c => c.args
  | .callInto _ c => c.args
  | _ => []

def Operand.IsWritten : Operand → Prop
  | .number text => isNumeric text = true
  | _ => True

def Instruction.isBoundary : Instruction → Bool
  | .otherwise _ => true
  | .close => true
  | _ => false

def Instruction.IsWritten (i : Instruction) : Prop := ∀ operand ∈ i.operands, operand.IsWritten

structure Instruction.Stated (i : Instruction) : Prop where
  isWritten : i.IsWritten
  isBoundary : i.isBoundary = false

def Token.IsWritten (t : Token) : Prop := t.kind = .number → isNumeric t.text = true

theorem Token.ofRaw_isWritten (raw : String) : (Token.ofRaw raw).IsWritten := by
  intro hkind
  have hclassify : TokenKind.classify raw = .number := hkind
  have htext : (Token.ofRaw raw).text = raw := by simp [ofRaw, hclassify]
  rw [htext]
  exact TokenKind.isNumeric_of_classify hclassify

namespace Reader

variable {α β : Type} {good : α → Prop} {post : β → Prop}

def Offers (good : α → Prop) : Except Cause α → Prop
  | .ok a => good a
  | .error cause => cause.isRefusal = true

def Left (good : α → Prop) (p : α × List Token) : Prop :=
  good p.1 ∧ ∀ t ∈ p.2, Token.IsWritten t

/-- From tokens as they are written, a reader gives a result of some kind or refuses the line. -/
def Gives (good : α → Prop) (x : Reader α) : Prop :=
  ∀ tokens, (∀ t ∈ tokens, Token.IsWritten t) → Offers (Left good) (x tokens)

theorem Offers.refuse (how : Malformation) : Offers good (Reader.refuse how) := rfl

theorem Offers.bind {x : Except Cause α} {f : α → Except Cause β} (hx : Offers good x)
    (hf : ∀ a, good a → Offers post (f a)) : Offers post (x >>= f) := by
  cases x with
  | error cause => exact hx
  | ok a => exact hf a hx

namespace Gives

theorem pure {a : α} (h : good a) : Gives good (Pure.pure a : Reader α) := fun _ ht => ⟨h, ht⟩

theorem bind {x : Reader α} {f : α → Reader β} (hx : Gives good x)
    (hf : ∀ a, good a → Gives post (f a)) : Gives post (x >>= f) :=
  fun tokens ht => (hx tokens ht).bind fun p hp => hf p.1 hp.1 p.2 hp.2

theorem lift {x : Except Cause α} (hx : Offers good x) : Gives good (liftM x : Reader α) :=
  fun _ ht => hx.bind fun _ ha => ⟨ha, ht⟩

theorem map {x : Reader α} {f : α → β} (hx : Gives good x) (hf : ∀ a, good a → post (f a)) :
    Gives post (f <$> x) :=
  hx.bind fun a ha => pure (hf a ha)

end Gives

theorem gives_next : Gives Token.IsWritten next := by
  intro tokens ht
  cases tokens with
  | nil => exact .refuse _
  | cons token rest => exact List.forall_mem_cons.1 ht

theorem gives_expect (kind : TokenKind) (what : Expectation) :
    Gives (fun _ => True) (expect kind what) := by
  intro tokens ht
  cases tokens with
  | nil => exact .refuse _
  | cons token rest =>
    rw [expect]
    split
    · exact ⟨trivial, (List.forall_mem_cons.1 ht).2⟩
    · exact .refuse _

theorem gives_expectMark (mark : Mark) (text : String) :
    Gives (fun _ => True) (expectMark mark text) := gives_expect _ _

theorem gives_eat (kind : TokenKind) : Gives (fun _ => True) (eat kind) := by
  intro tokens ht
  cases tokens with
  | nil => exact ⟨trivial, ht⟩
  | cons token rest =>
    rw [eat]
    split
    · exact ⟨trivial, (List.forall_mem_cons.1 ht).2⟩
    · exact ⟨trivial, ht⟩

theorem gives_finish : Gives (fun _ => True) finish := by
  intro tokens ht
  cases tokens with
  | nil => exact ⟨trivial, ht⟩
  | cons token rest => exact .refuse _

/-- A reader that ends with `finish` and a result gives that result. -/
theorem gives_finish_pure {a : α} (h : good a) :
    Gives good (do finish; Pure.pure a) := gives_finish.bind fun _ _ => .pure h

theorem offers_operand {token : Token} (h : token.IsWritten) :
    Offers Operand.IsWritten (operand token) := by
  unfold operand
  split
  · exact trivial
  · next hkind => exact h hkind
  · exact trivial
  · exact .refuse _

theorem gives_nextOperand : Gives Operand.IsWritten nextOperand :=
  gives_next.bind fun _ h => .lift (offers_operand h)

theorem gives_arguments : Gives (fun args => ∀ arg ∈ args, Operand.IsWritten arg) arguments := by
  intro tokens ht
  induction tokens using arguments.induct with
  | case1 => exact .refuse _
  | case2 token =>
    rw [arguments]
    exact (offers_operand (ht token List.mem_cons_self)).bind fun _ _ => .refuse _
  | case3 token separator rest ih =>
    obtain ⟨htoken, hseparator, hrest⟩ : token.IsWritten ∧ separator.IsWritten ∧
        ∀ t ∈ rest, Token.IsWritten t := by simpa using ht
    rw [arguments]
    refine (offers_operand htoken).bind fun arg harg => ?_
    split
    · exact ⟨by simpa using harg, hrest⟩
    · split
      · split
        · exact .refuse _
        · refine (ih hrest).bind fun p hp => ?_
          exact ⟨List.forall_mem_cons.2 ⟨harg, hp.1⟩, hp.2⟩
      · exact .refuse _

theorem gives_argumentList :
    Gives (fun args => ∀ arg ∈ args, Operand.IsWritten arg) argumentList := by
  refine (gives_expectMark _ _).bind fun _ _ => (gives_eat _).bind fun closed _ => ?_
  cases closed with
  | true => exact .pure (by simp)
  | false => exact gives_arguments

theorem gives_call : Gives (fun c : Call => ∀ arg ∈ c.args, Operand.IsWritten arg) call :=
  (gives_expect _ _).bind fun _ _ => gives_argumentList.bind fun _ hargs => .pure hargs

theorem offers_parameter (function : String) (operand : Operand) :
    Offers (fun _ => True) (parameter function operand) := by
  cases operand with
  | name text => exact trivial
  | number text => exact .refuse _
  | literal text => exact .refuse _

theorem offers_mapM_parameter (function : String) (operands : List Operand) :
    Offers (fun _ => True) (operands.mapM (parameter function)) := by
  induction operands with
  | nil => exact trivial
  | cons operand rest ih =>
    rw [List.mapM_cons]
    exact (offers_parameter function operand).bind fun _ _ => ih.bind fun _ _ => trivial

theorem gives_parameters (function : String) :
    Gives (fun _ => True) (parameters function) := by
  intro tokens ht
  unfold parameters
  split
  · refine (gives_argumentList tokens ht).bind fun p hp => ?_
    exact (offers_mapM_parameter function p.1).bind fun _ _ => ⟨trivial, hp.2⟩
  · exact ⟨trivial, ht⟩

theorem gives_returnKind : Gives (fun _ => True) returnKind := by
  intro tokens ht
  cases tokens with
  | nil => exact ⟨trivial, ht⟩
  | cons token rest =>
    have hrest := (List.forall_mem_cons.1 ht).2
    rw [returnKind]
    split
    · exact ⟨trivial, hrest⟩
    · split
      · exact ⟨trivial, hrest⟩
      · exact .refuse _

theorem isWritten_of_operands {i : Instruction} (h : i.operands = []) : i.IsWritten := by
  rw [Instruction.IsWritten, h]
  simp

theorem gives_definition : Gives Instruction.Stated definition := by
  refine (gives_expect _ _).bind fun _ _ => (gives_parameters _).bind fun _ _ => ?_
  refine (gives_expectMark _ _).bind fun _ _ => gives_returnKind.bind fun _ _ => ?_
  exact gives_finish_pure ⟨isWritten_of_operands rfl, rfl⟩

theorem offers_position (token : Token) : Offers (fun _ => True) (position token) := by
  unfold position
  split
  · exact trivial
  · exact .refuse _

theorem gives_index (target : String) : Gives Instruction.Stated (index target) := by
  refine gives_next.bind fun _ _ => (gives_expectMark _ _).bind fun _ _ => ?_
  refine (gives_expect _ _).bind fun token _ => (Gives.lift (offers_position token)).bind ?_
  intro _ _
  refine (gives_expectMark _ _).bind fun _ _ => ?_
  exact gives_finish_pure ⟨isWritten_of_operands rfl, rfl⟩

theorem gives_assignedValue (target : String) (constant : Bool) :
    Gives Instruction.Stated (assignedValue target constant) := by
  have hcall : Gives Instruction.Stated (callInto target) :=
    gives_call.bind fun _ hargs => gives_finish_pure ⟨hargs, rfl⟩
  have hplain : Gives Instruction.Stated (plainAssignment target constant) :=
    gives_nextOperand.bind fun _ hvalue => gives_finish_pure ⟨List.forall_mem_singleton.2 hvalue, rfl⟩
  intro tokens ht
  unfold assignedValue
  split
  · split
    · exact .refuse _
    · exact hcall tokens ht
  · split
    · exact .refuse _
    · exact gives_index target tokens ht
  · exact hplain tokens ht

theorem gives_assignment : Gives Instruction.Stated assignment := by
  refine (gives_eat _).bind fun _ _ => (gives_expect _ _).bind fun _ _ => ?_
  exact (gives_expectMark _ _).bind fun _ _ => gives_assignedValue _ _

theorem gives_operatorText : Gives (fun _ => True) operatorText := by
  refine gives_next.bind fun first _ => ?_
  split
  · refine (gives_eat _).bind fun joined _ => ?_
    cases joined with
    | true => exact .pure trivial
    | false => exact .pure trivial
  · exact .pure trivial

theorem offers_comparisonOf (text : String) : Offers (fun _ => True) (comparisonOf text) := by
  unfold comparisonOf
  split
  · exact trivial
  · exact trivial
  · exact trivial
  · exact trivial
  · exact trivial
  · exact trivial
  · exact .refuse _

def testIsWritten (test : Test) : Prop :=
  ∀ operand ∈ (⟨false, test⟩ : Condition).operands, operand.IsWritten

theorem gives_comparison {lhs : Token} (h : lhs.IsWritten) :
    Gives testIsWritten (comparison lhs) := by
  refine (Gives.lift (offers_operand h)).bind fun l hl => gives_operatorText.bind fun text _ => ?_
  refine (Gives.lift (offers_comparisonOf text)).bind fun op _ => ?_
  refine gives_nextOperand.bind fun r hr => gives_finish_pure ?_
  exact List.forall_mem_cons.2 ⟨hl, List.forall_mem_singleton.2 hr⟩

theorem offers_declaredTest (token : Token) : Offers testIsWritten (declaredTest token) := by
  unfold declaredTest
  split
  · exact List.forall_mem_nil _
  · exact .refuse _

theorem gives_get : Gives (fun _ => True) (get : Reader (List Token)) := fun _ ht => ⟨trivial, ht⟩

theorem gives_nameOrComparison : Gives testIsWritten nameOrComparison := by
  refine gives_next.bind fun first hfirst => gives_get.bind fun rest _ => ?_
  split
  · exact .lift (offers_declaredTest first)
  · exact gives_comparison hfirst

theorem gives_condition :
    Gives (fun c : Condition => ∀ operand ∈ c.operands, operand.IsWritten) condition := by
  refine (gives_eat _).bind fun negated _ => (gives_eat _).bind fun success _ => ?_
  have hsucceeded : Gives testIsWritten succeeded := gives_finish_pure (List.forall_mem_nil _)
  cases success with
  | true => exact hsucceeded.bind fun _ htest => .pure htest
  | false => exact gives_nameOrComparison.bind fun _ htest => .pure htest

theorem gives_variableAfter (keyword : String) : Gives (fun _ => True) (variableAfter keyword) :=
  (gives_expect _ _).bind fun _ _ => gives_finish_pure trivial

theorem gives_property (keyword : Keyword) (text : String) :
    Gives (fun _ => True) (property keyword text) := by
  refine (gives_expect _ _).bind fun _ _ => (gives_expectMark _ _).bind fun _ _ => ?_
  refine (gives_expect _ _).bind fun _ _ => (gives_expectMark _ _).bind fun _ _ => ?_
  refine (gives_expectMark _ _).bind fun _ _ => (gives_expect _ _).bind fun _ _ => ?_
  exact gives_finish_pure trivial

theorem offers_set (fields : RequestFields) (key value : Token) :
    Offers (fun _ => True) (fields.set key value) := by
  unfold RequestFields.set
  split
  · exact trivial
  · exact trivial
  · split
    · exact trivial
    · exact .refuse _
  · split
    · exact trivial
    · split
      · exact trivial
      · exact .refuse _
  · exact .refuse _

theorem gives_requestFields (fields : RequestFields) :
    Gives (fun _ => True) (requestFields fields) := by
  intro tokens ht
  fun_induction requestFields fields tokens with
  | case1 => exact .refuse _
  | case2 => exact ⟨trivial, ht⟩
  | case3 => exact .refuse _
  | case4 => exact .refuse _
  | case5 => exact .refuse _
  | case6 fields key hkey colon value rest hcolon ih =>
    refine (offers_set fields key value).bind fun fields _ => ?_
    cases rest with
    | nil => exact .refuse _
    | cons separator rest =>
      obtain ⟨-, -, -, hseparator⟩ : _ ∧ _ ∧ _ ∧ ∀ t ∈ separator :: rest, Token.IsWritten t := by
        simpa only [List.forall_mem_cons] using ht
      dsimp only
      split
      · exact ⟨trivial, hseparator⟩
      · split
        · exact ih fields (List.forall_mem_cons.1 hseparator).2
        · exact .refuse _
  | case7 => exact .refuse _

theorem offers_requestOf (target : String) (fields : RequestFields) :
    Offers (fun _ => True) (requestOf target fields) := by
  unfold requestOf
  split
  · exact .refuse _
  · split
    · exact trivial
    · exact .refuse _

theorem gives_request : Gives Instruction.Stated request := by
  refine (gives_expect _ _).bind fun target _ => (gives_expectMark _ _).bind fun _ _ => ?_
  refine (gives_expectMark _ _).bind fun _ _ => gives_get.bind fun tokens _ => ?_
  refine (gives_requestFields _).bind fun fields _ => (gives_expectMark _ _).bind fun _ _ => ?_
  refine gives_finish.bind fun _ _ => ?_
  split
  · exact .lift (.refuse _)
  · refine (Gives.lift (offers_requestOf _ _)).bind fun _ _ => ?_
    exact .pure ⟨isWritten_of_operands rfl, rfl⟩

theorem gives_mode : Gives Instruction.Stated mode := by
  have huse (mode : Mode) : Gives Instruction.Stated (do finish; pure (.use mode)) :=
    gives_finish_pure ⟨isWritten_of_operands rfl, rfl⟩
  refine gives_next.bind fun token _ => ?_
  split
  · exact huse .debug
  · exact huse .scope
  · exact huse .warns
  · exact fun _ _ => rfl

theorem gives_leave : Gives Instruction.Stated leave := by
  refine gives_get.bind fun tokens _ => ?_
  split
  · exact .pure ⟨isWritten_of_operands rfl, rfl⟩
  · refine gives_nextOperand.bind fun value hvalue => ?_
    exact gives_finish_pure ⟨List.forall_mem_singleton.2 hvalue, rfl⟩

/-- Whatever form a line has that is no `end`, it is read as an instruction with its values, or
refused. -/
theorem gives_form {first : Token} {rest : List Token} {form : Reader Instruction}
    (h : form? first rest = some form) (hclose : first.kind ≠ .keyword .close) :
    Gives Instruction.Stated form := by
  have hprint : Gives Instruction.Stated (do let v ← nextOperand; finish; pure (.print v)) :=
    gives_nextOperand.bind fun _ hvalue =>
      gives_finish_pure ⟨List.forall_mem_singleton.2 hvalue, rfl⟩
  have hcall : Gives Instruction.Stated (callStatement first) :=
    gives_argumentList.bind fun _ hargs => gives_finish_pure ⟨hargs, rfl⟩
  unfold form? at h
  split at h
  · cases h
    exact gives_definition
  · cases h
    exact gives_assignment
  · cases h
    exact gives_condition.map fun _ hc => ⟨hc, rfl⟩
  · cases h
    exact gives_condition.map fun _ hc => ⟨hc, rfl⟩
  · next hkind => exact absurd hkind hclose
  · cases h
    exact (gives_variableAfter _).map fun _ _ => ⟨isWritten_of_operands rfl, rfl⟩
  · cases h
    exact (gives_variableAfter _).map fun _ _ => ⟨isWritten_of_operands rfl, rfl⟩
  · cases h
    exact (gives_property _ _).bind fun _ _ => .pure ⟨isWritten_of_operands rfl, rfl⟩
  · cases h
    exact (gives_property _ _).bind fun _ _ => .pure ⟨isWritten_of_operands rfl, rfl⟩
  · cases h
    exact gives_request
  · cases h
    exact gives_mode
  · cases h
    exact hprint
  · cases h
    exact gives_leave
  · cases h
    exact gives_finish_pure ⟨isWritten_of_operands rfl, rfl⟩
  · cases h
    exact gives_finish_pure ⟨isWritten_of_operands rfl, rfl⟩
  · split at h
    · cases h
      exact hcall
    · cases h
  · cases h

end Reader

namespace Instruction

open Reader

/-- What the tokens of a line say: an `else` with what follows it, an `end` alone, or an instruction
with its values. -/
inductive Says : List String → Instruction → Prop
  | otherwise (tail : List String) : Says ("else" :: tail) (.otherwise tail)
  | close : Says ["end"] .close
  | stated {raw : List String} {i : Instruction} : i.Stated → Says raw i

/-- Reading a line gives nothing, what the line says, or a refusal. -/
theorem offers_read? (raw : List String) :
    Offers (fun found => ∀ i, found = some i → Says raw i) (read? raw) := by
  cases raw with
  | nil =>
    intro i hi
    cases hi
  | cons head tail =>
    rw [read?]
    by_cases helse : (Token.ofRaw head).kind = .keyword .otherwise
    · obtain rfl : head = "else" := by
        simpa [TokenKind.reserved] using TokenKind.mem_reserved_of_keyword helse
      rw [if_pos helse]
      rintro i hi
      cases hi
      exact .otherwise tail
    rw [if_neg helse]
    dsimp only
    split
    · intro i hi
      cases hi
    next form hform =>
    by_cases hend : (Token.ofRaw head).kind = .keyword .close
    · obtain rfl : head = "end" := by
        simpa [TokenKind.reserved] using TokenKind.mem_reserved_of_keyword hend
      simp only [form?, hend, Option.some.injEq] at hform
      subst hform
      cases tail with
      | nil =>
        rintro i hi
        cases hi
        exact .close
      | cons next rest => exact .refuse _
    · have htail : ∀ t ∈ tail.map Token.ofRaw, Token.IsWritten t := by
        intro t ht
        obtain ⟨text, -, rfl⟩ := List.mem_map.1 ht
        exact Token.ofRaw_isWritten text
      have hread := gives_form hform hend _ htail
      cases hresult : form (tail.map Token.ofRaw) with
      | error cause =>
        rw [hresult] at hread
        exact hread
      | ok result =>
        rw [hresult] at hread
        rintro i hi
        cases hi
        exact .stated hread.1

theorem says_of_read? {raw : List String} {i : Instruction} (h : read? raw = .ok (some i)) :
    Says raw i := by
  have hread := offers_read? raw
  rw [h] at hread
  exact hread i rfl

theorem isRefusal_of_read? {raw : List String} {cause : Cause} (h : read? raw = .error cause) :
    cause.isRefusal = true := by
  have hread := offers_read? raw
  rwa [h] at hread

theorem isWritten_of_read? {raw : List String} {i : Instruction}
    (h : read? raw = .ok (some i)) : i.IsWritten := by
  cases says_of_read? h with
  | otherwise tail => exact isWritten_of_operands rfl
  | close => exact isWritten_of_operands rfl
  | stated hstated => exact hstated.isWritten

end Instruction

end ApiScript
