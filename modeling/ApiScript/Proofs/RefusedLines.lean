import ApiScript.Proofs.Acceptance
import ApiScript.Proofs.AssembledProgram
import ApiScript.Proofs.OfferedLines

/-!
# Refused lines

A line that an assembly refuses counts as a line and names its own place in the fault. All else
stays as it was, but for one case: an `else` turns the innermost branch to its other side before the
tokens after it are found to write no branch. A line that is taken makes one function known if it is
a definition, and none otherwise.
-/
namespace ApiScript

inductive Entry where
  | cut (tokens : List String)
  | written (line : String)

def Entry.tokens? : Entry → Except Cause (List String)
  | .cut tokens => .ok tokens
  | .written line => Token.tokenize line

theorem Instruction.read?_eq_some_iff_writes {raw : List String} {i : Instruction} :
    read? raw = .ok (some i) ↔ Writes raw i :=
  read?_eq_some_iff.trans writes_iff.symm

theorem opens_iff_writes {chained : List String} {c : Condition} :
    Opens chained c ↔ Instruction.Writes chained (.branch c) := by
  rw [Opens, Instruction.read?_eq_some_iff_writes]
  refine and_iff_right_of_imp fun hwrites => ?_
  cases hwrites with
  | @keyword _ tail _ _ hword _ hrest =>
    generalize tail.map Token.ofRaw = tokens at hrest
    cases hrest with
    | branch => exact congrArg some (TokenKind.classify_of_mem_reserved hword)
    | assign _ _ hvalue => cases hvalue
    | constant _ _ _ hvalue => cases hvalue

theorem Instruction.read?_eq_otherwise_iff {raw chained : List String} :
    read? raw = .ok (some (.otherwise chained)) ↔ raw = "else" :: chained := by
  constructor
  · intro h
    cases says_of_read? h with
    | otherwise => rfl
    | stated hstated => cases hstated.isBoundary
  · rintro rfl
    rfl

/-- The lines that write a definition are those that begin with `def`. -/
theorem Instruction.define_iff_of_read? {keyword : String} {rest : List String} {i : Instruction}
    (h : read? (keyword :: rest) = .ok (some i)) :
    (∃ signature, i = .define signature) ↔ keyword = "def" := by
  rcases read?_eq_some_iff.1 h with ⟨chained, hraw, rfl⟩ | hform
  · obtain ⟨rfl, -⟩ := List.cons.inj hraw
    simp
  have hkind : keyword = "def" ↔ (Token.ofRaw keyword).kind = .keyword .define := by
    constructor
    · rintro rfl
      rfl
    · intro hkind
      simpa [TokenKind.reserved] using TokenKind.mem_reserved_of_keyword hkind
  rw [hkind]
  rw [List.map_cons] at hform
  generalize Token.ofRaw keyword = first at hform
  generalize rest.map Token.ofRaw = tokens at hform
  cases hform with
  | keyword hfirst hrest =>
    rw [hfirst]
    cases hrest with
    | assign _ _ hvalue => cases hvalue <;> simp
    | constant _ _ _ hvalue =>
      cases hvalue
      simp
    | _ => simp
  | increment hfirst => simp [hfirst]
  | decrement hfirst => simp [hfirst]
  | call name => simp [Form.named]

namespace Assembly

def enter (builtin : String → Bool) (a : Assembly) (entry : Entry) (file : String) :
    Assembly × Option Fault :=
  match entry with
  | .cut tokens => a.append builtin tokens file
  | .written line => a.appendLine builtin line file

/-- The assemblies that lines lead to. From one line to the next, other functions may be known. -/
inductive Entered : Assembly → Prop
  | start : Entered {}
  | known {a : Assembly} (signatures : Table (List String)) :
    Entered a → Entered { a with signatures }
  | line {a : Assembly} (builtin : String → Bool) (entry : Entry) (file : String) :
    Entered a → Entered (a.enter builtin entry file).1

/-- The line is an `else` for a branch that has not turned, and more comes after it that writes no
branch. -/
def TurnsInVain (a : Assembly) (entry : Entry) : Prop :=
  ∃ chained, entry.tokens? = .ok ("else" :: chained) ∧ chained ≠ [] ∧
    (∀ c, ¬ Instruction.Writes chained (.branch c)) ∧
    ∃ top outer, a.openBlocks = top :: outer ∧ top.isBranch = true ∧ top.side = .body

variable {builtin : String → Bool} {a b : Assembly} {entry : Entry} {file : String}

theorem turnsInVain_iff :
    TurnsInVain a entry ↔
      ∃ chained, entry.tokens? = .ok ("else" :: chained) ∧ Misturns a chained := by
  simp only [TurnsInVain, ← opens_iff_writes]
  constructor
  · rintro ⟨chained, htokens, hne, hopens, hbranch⟩
    exact ⟨chained, htokens, hne, hopens, hbranch⟩
  · rintro ⟨chained, htokens, hne, hopens, hbranch⟩
    exact ⟨chained, htokens, hne, hopens, hbranch⟩

theorem enter_of_ok {tokens : List String} (h : entry.tokens? = .ok tokens) :
    a.enter builtin entry file = a.append builtin tokens file := by
  cases entry with
  | cut tokens =>
    cases h
    rfl
  | written line =>
    have htokens : Token.tokenize line = .ok tokens := h
    simp only [enter, appendLine, htokens]

theorem enter_of_error {cause : Cause} (h : entry.tokens? = .error cause) :
    a.enter builtin entry file =
      ({ a with line := a.line + 1 }, some ⟨cause, some ⟨a.line + 1, file⟩⟩) := by
  cases entry with
  | cut tokens => cases h
  | written line =>
    have htokens : Token.tokenize line = .error cause := h
    simp only [enter, appendLine, htokens]

theorem Orderly.enter (h : Orderly a) : (a.enter builtin entry file).1.Orderly := by
  cases htokens : entry.tokens? with
  | error cause =>
    rw [enter_of_error htokens]
    exact ⟨h.finished, h.stacked, h.inside⟩
  | ok tokens =>
    rw [enter_of_ok htokens]
    exact (h.take ⟨builtin, a.signatures, tokens, file⟩).1

theorem Entered.orderly (h : Entered a) : Orderly a := by
  induction h with
  | start => exact orderly_empty ∅ 0
  | known _ _ ih => exact ⟨ih.finished, ih.stacked, ih.inside⟩
  | line _ _ _ _ ih => exact ih.enter

/-- Accepting tokens comes down to placing what they write. -/
theorem accept_cases {tokens : List String} {l : Location} {cause : Option Cause}
    (h : a.accept builtin tokens l = (b, cause)) :
    b = a ∧ (cause = none ∧ tokens.head? ≠ some "def" ∨
        cause ≠ none ∧ ∀ chained, tokens ≠ "else" :: chained) ∨
      ∃ keyword rest i, tokens = keyword :: rest ∧
        Instruction.read? (keyword :: rest) = .ok (some i) ∧
        a.place builtin keyword i l = (b, cause) := by
  have hunread {keyword : String} {rest : List String}
      (hread : ∀ i, Instruction.read? (keyword :: rest) ≠ .ok (some i)) :
      ∀ chained, keyword :: rest ≠ "else" :: chained := by
    intro chained heq
    exact hread _ (Instruction.read?_eq_otherwise_iff.2 heq)
  unfold accept at h
  split at h
  · cases h
    exact .inl ⟨rfl, .inl ⟨rfl, nofun⟩⟩
  next keyword rest =>
  split at h
  · next hhash =>
    cases h
    obtain rfl := classify_eq_hash_iff.1 hhash
    exact .inl ⟨rfl, .inl ⟨rfl, by simp⟩⟩
  split at h
  · next hread =>
    cases h
    exact .inl ⟨rfl, .inr ⟨nofun, hunread (by simp [hread])⟩⟩
  · next hread =>
    cases h
    exact .inl ⟨rfl, .inr ⟨nofun, hunread (by simp [hread])⟩⟩
  · next i hread => exact .inr ⟨keyword, rest, i, rfl, hread, h⟩

theorem append_eq_iff {tokens : List String} {fault : Option Fault} :
    a.append builtin tokens file = (b, fault) ↔
      ∃ cause, accept builtin { a with line := a.line + 1 } tokens ⟨a.line + 1, file⟩ = (b, cause) ∧
        fault = cause.map fun cause => ⟨cause, some ⟨a.line + 1, file⟩⟩ := by
  rw [append]
  rcases accept builtin { a with line := a.line + 1 } tokens ⟨a.line + 1, file⟩ with ⟨next, cause⟩
  constructor
  · intro h
    cases h
    exact ⟨cause, rfl, rfl⟩
  · rintro ⟨_, ⟨⟩, rfl⟩
    rfl

/-- What a refused line leaves. -/
theorem Orderly.enter_refused {fault : Fault} (h : Orderly a)
    (hrefused : a.enter builtin entry file = (b, some fault)) :
    fault.location = some ⟨a.line + 1, file⟩ ∧
      (TurnsInVain a entry ∧ b = { a with line := a.line + 1 }.turn ∨
        ¬ TurnsInVain a entry ∧ b = { a with line := a.line + 1 }) := by
  rw [turnsInVain_iff]
  cases htokens : entry.tokens? with
  | error cause =>
    rw [enter_of_error htokens] at hrefused
    cases hrefused
    exact ⟨rfl, .inr ⟨by simp, rfl⟩⟩
  | ok tokens =>
    rw [enter_of_ok htokens] at hrefused
    obtain ⟨cause, haccept, hfault⟩ := append_eq_iff.1 hrefused
    obtain ⟨cause, rfl, rfl⟩ := Option.map_eq_some_iff.1 hfault.symm
    have hnext : Orderly { a with line := a.line + 1 } := ⟨h.finished, h.stacked, h.inside⟩
    refine ⟨rfl, ?_⟩
    rcases accept_cases haccept with ⟨rfl, ⟨hnone, -⟩ | ⟨-, helse⟩⟩ |
      ⟨keyword, rest, i, rfl, hread, hplace⟩
    · cases hnone
    · refine .inr ⟨?_, rfl⟩
      rintro ⟨chained, htokens', -⟩
      exact helse chained (Except.ok.inj htokens')
    · obtain ⟨hleft, -⟩ := hnext.place_refused hplace
      refine hleft.imp ?_ ?_
      · rintro ⟨⟨chained, rfl, hmisturns⟩, rfl⟩
        rw [Instruction.read?_eq_otherwise_iff.1 hread]
        exact ⟨⟨chained, rfl, hmisturns.ne_nil, hmisturns.not_opens, hmisturns.branch⟩, rfl⟩
      · rintro ⟨hmisturns, rfl⟩
        refine ⟨?_, rfl⟩
        rintro ⟨chained, htokens', hvain⟩
        rw [Instruction.read?_eq_otherwise_iff.2 (Except.ok.inj htokens')] at hread
        cases hread
        exact hmisturns chained rfl ⟨hvain.ne_nil, hvain.not_opens, hvain.branch⟩

/-- What a line that is taken makes known. -/
theorem signatures_of_enter (htaken : a.enter builtin entry file = (b, none)) :
    ∃ tokens, entry.tokens? = .ok tokens ∧
      if tokens.head? = some "def" then
        ∃ signature, Instruction.Writes tokens (.define signature) ∧
          a.signatures.get? signature.name = none ∧
          b.signatures = a.signatures.insert signature.name signature.params
      else b.signatures = a.signatures := by
  cases htokens : entry.tokens? with
  | error cause =>
    rw [enter_of_error htokens] at htaken
    cases htaken
  | ok tokens =>
    refine ⟨tokens, rfl, ?_⟩
    rw [enter_of_ok htokens] at htaken
    obtain ⟨cause, haccept, hfault⟩ := append_eq_iff.1 htaken
    obtain rfl : cause = none := Option.map_eq_none_iff.1 hfault.symm
    rcases accept_cases haccept with ⟨rfl, ⟨-, hdef⟩ | ⟨hsome, -⟩⟩ |
      ⟨keyword, rest, i, rfl, hread, hplace⟩
    · rw [if_neg hdef]
    · exact absurd rfl hsome
    · have hstep := advances_of_advance ((place_eq_iff_advance keyword).1 hplace)
      have hdefine := Instruction.define_iff_of_read? hread
      have hhead : (keyword :: rest).head? = some "def" ↔ keyword = "def" := by simp
      rcases hstep.signatures_cases with ⟨signature, rfl, hnew, hinsert⟩ | ⟨hother, hsame⟩
      · rw [if_pos (hhead.2 (hdefine.1 ⟨signature, rfl⟩))]
        refine ⟨signature, Instruction.read?_eq_some_iff_writes.1 hread, ?_, hinsert⟩
        exact Option.isNone_iff_eq_none.1 (Option.isSome_eq_false_iff.1 hnew)
      · rw [if_neg]
        · exact hsame
        · rw [hhead, ← hdefine]
          rintro ⟨signature, hi⟩
          exact hother signature hi

/-- Whatever lines came before and whichever functions are known, a refused line is counted and
named by its fault, and nothing else changes but the side of the innermost branch after an `else`
with no branch after it. A line that is taken makes known what it defines. -/
theorem refused_lines_change_almost_nothing (h : Entered a) (builtin : String → Bool)
    (entry : Entry) (file : String) :
    (∀ b fault, a.enter builtin entry file = (b, some fault) →
      fault.location = some ⟨a.line + 1, file⟩ ∧
        (TurnsInVain a entry ∧
            b = { a with
              line := a.line + 1
              openBlocks := a.openBlocks.modifyHead fun top => { top with side := .alt } } ∨
          ¬ TurnsInVain a entry ∧ b = { a with line := a.line + 1 })) ∧
      ∀ b, a.enter builtin entry file = (b, none) →
        ∃ tokens, entry.tokens? = .ok tokens ∧
          if tokens.head? = some "def" then
            ∃ signature, Instruction.Writes tokens (.define signature) ∧
              a.signatures.get? signature.name = none ∧
              b.signatures = a.signatures.insert signature.name signature.params
          else b.signatures = a.signatures :=
  ⟨fun _ _ hrefused => h.orderly.enter_refused hrefused, fun _ htaken => signatures_of_enter htaken⟩

def halfBranch : Assembly :=
  ["def Main():", "if success"].foldl
    (fun a line => (a.enter (fun _ => false) (.written line) "main.neb").1) {}

theorem vain_else_turns_half_branch :
    Entered halfBranch ∧ TurnsInVain halfBranch (.written "else print") ∧
      halfBranch.enter (fun _ => false) (.written "else print") "main.neb" =
        ({ halfBranch with
            line := 3
            openBlocks := halfBranch.openBlocks.modifyHead fun top => { top with side := .alt } },
          some ⟨.malformed (.afterElse "print"), some ⟨3, "main.neb"⟩⟩) := by
  have hentered : Entered halfBranch := .line _ (.written "if success") _
    (.line _ (.written "def Main():") _ .start)
  have hvain : TurnsInVain halfBranch (.written "else print") := by
    refine ⟨["print"], by rfl, nofun, fun c hwrites => ?_, _, _, rfl, rfl, rfl⟩
    cases Instruction.read?_eq_some_iff_writes.2 hwrites
  have hfault : (halfBranch.enter (fun _ => false) (.written "else print") "main.neb").2 =
      some ⟨.malformed (.afterElse "print"), some ⟨3, "main.neb"⟩⟩ := by rfl
  obtain ⟨hrefused, -⟩ := refused_lines_change_almost_nothing hentered (fun _ => false)
    (.written "else print") "main.neb"
  obtain ⟨-, ⟨-, hleft⟩ | ⟨hnot, -⟩⟩ := hrefused _ _ (Prod.ext rfl hfault)
  · exact ⟨hentered, hvain, Prod.ext hleft hfault⟩
  · exact absurd hvain hnot

end Assembly

end ApiScript
