import ApiScript.Machine.Assembling
import ApiScript.Proofs.BlockGrammar

/-!
# Feeding lines to an assembly

Adding the lines of a script to an assembly comes down to two things: every line can be read, and
the instructions that are read, each with the number and the file of its line, can be placed one
after the other. Blank lines and comments are readable and only count.
-/
namespace ApiScript

structure SourceLine where
  text : String
  file : String
  deriving DecidableEq, Repr

namespace SourceLine

/-- The instruction of a line; none if the line is blank or a comment. -/
def instruction? (line : SourceLine) : Except Cause (Option Instruction) :=
  match Token.tokenize line.text with
  | .error cause => .error cause
  | .ok [] => .ok none
  | .ok (keyword :: rest) =>
    if TokenKind.classify keyword = .mark .hash then .ok none
    else
      match Instruction.read? (keyword :: rest) with
      | .error cause => .error cause
      | .ok none => .error (.unexpectedKeyword keyword)
      | .ok (some instruction) => .ok (some instruction)

def Readable (line : SourceLine) : Prop := ∃ entry, line.instruction? = .ok entry

/-- The instructions of some lines, the first of which follows a given number of lines. -/
def placed (before : Nat) : List SourceLine → List Placed
  | [] => []
  | line :: rest =>
    match line.instruction? with
    | .ok (some instruction) => ⟨instruction, ⟨before + 1, line.file⟩⟩ :: placed (before + 1) rest
    | _ => placed (before + 1) rest

def ofSources (sources : List (String × String)) : List SourceLine :=
  sources.flatMap fun source => (Text.lines source.2).map fun text => ⟨text, source.1⟩

theorem placed_append (before : Nat) (first second : List SourceLine) :
    placed before (first ++ second) =
      placed before first ++ placed (before + first.length) second := by
  induction first generalizing before with
  | nil => rfl
  | cons line rest ih =>
    have hcount : before + 1 + rest.length = before + (line :: rest).length := by
      rw [List.length_cons]
      omega
    rw [List.cons_append, placed, placed, ih, hcount]
    split <;> rfl

theorem placed_cons_instruction {line : SourceLine} {instruction : Instruction}
    (h : line.instruction? = .ok (some instruction)) (before : Nat) (rest : List SourceLine) :
    placed before (line :: rest) =
      ⟨instruction, ⟨before + 1, line.file⟩⟩ :: placed (before + 1) rest := by
  simp only [placed, h]

end SourceLine

namespace Assembly

variable {builtin : String → Bool}

def accepted (r : Step) : Option Assembly :=
  match r.2 with
  | none => some r.1
  | some _ => none

@[simp]
theorem accepted_none (a : Assembly) : accepted (a, none) = some a := rfl

@[simp]
theorem accepted_some (a : Assembly) (cause : Cause) : accepted (a, some cause) = none := rfl

theorem accepted_eq_some_iff {r : Step} {a : Assembly} : accepted r = some a ↔ r = (a, none) := by
  obtain ⟨b, cause⟩ := r
  cases cause <;> simp [accepted]

def advance (builtin : String → Bool) (a : Assembly) (p : Placed) : Option Assembly :=
  accepted (a.place builtin p.instruction.keyword p.instruction p.location)

def feed (builtin : String → Bool) (a : Assembly) (lines : List Placed) : Option Assembly :=
  lines.foldlM (advance builtin) a

@[simp]
theorem feed_nil (a : Assembly) : feed builtin a [] = some a := rfl

@[simp]
theorem feed_cons (a : Assembly) (p : Placed) (lines : List Placed) :
    feed builtin a (p :: lines) = (a.advance builtin p).bind fun b => feed builtin b lines := rfl

theorem feed_singleton (a : Assembly) (p : Placed) : feed builtin a [p] = a.advance builtin p := by
  rw [feed_cons]
  cases a.advance builtin p <;> rfl

theorem feed_append (a : Assembly) (first second : List Placed) :
    feed builtin a (first ++ second) =
      (feed builtin a first).bind fun b => feed builtin b second :=
  List.foldlM_append

/-- Only the fault of a statement outside all functions shows the keyword of a line. -/
theorem accepted_place_keyword (a : Assembly) (keyword other : String) (i : Instruction)
    (l : Location) :
    accepted (a.place builtin keyword i l) = accepted (a.place builtin other i l) := by
  cases hin : a.insideFunction <;> cases i <;> simp [place, hin]

theorem place_eq_iff_advance {a b : Assembly} (keyword : String) {i : Instruction}
    {l : Location} :
    a.place builtin keyword i l = (b, none) ↔ a.advance builtin ⟨i, l⟩ = some b := by
  rw [advance, accepted_place_keyword _ _ keyword, accepted_eq_some_iff]

/-- Adds lines, each from its own file, up to the first that is refused. -/
def appendAll (builtin : String → Bool) (a : Assembly) :
    List SourceLine → Assembly × Option Fault
  | [] => (a, none)
  | line :: rest =>
    match a.appendLine builtin line.text line.file with
    | (a, none) => appendAll builtin a rest
    | (a, some fault) => (a, some fault)

def assembleLines (builtin : String → Bool) (lines : List SourceLine) : Except Fault Program :=
  match ({} : Assembly).appendAll builtin lines with
  | (a, none) => a.finish
  | (_, some fault) => .error fault

theorem appendLines_eq_appendAll (file : String) (a : Assembly) (texts : List String) :
    a.appendLines builtin file texts =
      a.appendAll builtin (texts.map fun text => ⟨text, file⟩) := by
  induction texts generalizing a with
  | nil => rfl
  | cons text rest ih =>
    rw [appendLines, List.map_cons, appendAll]
    split
    · next hline => simp only [hline, ih]
    · next hline => simp only [hline]

theorem appendAll_append (a : Assembly) (first second : List SourceLine) :
    a.appendAll builtin (first ++ second) =
      match a.appendAll builtin first with
      | (b, none) => b.appendAll builtin second
      | (b, some fault) => (b, some fault) := by
  induction first generalizing a with
  | nil => rfl
  | cons line rest ih =>
    rw [List.cons_append, appendAll, appendAll]
    split
    · next hline => simp only [ih]
    · rfl

/-- Files are added as the lines of all of them. -/
theorem appendSources_eq_appendAll (a : Assembly) (sources : List (String × String)) :
    a.appendSources builtin sources = a.appendAll builtin (SourceLine.ofSources sources) := by
  induction sources generalizing a with
  | nil => rfl
  | cons source rest ih =>
    obtain ⟨file, source⟩ := source
    have hlines : SourceLine.ofSources ((file, source) :: rest) =
        (Text.lines source).map (fun text => ⟨text, file⟩) ++ SourceLine.ofSources rest := rfl
    rw [appendSources, appendSource, appendLines_eq_appendAll, hlines, appendAll_append]
    cases a.appendAll builtin ((Text.lines source).map fun text => ⟨text, file⟩) with
    | mk b fault =>
      cases fault with
      | none => exact ih b
      | some fault => rfl

theorem appendLine_eq_iff {a b : Assembly} {line : SourceLine} :
    a.appendLine builtin line.text line.file = (b, none) ↔
      ∃ entry, line.instruction? = .ok entry ∧
        match entry with
        | none => b = { a with line := a.line + 1 }
        | some i =>
          advance builtin { a with line := a.line + 1 } ⟨i, ⟨a.line + 1, line.file⟩⟩ = some b := by
  unfold appendLine SourceLine.instruction?
  cases htokens : Token.tokenize line.text with
  | error cause => simp
  | ok tokens =>
    cases tokens with
    | nil => simp [append, accept, eq_comm]
    | cons keyword rest =>
      by_cases hhash : TokenKind.classify keyword = .mark .hash
      · simp [append, accept, hhash, eq_comm]
      · cases hread : Instruction.read? (keyword :: rest) with
        | error cause => simp [append, accept, hhash, hread]
        | ok found =>
          cases found with
          | none => simp [append, accept, hhash, hread]
          | some i =>
            simp only [append, accept, hhash, hread, if_false, ← place_eq_iff_advance keyword]
            simp [Prod.ext_iff]

end Assembly

end ApiScript
