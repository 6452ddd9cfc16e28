import ApiScript.Program.Assembly

/-!
# The grammar of blocks

The lines of a program derive its tree: a program is a list of definitions, a definition holds a
block up to its `end`, and a block is a list of items. A branch ends in a tail, which is an `end`,
an `else` with a block and an `end`, or an `else if` with a block and a tail of its own. So one
`end` closes a whole chain of branches.
-/
namespace ApiScript

structure Placed where
  instruction : Instruction
  location : Location
  deriving DecidableEq, Repr

def Instruction.isSimple : Instruction → Bool
  | .define _ => false
  | .branch _ => false
  | .loop _ => false
  | .otherwise _ => false
  | .close => false
  | _ => true

def Opens (chained : List String) (condition : Condition) : Prop :=
  chained.head?.map TokenKind.classify = some (.keyword .branch) ∧
    Instruction.read? chained = .ok (some (.branch condition))

namespace Grammar

mutual

/-- A simple line, a loop up to its `end`, or a branch up to the end of its tail. -/
inductive Item : List Placed → Statement → Prop
  | simple {i : Instruction} {l : Location} : i.isSimple = true → Item [⟨i, l⟩] (.leaf i l)
  | loop {c : Condition} {l l' : Location} {lines : List Placed} {body : List Statement} :
    Block lines body → Item (⟨.loop c, l⟩ :: (lines ++ [⟨.close, l'⟩])) ⟨.loop c, l, body, []⟩
  | chain {c : Condition} {l : Location} {lines tail : List Placed} {body alt : List Statement} :
    Block lines body → Tail tail alt →
      Item (⟨.branch c, l⟩ :: (lines ++ tail)) ⟨.branch c, l, body, alt⟩

inductive Block : List Placed → List Statement → Prop
  | nil : Block [] []
  | cons {lines rest : List Placed} {s : Statement} {ss : List Statement} :
    Item lines s → Block rest ss → Block (lines ++ rest) (s :: ss)

/-- What ends a branch, with the statements of the other side. -/
inductive Tail : List Placed → List Statement → Prop
  | close {l : Location} : Tail [⟨.close, l⟩] []
  | otherwise {l l' : Location} {lines : List Placed} {alt : List Statement} :
    Block lines alt → Tail (⟨.otherwise [], l⟩ :: (lines ++ [⟨.close, l'⟩])) alt
  | chained {chained : List String} {c : Condition} {l : Location} {lines tail : List Placed}
    {body alt : List Statement} :
    Opens chained c → Block lines body → Tail tail alt →
      Tail (⟨.otherwise chained, l⟩ :: (lines ++ tail)) [⟨.branch c, l, body, alt⟩]

end

inductive Definition : List Placed → Statement → Prop
  | mk {signature : Signature} {l l' : Location} {lines : List Placed} {body : List Statement} :
    Block lines body →
      Definition (⟨.define signature, l⟩ :: (lines ++ [⟨.close, l'⟩]))
        ⟨.define signature, l, body, []⟩

inductive Definitions : List Placed → List Statement → Prop
  | nil : Definitions [] []
  | cons {lines rest : List Placed} {s : Statement} {ss : List Statement} :
    Definition lines s → Definitions rest ss → Definitions (lines ++ rest) (s :: ss)

def definedNames (lines : List Placed) : List String :=
  lines.filterMap fun p =>
    match p.instruction with
    | .define signature => some signature.name
    | _ => none

theorem Block.snoc {lines last : List Placed} {ss : List Statement} {s : Statement}
    (h : Block lines ss) (hs : Item last s) : Block (lines ++ last) (ss ++ [s]) := by
  induction ss generalizing lines with
  | nil =>
    cases h
    simpa using Block.cons hs .nil
  | cons first ss ih =>
    cases h with
    | cons hfirst hrest =>
      rw [List.append_assoc]
      exact .cons hfirst (ih hrest)

theorem Definitions.snoc {lines last : List Placed} {ss : List Statement} {s : Statement}
    (h : Definitions lines ss) (hs : Definition last s) :
    Definitions (lines ++ last) (ss ++ [s]) := by
  induction h with
  | nil => simpa using Definitions.cons hs .nil
  | cons hfirst hrest ih =>
    rw [List.append_assoc]
    exact .cons hfirst ih

mutual

theorem Item.definedNames_eq_nil {lines : List Placed} {s : Statement} :
    Item lines s → definedNames lines = []
  | .simple (i := i) h => by cases i <;> simp [Instruction.isSimple, definedNames] at h ⊢
  | .loop h => by
    have hbody := h.definedNames_eq_nil
    simp only [definedNames] at hbody
    simp [definedNames, hbody]
  | .chain h htail => by
    have hbody := h.definedNames_eq_nil
    have hrest := htail.definedNames_eq_nil
    simp only [definedNames] at hbody hrest
    simp [definedNames, hbody, hrest]

theorem Block.definedNames_eq_nil {lines : List Placed} {ss : List Statement} :
    Block lines ss → definedNames lines = []
  | .nil => rfl
  | .cons h hrest => by
    have hitem := h.definedNames_eq_nil
    have hblock := hrest.definedNames_eq_nil
    simp only [definedNames] at hitem hblock
    simp [definedNames, hitem, hblock]

theorem Tail.definedNames_eq_nil {lines : List Placed} {alt : List Statement} :
    Tail lines alt → definedNames lines = []
  | .close => rfl
  | .otherwise h => by
    have hbody := h.definedNames_eq_nil
    simp only [definedNames] at hbody
    simp [definedNames, hbody]
  | .chained _ h htail => by
    have hbody := h.definedNames_eq_nil
    have hrest := htail.definedNames_eq_nil
    simp only [definedNames] at hbody hrest
    simp [definedNames, hbody, hrest]

end

end Grammar

end ApiScript
