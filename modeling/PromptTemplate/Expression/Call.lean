import PromptTemplate.Nesting.Group
import PromptTemplate.Nesting.Split
import PromptTemplate.Text.Blank

/-!
# Calls

A call is a name with arguments in parentheses, separated by commas at the top
level. An argument that begins with a name and a single equals sign is a keyword
argument. A stage of a pipe is a call, or the name of a filter without
arguments. The arguments are left as text, shorter than the call.
-/

namespace PromptTemplate

/-- An argument with an operand of type `ε`. -/
inductive Argument (ε : Type) where
  | positional (operand : ε)
  | keyword (name : Text) (operand : ε)
  deriving DecidableEq, Repr

/-- A name with arguments. -/
structure Call (ε : Type) where
  name : Text
  arguments : List (Argument ε)
  deriving DecidableEq, Repr

/-- The operand of an argument. -/
def Argument.operand {ε : Type} : Argument ε → ε
  | .positional operand => operand
  | .keyword _ operand => operand

/-- The operands of a call. -/
def Call.operands {ε : Type} (c : Call ε) : List ε := c.arguments.map Argument.operand

/-- A keyword argument has a name before its first equals sign, and no second equals sign
right behind it. -/
def Argument.ofText (t : Text) : Argument Text :=
  match Nesting.breakAt ['='] t with
  | some (name, operand) =>
    if Text.isIdentifier (Text.trim name) ∧ operand.head? ≠ some '=' then
      .keyword (Text.trim name) operand
    else .positional t
  | none => .positional t

/-- The operand is a part of the argument. -/
theorem Argument.length_operand_le (t : Text) : (ofText t).operand.length ≤ t.length := by
  unfold ofText
  split
  · next name operand h =>
    split
    · rw [Nesting.length_of_breakAt h]
      simp only [Argument.operand]
      omega
    · simp [Argument.operand]
  · simp [Argument.operand]

namespace Call

/-- The arguments between the parentheses; blanks alone are no argument. -/
def readArguments (t : Text) : List (Argument Text) :=
  if Text.trim t = [] then []
  else (Nesting.split ',' t).map fun part => Argument.ofText (Text.trim part)

/-- Reads a call that makes up a whole text. -/
def read? (t : Text) : Option (Call Text) :=
  let name := t.takeWhile Text.isNameChar
  if Text.isIdentifier name then
    (Nesting.stripParens? (Text.trimStart (t.dropWhile Text.isNameChar))).map fun inside =>
      ⟨name, readArguments inside⟩
  else none

/-- Reads a stage of a pipe. -/
def ofStage (t : Text) : Call Text := (read? (Text.trim t)).getD ⟨Text.trim t, []⟩

/-- An argument is no longer than the text between the parentheses. -/
theorem length_le_of_readArguments {t : Text} {a : Argument Text} (h : a ∈ readArguments t) :
    a.operand.length ≤ t.length := by
  unfold readArguments at h
  split at h
  · simp at h
  · obtain ⟨part, hp, rfl⟩ := List.mem_map.1 h
    have h1 := Argument.length_operand_le (Text.trim part)
    have h2 := Text.length_trim_le part
    have h3 := Nesting.length_le_of_mem_split hp
    omega

/-- Operands are shorter than the call. -/
theorem length_lt_of_read? {t e : Text} {c : Call Text} (h : read? t = some c)
    (he : e ∈ c.operands) : e.length < t.length := by
  simp only [read?] at h
  split at h
  · obtain ⟨inside, hi, hk⟩ := Option.map_eq_some_iff.1 h
    rw [← hk] at he
    obtain ⟨a, ha, rfl⟩ := List.mem_map.1 he
    have h1 := length_le_of_readArguments ha
    have h2 := Nesting.length_lt_of_stripParens? hi
    have h3 := Text.length_trimStart_le (t.dropWhile Text.isNameChar)
    have h4 := (List.dropWhile_sublist Text.isNameChar (l := t)).length_le
    omega
  · simp at h

/-- Operands are shorter than the stage. -/
theorem length_lt_of_ofStage {t e : Text} (he : e ∈ (ofStage t).operands) :
    e.length < t.length := by
  unfold ofStage at he
  cases h : read? (Text.trim t) with
  | none => simp [h, operands] at he
  | some c =>
    rw [h, Option.getD_some] at he
    have := length_lt_of_read? h he
    have := Text.length_trim_le t
    omega

end Call

end PromptTemplate
