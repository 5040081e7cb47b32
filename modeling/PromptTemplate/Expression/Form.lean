import PromptTemplate.Expression.Call
import PromptTemplate.Expression.Path
import PromptTemplate.Number.Decimal
import PromptTemplate.Value.Basic

/-!
# The form of an expression

The form of an expression is what it is at its outermost level, with its
operands still as text. Forms are tried in a fixed order and the first that fits
is taken; every text has a form, and every operand is shorter than the text.
-/

namespace PromptTemplate

/-- An expression one level deep, with operands of type `ε`. -/
inductive Form (ε : Type) where
  | literal (v : Value)
  | path (p : Path ε)
  /-- An input and the filters it passes, from left to right. -/
  | pipe (input : ε) (filters : List (Call ε))
  | member (needle haystack : ε)
  | call (c : Call ε)
  /-- A text that is no expression. -/
  | unknown
  deriving Repr

namespace Form

/-- The operands of a form. -/
def operands {ε : Type} : Form ε → List ε
  | .literal _ => []
  | .path p => p.operands
  | .pipe input filters => input :: filters.flatMap Call.operands
  | .member needle haystack => [needle, haystack]
  | .call c => c.operands
  | .unknown => []

/-- The words for null and the truth values, and numerals. -/
def readConstant? (t : Text) : Option Value :=
  if t = "none".toList ∨ t = "None".toList then some .null
  else if t = "true".toList ∨ t = "True".toList then some (.bool true)
  else if t = "false".toList ∨ t = "False".toList then some (.bool false)
  else (Number.readLiteral? t).map .number

/-- A text that is a literal or a constant as a whole. -/
def readLiteral? (t : Text) : Option Value :=
  match Literal.read? t with
  | some (_, s) => some (.string s)
  | none => readConstant? t

/-- A path with a bracket comes before pipes and membership, since their signs may stand
inside its groups. -/
def readIndexed? (t : Text) : Option (Path Text) :=
  if '[' ∈ t then Path.read? t else none

/-- The form of a trimmed text that is neither a literal nor an indexed path. -/
def ofCompound (t : Text) : Form Text :=
  match Nesting.split '|' t with
  | input :: stage :: stages => .pipe input ((stage :: stages).map Call.ofStage)
  | _ =>
    match Nesting.breakWord "in".toList t with
    | some (needle, haystack) => .member needle haystack
    | none =>
      match Call.read? t with
      | some c => .call c
      | none => (Path.read? t).elim .unknown .path

/-- The form of a trimmed text. -/
def ofTrimmed (t : Text) : Form Text :=
  match readLiteral? t with
  | some v => .literal v
  | none => (readIndexed? t).elim (ofCompound t) .path

/-- The form of a text. -/
def ofText (t : Text) : Form Text := ofTrimmed (Text.trim t)

theorem length_lt_of_ofCompound {t e : Text} (he : e ∈ (ofCompound t).operands) :
    e.length < t.length := by
  unfold ofCompound at he
  split at he
  · next input stage stages hs =>
    have two : 2 ≤ (Nesting.split '|' t).length := by simp [hs]
    simp only [operands, List.mem_cons, List.mem_flatMap, List.mem_map] at he
    rcases he with rfl | ⟨c, ⟨part, hp, rfl⟩, he⟩
    · exact Nesting.length_lt_of_mem_split (by simp [hs]) two
    · have hpart : part ∈ Nesting.split '|' t := by
        rw [hs]
        exact List.mem_cons_of_mem _ (List.mem_cons.2 hp)
      exact Nat.lt_trans (Call.length_lt_of_ofStage he) (Nesting.length_lt_of_mem_split hpart two)
  · split at he
    · next needle haystack hb =>
      have := Nesting.length_lt_of_breakWord (by simp) hb
      simp only [operands, List.mem_cons, List.not_mem_nil, or_false] at he
      rcases he with rfl | rfl
      · exact this.1
      · exact this.2
    · split at he
      · next hc => exact Call.length_lt_of_read? hc he
      · cases hp : Path.read? t with
        | none => simp [hp, operands] at he
        | some p => exact Path.length_lt_of_read? hp (by simpa [hp, operands] using he)

/-- Every operand is shorter than the text. -/
theorem length_lt_of_ofText {t e : Text} (he : e ∈ (ofText t).operands) :
    e.length < t.length := by
  refine Nat.lt_of_lt_of_le ?_ (Text.length_trim_le t)
  unfold ofText ofTrimmed at he
  split at he
  · simp [operands] at he
  · unfold readIndexed? at he
    split at he
    · cases hp : Path.read? (Text.trim t) with
      | none => exact length_lt_of_ofCompound (by simpa [hp] using he)
      | some p => exact Path.length_lt_of_read? hp (by simpa [hp, operands] using he)
    · exact length_lt_of_ofCompound (by simpa using he)

end Form

end PromptTemplate
