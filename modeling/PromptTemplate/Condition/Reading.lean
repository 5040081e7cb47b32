import PromptTemplate.Condition.Basic
import PromptTemplate.Template.Error

/-!
# Reading conditions

From the loosest to the tightest: `or`, `and`, a leading `not`, one comparison,
and the tests `is defined` and `is none`. What remains is an expression. Only
what stands at the top level counts, and parentheses around a whole condition
are dropped. A condition is refused if it or a part of it is empty or unbalanced.
-/

namespace PromptTemplate

namespace Condition

/-- A place to cut a condition into the two sides of a comparison. -/
structure Cut where
  left : Text
  right : Text
  op : Connective
  negated : Bool

/-- A cut at the first occurrence of a sign. -/
def cutAt (sign : Text) (op : Connective) (t : Text) : Option Cut :=
  (Nesting.breakAt sign t).map fun found => ⟨found.1, found.2, op, false⟩

/-- A cut at the first `in`; a `not` right before it belongs to it. -/
def cutMember (t : Text) : Option Cut :=
  (Nesting.breakWord "in".toList t).map fun found =>
    let plain : Cut := ⟨found.1, found.2, .member, false⟩
    match "not".toList.isSuffixOf? (Text.trimEnd found.1) with
    | some before =>
      if before.getLast?.any Text.isBlank then ⟨before, found.2, .member, true⟩ else plain
    | none => plain

/-- Of two cuts the one further to the left. -/
def Cut.earlier (a b : Cut) : Cut := if b.left.length < a.left.length then b else a

/-- The leftmost cut of a condition, if there is any. -/
def cut? (t : Text) : Option Cut :=
  [cutAt "==".toList .equal t, cutAt "!=".toList .unequal t, cutMember t].filterMap id
    |> List.foldl (fun best c => some (best.elim c (·.earlier c))) none

/-- The comparison at a cut of a trimmed condition; both sides must be there. -/
def ofCut (t : Text) (c : Cut) : Except SyntaxError Condition :=
  let left := Text.trim c.left
  let right := Text.trim c.right
  if left = [] ∨ right = [] then .error (.invalidCondition t)
  else
    let comparison := Condition.binary c.op (.literal left) (.literal right)
    .ok (if c.negated then .not comparison else comparison)

/-- The test or the expression that a trimmed condition without operators is. -/
def ofTest (t : Text) : Condition :=
  match " is not defined".toList.isSuffixOf? t, " is defined".toList.isSuffixOf? t,
    " is not none".toList.isSuffixOf? t, " is none".toList.isSuffixOf? t with
  | some name, _, _, _ => .not (.isDefined (Text.trim name))
  | none, some name, _, _ => .isDefined (Text.trim name)
  | none, none, some name, _ => .isNotNone (Text.trim name)
  | none, none, none, some name => .not (.isNotNone (Text.trim name))
  | none, none, none, none => .literal t

/-- The text behind a leading `not`. -/
def behindNot? (t : Text) : Option Text :=
  (("not".toList.isPrefixOf? t).filter Nesting.endsWord).map Text.trimStart

theorem length_lt_of_behindNot? {t rest : Text} (h : behindNot? t = some rest) :
    rest.length < t.length := by
  obtain ⟨after, ha, rfl⟩ := Option.map_eq_some_iff.1 h
  have := Text.length_of_isPrefixOf? (Option.filter_eq_some_iff.1 ha).1
  have := Text.length_trimStart_le after
  have : "not".toList.length = 3 := rfl
  omega

/-- Conditions joined by one operator, from the left. -/
def joinLeft (op : Connective) : List Condition → Condition
  | [] => .literal []
  | first :: rest => rest.foldl (.binary op) first

/-- Reads a condition. The parts of a connective are read from left to right, so that the
first fault decides. -/
def read (t : Text) : Except SyntaxError Condition :=
  let trimmed := Text.trim t
  if trimmed = [] ∨ Nesting.isBalanced trimmed = false then .error (.invalidCondition t)
  else
    match _ : Nesting.stripParens? trimmed with
    | some inside => read inside
    | none =>
      if _ : 2 ≤ (Nesting.splitWord "or".toList trimmed).length then
        ((Nesting.splitWord "or".toList trimmed).attach.mapM fun part =>
          read (Text.trim part.1)).map (joinLeft .or)
      else if _ : 2 ≤ (Nesting.splitWord "and".toList trimmed).length then
        ((Nesting.splitWord "and".toList trimmed).attach.mapM fun part =>
          read (Text.trim part.1)).map (joinLeft .and)
      else
        match _ : behindNot? trimmed with
        | some rest => (read rest).map .not
        | none => (cut? trimmed).elim (.ok (ofTest trimmed)) (ofCut trimmed)
termination_by t.length
decreasing_by
  all_goals have htrim : trimmed.length ≤ t.length := Text.length_trim_le t
  · exact Nat.lt_of_lt_of_le (Nesting.length_lt_of_stripParens? ‹_›) htrim
  · have := Nesting.length_lt_of_mem_splitWord part.2 ‹_›
    have := Text.length_trim_le part.1
    omega
  · have := Nesting.length_lt_of_mem_splitWord part.2 ‹_›
    have := Text.length_trim_le part.1
    omega
  · exact Nat.lt_of_lt_of_le (length_lt_of_behindNot? ‹_›) htrim

end Condition

end PromptTemplate
