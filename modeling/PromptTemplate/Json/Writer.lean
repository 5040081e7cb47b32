import PromptTemplate.Json.Quoted
import PromptTemplate.Json.Basic
import PromptTemplate.Number.Format

/-!
# Writing JSON

The compact text has no blanks. The indented text puts every item and member on
a line of its own, one indentation per level, and a blank behind the colon;
empty containers stay on one line in both. A number that is not finite is
written as null.
-/

namespace PromptTemplate

namespace Json

/-- Leading digits with exponents from -5 to 15 are written positionally, and a whole
number that is no integer keeps its point. -/
def numberFormat : Number.Format := ⟨.even, fun e => -5 ≤ e && e ≤ 15, true⟩

/-- The text of a number that is no integer. -/
def writeNumber : Number → Text
  | .finite negative rank => numberFormat.write negative rank
  | _ => "null".toList

/-- The text of a truth value. -/
def writeBool (b : Bool) : Text := if b then "true".toList else "false".toList

mutual

/-- The text without any blank. -/
def compact : Json → Text
  | .null => "null".toList
  | .bool b => writeBool b
  | .integer n => Text.ofInt n
  | .decimal x => writeNumber x
  | .string s => Quoted.write s
  | .array [] => ['[', ']']
  | .array (item :: items) => '[' :: compact item ++ compactItems items ++ [']']
  | .object [] => ['{', '}']
  | .object ((name, j) :: members) =>
    '{' :: Quoted.write name ++ ':' :: compact j ++ compactMembers members ++ ['}']

/-- The items behind the first, each behind its comma. -/
def compactItems : List Json → Text
  | [] => []
  | item :: items => ',' :: compact item ++ compactItems items

/-- The members behind the first, each behind its comma. -/
def compactMembers : List (Text × Json) → Text
  | [] => []
  | (name, j) :: members =>
    ',' :: Quoted.write name ++ ':' :: compact j ++ compactMembers members

end

/-- A line end and the indentation of a level. -/
def lineStart (width level : Nat) : Text := '\n' :: List.replicate (width * level) ' '

mutual

/-- The text with one line for each entry, indented by `width` blanks for each level. -/
def indented (width level : Nat) : Json → Text
  | .null => "null".toList
  | .bool b => writeBool b
  | .integer n => Text.ofInt n
  | .decimal x => writeNumber x
  | .string s => Quoted.write s
  | .array [] => ['[', ']']
  | .array (item :: items) =>
    '[' :: lineStart width (level + 1) ++ indented width (level + 1) item
      ++ indentedItems width (level + 1) items ++ lineStart width level ++ [']']
  | .object [] => ['{', '}']
  | .object ((name, j) :: members) =>
    '{' :: lineStart width (level + 1) ++ Quoted.write name ++ ':' :: ' '
      :: indented width (level + 1) j ++ indentedMembers width (level + 1) members
      ++ lineStart width level ++ ['}']

/-- The items behind the first, each behind its comma and on its line. -/
def indentedItems (width level : Nat) : List Json → Text
  | [] => []
  | item :: items =>
    ',' :: lineStart width level ++ indented width level item ++ indentedItems width level items

/-- The members behind the first, each behind its comma and on its line. -/
def indentedMembers (width level : Nat) : List (Text × Json) → Text
  | [] => []
  | (name, j) :: members =>
    ',' :: lineStart width level ++ Quoted.write name ++ ':' :: ' ' :: indented width level j
      ++ indentedMembers width level members

end

end Json

end PromptTemplate
