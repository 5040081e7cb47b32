import PromptTemplate.Json.Writer
import PromptTemplate.Value.Basic

/-!
# Values and JSON

A value becomes a document in which integers of moderate size are integers; a
document becomes a value in which all numbers are doubles. The text of a value
is what a template prints for it: texts verbatim, nothing for null, and the
compact document for lists and maps. The indented text is written from the value
itself, without a document in between.
-/

namespace PromptTemplate

namespace Value

/-- The document of a number; what is not finite becomes null. -/
def numberToJson (x : Number) : Json :=
  match x.exactInt? with
  | some n => .integer n
  | none => if x.isFinite then .decimal x else .null

mutual

/-- The document of a value. -/
def toJson : Value → Json
  | .string s => .string s
  | .number x => numberToJson x
  | .bool b => .bool b
  | .null => .null
  | .list items => .array (toJsonItems items)
  | .map entries => .object (toJsonMembers entries)

/-- The documents of the items of a list. -/
def toJsonItems : List Value → List Json
  | [] => []
  | x :: xs => toJson x :: toJsonItems xs

/-- The documents of the entries of a map. -/
def toJsonMembers : List (Text × Value) → List (Text × Json)
  | [] => []
  | (key, x) :: entries => (key, toJson x) :: toJsonMembers entries

end

/-- The JSON text of a number: integers of moderate size as such. -/
def writeNumber (x : Number) : Text :=
  match x.exactInt? with
  | some n => Text.ofInt n
  | none => Json.writeNumber x

mutual

/-- The JSON text of a value with one line for each entry, indented by `width` blanks for
each level. -/
def indented (width level : Nat) : Value → Text
  | .string s => Json.Quoted.write s
  | .number x => writeNumber x
  | .bool b => Json.writeBool b
  | .null => "null".toList
  | .list [] => ['[', ']']
  | .list (x :: xs) =>
    '[' :: Json.lineStart width (level + 1) ++ indented width (level + 1) x
      ++ indentedItems width (level + 1) xs ++ Json.lineStart width level ++ [']']
  | .map [] => ['{', '}']
  | .map ((key, x) :: entries) =>
    '{' :: Json.lineStart width (level + 1) ++ Json.Quoted.write key ++ ':' :: ' '
      :: indented width (level + 1) x ++ indentedEntries width (level + 1) entries
      ++ Json.lineStart width level ++ ['}']

/-- The items behind the first, each behind its comma and on its line. -/
def indentedItems (width level : Nat) : List Value → Text
  | [] => []
  | x :: xs =>
    ',' :: Json.lineStart width level ++ indented width level x ++ indentedItems width level xs

/-- The entries behind the first, each behind its comma and on its line. -/
def indentedEntries (width level : Nat) : List (Text × Value) → Text
  | [] => []
  | (key, x) :: entries =>
    ',' :: Json.lineStart width level ++ Json.Quoted.write key ++ ':' :: ' '
      :: indented width level x ++ indentedEntries width level entries

end

mutual

/-- The value of a document. -/
def ofJson : Json → Value
  | .null => .null
  | .bool b => .bool b
  | .integer n => .number (Number.ofInt n)
  | .decimal x => .number x
  | .string s => .string s
  | .array items => .list (ofJsonItems items)
  | .object members => .map (ofJsonMembers members)

/-- The values of the items of an array. -/
def ofJsonItems : List Json → List Value
  | [] => []
  | j :: items => ofJson j :: ofJsonItems items

/-- The values of the members of an object. -/
def ofJsonMembers : List (Text × Json) → List (Text × Value)
  | [] => []
  | (name, j) :: members => (name, ofJson j) :: ofJsonMembers members

end

/-- What a template prints for a value. -/
def toText : Value → Text
  | .string s => s
  | .number x => x.toText
  | .bool b => Json.writeBool b
  | .null => []
  | v@(.list _) => v.toJson.compact
  | v@(.map _) => v.toJson.compact

end Value

end PromptTemplate
