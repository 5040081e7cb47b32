import PromptTemplate.Dict
import PromptTemplate.Number.Rounding

/-!
# Template values

A value is a text, a number, a truth value, null, a list or a map with ordered
keys. Every value reads as true or false, and two values are equal only if they
have the same kind; maps are equal whatever the order of their keys.
-/

namespace PromptTemplate

/-- A value that a template computes with. -/
inductive Value where
  | string (s : Text)
  | number (x : Number)
  | bool (b : Bool)
  | null
  | list (items : List Value)
  | map (entries : List (Text × Value))
  deriving Repr, Inhabited

namespace Value

/-- Whether the value is null. -/
def isNull : Value → Bool
  | .null => true
  | _ => false

/-- The text of a text value. -/
def asText? : Value → Option Text
  | .string s => some s
  | _ => none

/-- The items of a list. -/
def asList? : Value → Option (List Value)
  | .list items => some items
  | _ => none

/-- The entries of a map. -/
def asMap? : Value → Option (Dict Value)
  | .map entries => some entries
  | _ => none

/-- The integer that a value is, if it is one of moderate size. -/
def asInt? : Value → Option Int
  | .number x => x.exactInt?
  | _ => none

/-- A whole number as a value. -/
def ofNat (n : Nat) : Value := .number (Number.ofInt n)

/-- Truth. A text is false if it is empty or spells `false` in any case. -/
def truthy : Value → Bool
  | .bool b => b
  | .string s => !s.isEmpty && s.map Char.toLower != "false".toList
  | .number x => x.isNonzero
  | .null => false
  | .list items => !items.isEmpty
  | .map entries => !entries.isEmpty

mutual

/-- Equality of values. -/
def equals : Value → Value → Bool
  | .string s, .string t => s == t
  | .number x, .number y => x.equals y
  | .bool a, .bool b => a == b
  | .null, .null => true
  | .list xs, .list ys => equalItems xs ys
  | .map es, .map fs => es.length == fs.length && equalEntries es fs
  | _, _ => false

/-- Equality item by item. -/
def equalItems : List Value → List Value → Bool
  | [], [] => true
  | x :: xs, y :: ys => equals x y && equalItems xs ys
  | _, _ => false

/-- Whether each entry has an equal one under its key in the other map. -/
def equalEntries : List (Text × Value) → Dict Value → Bool
  | [], _ => true
  | (key, x) :: entries, others =>
    (match others.get? key with
      | some y => equals x y
      | none => false) && equalEntries entries others

end

end Value

end PromptTemplate
