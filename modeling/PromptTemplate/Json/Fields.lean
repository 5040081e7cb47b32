import PromptTemplate.Json.Basic

/-!
# Taking documents apart

Records are read from objects whose unknown members are ignored. A record may
also be an array of its fields in order, from which fields at the end that have
defaults may be left out.
-/

namespace PromptTemplate

namespace Json

/-- The text of a document that is a string. -/
def asText? : Json → Option Text
  | .string s => some s
  | _ => none

/-- The truth value of a document that is one. -/
def asBool? : Json → Option Bool
  | .bool b => some b
  | _ => none

/-- The items of a document that is an array. -/
def asArray? : Json → Option (List Json)
  | .array items => some items
  | _ => none

/-- The members of a document that is an object. -/
def asObject? : Json → Option (Dict Json)
  | .object members => some members
  | _ => none

/-- The fields of a record with the given names: the members of an object, or the items of
an array that is not longer than the record. -/
def fields? (names : List Text) : Json → Option (Dict Json)
  | .object members => some members
  | .array items => if items.length ≤ names.length then some (names.zip items) else none
  | _ => none

/-- A required field, read by `read`. -/
def required? {α : Type} (fields : Dict Json) (name : Text) (read : Json → Option α) : Option α :=
  (fields.get? name).bind read

/-- A field with a default, which counts only if the field is missing. -/
def optional? {α : Type} (fields : Dict Json) (name : Text) (absent : α)
    (read : Json → Option α) : Option α :=
  (fields.get? name).elim (some absent) read

end Json

end PromptTemplate
