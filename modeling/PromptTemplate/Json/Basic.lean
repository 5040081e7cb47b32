import PromptTemplate.Dict
import PromptTemplate.Number.Basic

/-!
# JSON documents

A document is a tree whose integers are kept apart from its other numbers, so
that an integer is read and written without rounding. The members of an object
are in order, each name once.
-/

namespace PromptTemplate

/-- A JSON document. -/
inductive Json where
  | null
  | bool (b : Bool)
  /-- A number written without point and exponent, in the range of a machine word. -/
  | integer (n : Int)
  /-- Any other number; those that are not finite have no JSON text of their own. -/
  | decimal (x : Number)
  | string (s : Text)
  | array (items : List Json)
  | object (members : List (Text × Json))
  deriving Repr, Inhabited

end PromptTemplate
