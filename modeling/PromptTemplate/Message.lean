import PromptTemplate.Json.Fields
import PromptTemplate.Value.Basic

/-!
# Messages

A conversation is a list of messages. Templates see each as a map of its role
and its content.
-/

namespace PromptTemplate

/-- One message of a conversation. -/
structure Message where
  /-- Who speaks. -/
  role : Text
  /-- What is said. -/
  content : Text
  deriving DecidableEq, Repr

namespace Message

/-- Reads a message; both fields are required. -/
def ofJson? (j : Json) : Option Message := do
  let fields ← j.fields? ["role".toList, "content".toList]
  return ⟨← Json.required? fields "role".toList Json.asText?,
    ← Json.required? fields "content".toList Json.asText?⟩

/-- Reads a conversation. -/
def listOfJson? (j : Json) : Option (List Message) := do (← j.asArray?).mapM ofJson?

/-- The value of a message, as templates see it. -/
def toValue (m : Message) : Value :=
  .map [("role".toList, .string m.role), ("content".toList, .string m.content)]

end Message

end PromptTemplate
