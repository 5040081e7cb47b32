import PromptTemplate.Message
import PromptTemplate.Value.Json

/-!
# Contexts

A context binds names to values, in order of first binding. A copy of a context
is independent of it.
-/

namespace PromptTemplate

/-- The variables of a template. -/
abbrev Context := Dict Value

namespace Context

/-- Reads a context from an object. -/
def ofJson? (j : Json) : Option Context := j.asObject?.map Value.ofJsonMembers

/-- A context as a map. -/
def toValue (c : Context) : Value := .map c

/-- Two contexts are equal if they bind the same names to equal values, in any order. -/
def equals (c d : Context) : Bool := c.toValue.equals d.toValue

/-- Binds `messages` to the list of the messages. -/
def setMessages (c : Context) (messages : List Message) : Context :=
  Dict.insert c "messages".toList (.list (messages.map Message.toValue))

end Context

end PromptTemplate
