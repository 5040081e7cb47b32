import PromptTemplate.Json.Token

/-!
# Reading JSON

Reading is a fold over the tokens with a stack of the containers that are open.
A text is one document and nothing else. Containers nest at most 127 deep; of
the members with equal names the first gives the place and the last the value.
-/

namespace PromptTemplate

namespace Json

namespace Reader

/-- A container that is open while a value inside it is read. -/
inductive Frame where
  /-- The items so far, last first. -/
  | array (done : List Json)
  /-- The members so far, and the name of the one being read. -/
  | object (done : Dict Json) (name : Text)
  deriving Repr

/-- What may come next. -/
inductive Place where
  | value
  | firstItem
  | firstName
  | name (done : Dict Json)
  | colon (done : Dict Json) (name : Text)
  | behind (j : Json)
  deriving Repr

/-- The open containers, innermost first, and what may come next. -/
structure State where
  frames : List Frame
  place : Place
  deriving Repr

/-- A text begins with a value. -/
def State.start : State := ⟨[], .value⟩

/-- The number of containers that may be open at once. -/
def depthBound : Nat := 127

/-- A value begins. -/
def State.beginValue (frames : List Frame) : Token → Option State
  | .openArray =>
    if frames.length < depthBound then some ⟨.array [] :: frames, .firstItem⟩ else none
  | .openObject => if frames.length < depthBound then some ⟨frames, .firstName⟩ else none
  | .string s => some ⟨frames, .behind (.string s)⟩
  | .atom j => some ⟨frames, .behind j⟩
  | _ => none

/-- One token. -/
def State.step (s : State) (token : Token) : Option State :=
  match s.place, token, s.frames with
  | .value, token, frames => State.beginValue frames token
  | .firstItem, .closeArray, .array done :: frames => some ⟨frames, .behind (.array done.reverse)⟩
  | .firstItem, token, frames => State.beginValue frames token
  | .firstName, .closeObject, frames => some ⟨frames, .behind (.object [])⟩
  | .firstName, .string name, frames => some ⟨frames, .colon [] name⟩
  | .name done, .string name, frames => some ⟨frames, .colon done name⟩
  | .colon done name, .colon, frames => some ⟨.object done name :: frames, .value⟩
  | .behind j, .comma, .array done :: frames => some ⟨.array (j :: done) :: frames, .value⟩
  | .behind j, .comma, .object done name :: frames => some ⟨frames, .name (done.insert name j)⟩
  | .behind j, .closeArray, .array done :: frames =>
    some ⟨frames, .behind (.array (j :: done).reverse)⟩
  | .behind j, .closeObject, .object done name :: frames =>
    some ⟨frames, .behind (.object (done.insert name j))⟩
  | _, _, _ => none

/-- The document, once every container is closed. -/
def State.finish? (s : State) : Option Json :=
  match s with
  | ⟨[], .behind j⟩ => some j
  | _ => none

/-- The document that a sequence of tokens makes up. -/
def ofTokens? (tokens : List Token) : Option Json :=
  (tokens.foldlM State.step State.start).bind State.finish?

end Reader

/-- Reads one JSON document from a text. -/
def read? (t : Text) : Option Json := (Token.lex t).bind Reader.ofTokens?

end Json

end PromptTemplate
