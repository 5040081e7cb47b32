import PromptTemplate.Json.Fields
import PromptTemplate.Value.Json

/-!
# Tools

A tool is described by a name, a description and a schema of its parameters. The
description is read from JSON, where any record may also be an array of its
fields in order; it is written as JSON, and given to templates as a value of the
same shape.
-/

namespace PromptTemplate

/-- The types of a schema. -/
inductive SchemaType where
  | object
  | string
  | number
  | integer
  | boolean
  | array
  deriving DecidableEq, Repr

/-- A property of a schema. -/
structure Property where
  type : SchemaType
  description : Text
  deriving DecidableEq, Repr

/-- The schema of a tool's parameters. -/
structure Parameters where
  type : SchemaType
  required : List Text
  properties : Dict Property
  deriving DecidableEq, Repr

/-- The description of a tool. -/
structure Tool where
  name : Text
  description : Text
  parameters : Parameters
  deriving DecidableEq, Repr

/-- The word for a type. -/
def SchemaType.name : SchemaType → Text
  | .object => "object".toList
  | .string => "string".toList
  | .number => "number".toList
  | .integer => "integer".toList
  | .boolean => "boolean".toList
  | .array => "array".toList

/-- All types. -/
def SchemaType.all : List SchemaType := [.object, .string, .number, .integer, .boolean, .array]

/-- The type of a word. -/
def SchemaType.ofName? (t : Text) : Option SchemaType := all.find? fun type => type.name = t

/-- Reads a type: its word, or an object that has null under the word and nothing else. -/
def SchemaType.ofJson? : Json → Option SchemaType
  | .string name => ofName? name
  | .object [(name, .null)] => ofName? name
  | _ => none

/-- A schema of an object without properties. -/
def Parameters.empty : Parameters := ⟨.object, [], []⟩

/-- Declares a property. A required one is listed once for each time it is declared so. -/
def Parameters.property (p : Parameters) (name : Text) (property : Property)
    (isRequired : Bool) : Parameters :=
  { p with
    required := if isRequired then p.required ++ [name] else p.required
    properties := p.properties.insert name property }

namespace Property

/-- Reads a property; a description may be missing. -/
def ofJson? (j : Json) : Option Property := do
  let fields ← j.fields? ["type".toList, "description".toList]
  return ⟨← Json.required? fields "type".toList SchemaType.ofJson?,
    ← Json.optional? fields "description".toList [] Json.asText?⟩

/-- The document of a property. -/
def toJson (p : Property) : Json :=
  .object [("type".toList, .string p.type.name), ("description".toList, .string p.description)]

/-- The value of a property. -/
def toValue (p : Property) : Value :=
  .map [("type".toList, .string p.type.name), ("description".toList, .string p.description)]

end Property

namespace Parameters

/-- Reads a list of names. -/
def namesOfJson? (j : Json) : Option (List Text) := do (← j.asArray?).mapM Json.asText?

/-- Reads properties in order. -/
def propertiesOfJson? (j : Json) : Option (Dict Property) := do
  (← j.asObject?).mapM fun member => do return (member.1, ← Property.ofJson? member.2)

/-- Reads a schema, in which everything may be missing. -/
def ofJson? (j : Json) : Option Parameters := do
  let fields ← j.fields? ["type".toList, "required".toList, "properties".toList]
  return ⟨← Json.optional? fields "type".toList .object SchemaType.ofJson?,
    ← Json.optional? fields "required".toList [] namesOfJson?,
    ← Json.optional? fields "properties".toList [] propertiesOfJson?⟩

/-- The document of a schema. -/
def toJson (p : Parameters) : Json :=
  .object [("type".toList, .string p.type.name),
    ("required".toList, .array (p.required.map .string)),
    ("properties".toList, .object (p.properties.map fun e => (e.1, e.2.toJson)))]

/-- The value of a schema. -/
def toValue (p : Parameters) : Value :=
  .map [("type".toList, .string p.type.name),
    ("required".toList, .list (p.required.map .string)),
    ("properties".toList, .map (p.properties.map fun e => (e.1, e.2.toValue)))]

end Parameters

namespace Tool

/-- Reads a tool; its parameters may be missing. -/
def ofJson? (j : Json) : Option Tool := do
  let fields ← j.fields? ["name".toList, "description".toList, "parameters".toList]
  return ⟨← Json.required? fields "name".toList Json.asText?,
    ← Json.required? fields "description".toList Json.asText?,
    ← Json.optional? fields "parameters".toList .empty Parameters.ofJson?⟩

/-- The document of a tool. -/
def toJson (t : Tool) : Json :=
  .object [("name".toList, .string t.name), ("description".toList, .string t.description),
    ("parameters".toList, t.parameters.toJson)]

/-- The value of a tool, as templates see it. -/
def toValue (t : Tool) : Value :=
  .map [("name".toList, .string t.name), ("description".toList, .string t.description),
    ("parameters".toList, t.parameters.toValue)]

/-- Reads a list of tools. -/
def listOfJson? (j : Json) : Option (List Tool) := do (← j.asArray?).mapM ofJson?

/-- The document of a list of tools. -/
def listToJson (tools : List Tool) : Json := .array (tools.map toJson)

/-- The value of a list of tools. -/
def listToValue (tools : List Tool) : Value := .list (tools.map toValue)

end Tool

end PromptTemplate
