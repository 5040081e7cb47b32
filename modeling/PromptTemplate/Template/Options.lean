import PromptTemplate.Json.Fields

/-!
# Render options

The options say what joins the iterations of a loop and whether function names
are bound before rendering. They are read from JSON with defaults.
-/

namespace PromptTemplate

/-- How templates are rendered. -/
structure Options where
  /-- Stands between the outputs of two iterations of a loop. -/
  loopSeparator : Text
  /-- Bind a sentinel for every function before rendering. -/
  injectBuiltins : Bool
  deriving DecidableEq, Repr

namespace Options

/-- An empty line between iterations, and sentinels. -/
def standard : Options := ⟨['\n', '\n'], true⟩

/-- Reads options; a missing field is as in the standard options. -/
def ofJson? (j : Json) : Option Options := do
  let fields ← j.fields? ["loop_separator".toList, "inject_builtins".toList]
  return ⟨← Json.optional? fields "loop_separator".toList standard.loopSeparator Json.asText?,
    ← Json.optional? fields "inject_builtins".toList standard.injectBuiltins Json.asBool?⟩

/-- The document of options. -/
def toJson (o : Options) : Json :=
  .object [("loop_separator".toList, .string o.loopSeparator),
    ("inject_builtins".toList, .bool o.injectBuiltins)]

end Options

end PromptTemplate
