import PromptTemplate.Calendar.Format
import PromptTemplate.Registry.Basic
import PromptTemplate.Text.Blank
import PromptTemplate.Value.Lookup

/-!
# Built-in filters and functions

One function formats the present time; three filters write JSON, trim and count.
The present time is an argument of the registry, so that rendering is a function
of its inputs.
-/

namespace PromptTemplate

namespace Value

/-- The indented JSON text of a value. Null on its own is written as an empty object. -/
def indentedJson (v : Value) (width : Nat) : Text :=
  if v.isNull then ['{', '}'] else v.indented width 0

/-- The printed text of a value without the blanks at its ends; null stays null. -/
def trimmed : Value → Value
  | .null => .null
  | v => .string (Text.trim v.toText)

end Value

namespace Registry

/-- The registry of the built-in names, with the present time that they see. -/
def builtin (now : Instant) : Registry :=
  let dates (args : Arguments) : Value :=
    let format := ((args.get? "format".toList 0).bind Value.asText?).getD Calendar.fallback
    .string (Calendar.format now format)
  let json (input : Value) (args : Arguments) : Value :=
    let width := ((args.get? "indent".toList 0).bind Value.asInt?).getD 0
    .string (input.indentedJson width.toNat)
  empty
    |>.registerFunction "strftime_now".toList "Date formatting function".toList dates
    |>.registerFilter "tojson".toList "JSON formatting function".toList json
    |>.registerFilter "trim".toList "String trimming function".toList
      (fun input _ => input.trimmed)
    |>.registerFilter "length".toList "Get length of collection or string".toList
      (fun input _ => Value.ofNat input.length)

end Registry

end PromptTemplate
