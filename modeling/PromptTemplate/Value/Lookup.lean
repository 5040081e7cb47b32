import PromptTemplate.Value.Json

/-!
# Selecting from a value

A key selects an entry of a map, or from a list the entries that its maps have
under the key. An index selects an item of a list, negative ones counted from
the end, or the entry of a map whose key is the index in decimal. A slice keeps
a range of the items of a list or of the characters of a text. Whatever does
not apply selects null.
-/

namespace PromptTemplate

/-- The place that an index names among `length` items, if it names one. -/
def placeOf? (index : Int) (length : Nat) : Option Nat :=
  let i := if index < 0 then index + length else index
  if 0 ≤ i ∧ i < length then some i.toNat else none

/-- A slice bound as a count of items before it: negative bounds count from the end, and
bounds outside the items are moved to the nearer end. -/
def boundOf (bound : Int) (length : Nat) : Nat :=
  let b := if bound < 0 then bound + length else bound
  min b.toNat length

/-- The items between two bounds; a missing bound is the end on its side. -/
def sliceOf {α : Type} (items : List α) (start? stop? : Option Int) : List α :=
  let start := start?.elim 0 (boundOf · items.length)
  let stop := stop?.elim items.length (boundOf · items.length)
  (items.take stop).drop start

namespace Value

/-- What a map has under a key. -/
def under? (v : Value) (key : Text) : Option Value := v.asMap?.bind (·.get? key)

/-- What a key selects. -/
def atKey (v : Value) (key : Text) : Value :=
  match v with
  | .map entries => (Dict.get? entries key).getD .null
  | .list items => .list (items.filterMap (·.under? key))
  | _ => .null

/-- What an index selects. -/
def atIndex (v : Value) (index : Int) : Value :=
  match v with
  | .list items => ((placeOf? index items.length).bind (items[·]?)).getD .null
  | .map entries => (Dict.get? entries (Text.ofInt index)).getD .null
  | _ => .null

/-- What a slice selects. -/
def atSlice (v : Value) (start? stop? : Option Int) : Value :=
  match v with
  | .list items => .list (sliceOf items start? stop?)
  | .string s => .string (sliceOf s start? stop?)
  | _ => .null

/-- What another value selects: a text as a key, an integer as an index. -/
def atValue (v selector : Value) : Value :=
  match selector with
  | .number x => x.exactInt?.elim .null v.atIndex
  | .string key => v.atKey key
  | _ => .null

/-- Membership: the text of the needle as a key of a map or as a part of a text, the
needle itself as an item of a list. -/
def contains (haystack needle : Value) : Bool :=
  match haystack with
  | .map entries => Dict.contains entries needle.toText
  | .list items => items.any fun item => item.equals needle
  | .string s => Text.occursIn needle.toText s
  | _ => false

/-- The number of items, entries or characters; zero for any other value. -/
def length : Value → Nat
  | .list items => items.length
  | .map entries => entries.length
  | .string s => s.length
  | _ => 0

end Value

end PromptTemplate
