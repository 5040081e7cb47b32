import PromptTemplate.Expression.Evaluation
import PromptTemplate.Template.Error

/-!
# Loop sources

A loop runs over an expression, cut down by any number of trailing slices. A
list gives its items and a map its keys; anything else gives nothing.
-/

namespace PromptTemplate

/-- What a loop runs over. -/
inductive LoopSource where
  | expression (text : Text)
  | slice (inner : LoopSource) (start? stop? : Option Int)
  deriving DecidableEq, Repr

namespace LoopSource

/-- A bound of a slice: nothing, or an integer. -/
def readBound (bound whole : Text) : Except SyntaxError (Option Int) :=
  match Step.readBound? bound with
  | some read => .ok read
  | none => .error (.invalidSlice whole)

/-- Reads a loop source. A trailing index group with a colon is a slice. -/
def read (t : Text) : Except SyntaxError LoopSource :=
  let trimmed := Text.trim t
  match _ : Nesting.trailingIndex? trimmed with
  | none => .ok (.expression trimmed)
  | some (before, inside) =>
    match Text.breakOn [':'] inside with
    | none => .ok (.expression trimmed)
    | some (start, stop) => do
      let inner ← read before
      return .slice inner (← readBound start trimmed) (← readBound stop trimmed)
termination_by t.length
decreasing_by
  exact Nat.lt_of_lt_of_le (Nesting.length_lt_of_trailingIndex? ‹_›) (Text.length_trim_le t)

/-- The items that a value gives to a loop. -/
def itemsOf : Value → List Value
  | .list items => items
  | .map entries => entries.map fun e => .string e.1
  | _ => []

/-- The items of a loop source in a scope. -/
def items (s : Scope) : LoopSource → List Value
  | .expression text => itemsOf (evaluate s text)
  | .slice inner start? stop? => sliceOf (items s inner) start? stop?

end LoopSource

end PromptTemplate
