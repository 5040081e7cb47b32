import PromptTemplate.Expression.Form
import PromptTemplate.Registry.Basic
import PromptTemplate.Value.Lookup

/-!
# Evaluation

Evaluation never fails: an unknown name, a selection that does not apply and a
text that is no expression are null. The value of a form is made from the values
of its operands; since operands are shorter than the text, evaluating a text by
its form ends.
-/

namespace PromptTemplate

/-- What an expression is evaluated in. -/
structure Scope where
  /-- The variables. -/
  vars : Context
  /-- The filters and functions. -/
  registry : Registry

variable {ε : Type}

/-- What a step selects from a value. -/
def Step.select (value : ε → Value) (v : Value) : Step ε → Value
  | .key name => v.atKey name
  | .index i => v.atIndex i
  | .slice start? stop? => v.atSlice start? stop?
  | .dynamic operand => v.atValue (value operand)

/-- The value at the end of a path; null if the root is not bound. -/
def Path.eval (vars : Context) (value : ε → Value) (p : Path ε) : Value :=
  (vars.get? p.root).elim .null fun v => p.steps.foldl (Step.select value) v

/-- The values of the arguments of a call. -/
def Call.eval (value : ε → Value) (c : Call ε) : Arguments :=
  c.arguments.foldl
    (fun args a =>
      match a with
      | .positional operand => { args with positional := args.positional ++ [value operand] }
      | .keyword name operand =>
        { args with keyword := args.keyword.insert name (value operand) })
    ⟨[], []⟩

/-- The value of a form from the values of its operands. -/
def Form.eval (s : Scope) (value : ε → Value) : Form ε → Value
  | .literal v => v
  | .path p => p.eval s.vars value
  | .pipe input filters =>
    filters.foldl (fun v c => s.registry.applyFilter c.name v (c.eval value)) (value input)
  | .member needle haystack => .bool ((value haystack).contains (value needle))
  | .call c => (s.registry.callFunction c.name (c.eval value)).getD .null
  | .unknown => .null

/-- The value of an expression. Operands are shorter than the text, so the null for others
is never taken: see `evaluate_eq`. -/
def evaluate (s : Scope) (t : Text) : Value :=
  (Form.ofText t).eval s fun e => if e.length < t.length then evaluate s e else .null
termination_by t.length

/-- The value of operands joined by plus signs is the text of all of them; a single
operand keeps its kind. -/
def evaluateJoined (s : Scope) (t : Text) : Value :=
  match Nesting.split '+' t with
  | [_] => evaluate s t
  | operands => .string (operands.flatMap fun operand => (evaluate s operand).toText)

/-- Whether a step finds something in a value, be it null: a key in a map, an index in a
list, and for the other combinations anything but null. -/
def Step.finds (value : ε → Value) (v : Value) (step : Step ε) : Bool :=
  match step, v with
  | .key name, .map entries => Dict.contains entries name
  | .index i, .list items => (placeOf? i items.length).isSome
  | step, v => !(step.select value v).isNull

/-- Whether every step finds something in the value that the steps before it reach. -/
def Step.findAll (value : ε → Value) (v : Value) : List (Step ε) → Bool
  | [] => true
  | step :: steps => step.finds value v && findAll value (step.select value v) steps

/-- Whether a text is a path that leads to something. -/
def isDefined (s : Scope) (t : Text) : Bool :=
  match Path.read? (Text.trim t) with
  | none => false
  | some p =>
    match s.vars.get? p.root with
    | none => false
    | some v => Step.findAll (evaluate s) v p.steps

end PromptTemplate
