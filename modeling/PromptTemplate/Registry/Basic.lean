import PromptTemplate.Context

/-!
# Registries

A registry names filters, which turn a value into a value, and functions, which
make a value from arguments. The two have separate names. Registering a name
again replaces its handler and description and keeps its place.
-/

namespace PromptTemplate

/-- The values with which a filter or function is called. -/
structure Arguments where
  /-- The arguments without a name, in order. -/
  positional : List Value
  /-- The arguments with a name; of equal names the last one counts. -/
  keyword : Dict Value
  deriving Repr

/-- The argument of a name, else the one at a position. -/
def Arguments.get? (args : Arguments) (name : Text) (position : Nat) : Option Value :=
  (args.keyword.get? name).or args.positional[position]?

/-- A handler with its description. -/
structure Described (η : Type) where
  description : Text
  handler : η

/-- The filters and functions that an expression can name. -/
structure Registry where
  functions : Dict (Described (Arguments → Value))
  filters : Dict (Described (Value → Arguments → Value))

namespace Registry

/-- A registry without names. -/
def empty : Registry := ⟨[], []⟩

/-- Names a filter. -/
def registerFilter (r : Registry) (name description : Text)
    (handler : Value → Arguments → Value) : Registry :=
  { r with filters := r.filters.insert name ⟨description, handler⟩ }

/-- Names a function. -/
def registerFunction (r : Registry) (name description : Text)
    (handler : Arguments → Value) : Registry :=
  { r with functions := r.functions.insert name ⟨description, handler⟩ }

/-- Whether a function has the name. -/
def hasFunction (r : Registry) (name : Text) : Bool := r.functions.contains name

/-- Applies the filter of a name; a value passes an unknown filter unchanged. -/
def applyFilter (r : Registry) (name : Text) (input : Value) (args : Arguments) : Value :=
  match r.filters.get? name with
  | some filter => filter.handler input args
  | none => input

/-- Calls the function of a name, if there is one. -/
def callFunction (r : Registry) (name : Text) (args : Arguments) : Option Value :=
  (r.functions.get? name).map (·.handler args)

/-- The names of the filters in order. -/
def filterNames (r : Registry) : List Text := r.filters.keys

/-- Name and description of the functions and then of the filters; a filter with the
name of a function only replaces its description. -/
def descriptions (r : Registry) : Dict Text :=
  Dict.ofEntries (r.functions.map (fun e => (e.1, e.2.description))
    ++ r.filters.map (fun e => (e.1, e.2.description)))

/-- The value that stands for a function when its name is read as a variable. -/
def sentinel : Text := "function".toList

/-- Binds the sentinel to every function name that the context leaves free. -/
def injectSentinels (r : Registry) (c : Context) : Context :=
  r.functions.foldl
    (fun (c : Context) e => if c.contains e.1 then c else c.insert e.1 (.string sentinel)) c

end Registry

end PromptTemplate
