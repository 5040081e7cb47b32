import PromptTemplate.Condition.Basic
import PromptTemplate.Template.LoopSource
import PromptTemplate.Text.Blank

/-!
# Template trees

A template is a list of nodes. A branch holds the nodes of both outcomes; a
chain of branches is one in which each further condition is tested in the
otherwise part of the one before.
-/

namespace PromptTemplate

/-- A node of a template. -/
inductive Node where
  | text (value : Text) (trim : Trim)
  | interpolation (expression : Text) (trim : Trim)
  | branch (condition : Condition) (children otherwise : List Node)
  | loop (item : Text) (source : LoopSource) (children : List Node)
  | assign (name expression : Text)
  | raise (message : Text)
  deriving Repr

/-- A template. -/
abbrev Template := List Node

end PromptTemplate
