import PromptTemplate.Text.Integer

/-!
# Errors

A template is refused with the cause and the place or text that shows it. While
a template is rendered only an explicit raise can fail. The wording of each
cause is given by one function.
-/

namespace PromptTemplate

/-- A tag that continues or closes a block. -/
inductive Terminator where
  | elseIf (condition : Text)
  | otherwise
  | endIf
  | endFor
  deriving DecidableEq, Repr

/-- The kinds of blocks. -/
inductive BlockKind where
  | conditional
  | loop
  deriving DecidableEq, Repr

/-- Why a template is refused. -/
inductive SyntaxError where
  /-- A block tag that starts at a byte offset has no end. -/
  | unclosedTag (offset : Nat)
  | invalidFor (content : Text)
  | invalidSet (content : Text)
  | unknownBlock (content : Text)
  /-- The text ends inside a block. -/
  | unclosedBlock (kind : BlockKind)
  /-- A tag that continues or closes no block that is open. -/
  | unexpected (terminator : Terminator)
  | invalidCondition (text : Text)
  | invalidSlice (text : Text)
  deriving DecidableEq, Repr

/-- Raised by a template, with the message that it gives. -/
structure Raised where
  message : Text
  deriving DecidableEq, Repr

/-- Why a template has no output. -/
inductive TemplateError where
  | refused (e : SyntaxError)
  | raised (e : Raised)
  deriving DecidableEq, Repr

/-- The words of a block kind. -/
def BlockKind.name : BlockKind → Text
  | .conditional => "if".toList
  | .loop => "for".toList

/-- A tag between its delimiters. -/
def tagText (content : Text) : Text := "\x7b% ".toList ++ content ++ " %\x7d".toList

/-- A terminator as it is written. -/
def Terminator.describe : Terminator → Text
  | .elseIf condition => tagText ("elif ".toList ++ condition)
  | .otherwise => tagText "else".toList
  | .endIf => tagText "endif".toList
  | .endFor => tagText "endfor".toList

/-- The wording of a refusal. -/
def SyntaxError.message : SyntaxError → Text
  | .unclosedTag offset => "unclosed `\x7b%` tag starting at byte ".toList ++ Text.ofNat offset
  | .invalidFor content => "invalid for syntax: ".toList ++ content
  | .invalidSet content => "invalid set syntax: ".toList ++ content
  | .unknownBlock content => "unknown control block: ".toList ++ content
  | .unclosedBlock kind => "unclosed ".toList ++ kind.name ++ " block".toList
  | .unexpected terminator => "unexpected token: ".toList ++ terminator.describe
  | .invalidCondition text => "invalid condition: ".toList ++ text
  | .invalidSlice text => "invalid slice: ".toList ++ text

/-- The wording of an error; what a template raises is given verbatim. -/
def TemplateError.message : TemplateError → Text
  | .refused e => e.message
  | .raised e => e.message

end PromptTemplate
