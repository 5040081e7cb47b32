import PromptTemplate.Nesting.Literal
import PromptTemplate.Template.Error
import PromptTemplate.Template.Segment

/-!
# Tokens

A segment becomes at most one token: comments vanish, the content of a block
tag is read by its first word, and an interpolation of one double-quoted literal
is text. A dash trims the raw text beside it, on the right also across comments;
the text of a literal and an interpolation are trimmed by their own dashes only.
The first segment that is refused decides.
-/

namespace PromptTemplate

/-- A token of template source. -/
inductive Token where
  | text (value : Text) (trim : Trim)
  | interpolation (expression : Text) (trim : Trim)
  | ifStart (condition : Text)
  | forStart (item source : Text)
  | assign (name expression : Text)
  | raise (message : Text)
  /-- A tag that continues or closes a block. -/
  | terminator (t : Terminator)
  deriving DecidableEq, Repr

namespace Token

/-- The argument of a raise: a literal's meaning, or any other text without the quotes
around it. -/
def raiseMessage? (content : Text) : Option Text := do
  let inside ← "raise_exception(".toList.isPrefixOf? content
  let argument ← [')'].isSuffixOf? inside
  let argument := Text.trim argument
  return match Literal.read? argument with
    | some (_, message) => message
    | none => Text.dropEndWhile Nesting.isQuote (argument.dropWhile Nesting.isQuote)

/-- The variable and the source of a loop: exactly one `in` between single spaces, with
something on both sides. -/
def forParts? (t : Text) : Option (Text × Text) := do
  let (item, source) ← Text.breakOn " in ".toList (Text.trim t)
  if Text.occursIn " in ".toList source ∨ Text.trim item = [] ∨ Text.trim source = [] then none
  else return (Text.trim item, Text.trim source)

/-- The name and the expression of an assignment: cut at the first equals sign between
single spaces. -/
def assignParts? (t : Text) : Option (Text × Text) := do
  let (name, expression) ← Text.breakOn " = ".toList (Text.trim t)
  if Text.trim name = [] then none
  else return (Text.trim name, Text.trim expression)

/-- The words that open a block or an assignment, in the order in which they are tried. -/
inductive BlockWord where
  | ifWord
  | elifWord
  | forWord
  | setWord

/-- The first word of a block tag that takes an operand, and the operand. -/
def blockWord? (content : Text) : Option (BlockWord × Text) :=
  let words : List (String × BlockWord) :=
    [("if ", .ifWord), ("elif ", .elifWord), ("for ", .forWord), ("set ", .setWord)]
  words.findSome? fun word => (word.1.toList.isPrefixOf? content).map fun rest => (word.2, rest)

/-- The tag that consists of one word. -/
def bareWord? (content : Text) : Option Terminator :=
  if content = "else".toList then some .otherwise
  else if content = "endif".toList then some .endIf
  else if content = "endfor".toList then some .endFor
  else none

/-- The token of a block tag's trimmed content. -/
def ofBlock (content : Text) : Except SyntaxError Token :=
  match blockWord? content with
  | some (.ifWord, rest) => .ok (.ifStart (Text.trim rest))
  | some (.elifWord, rest) => .ok (.terminator (.elseIf (Text.trim rest)))
  | some (.forWord, rest) =>
    match forParts? rest with
    | some (item, source) => .ok (.forStart item source)
    | none => .error (.invalidFor content)
  | some (.setWord, rest) =>
    match assignParts? rest with
    | some (name, expression) => .ok (.assign name expression)
    | none => .error (.invalidSet content)
  | none =>
    match bareWord? content, raiseMessage? content with
    | some t, _ => .ok (.terminator t)
    | none, some message => .ok (.raise message)
    | none, none => .error (.unknownBlock content)

/-- The token of an interpolation's trimmed content. -/
def ofInterpolation (trim : Trim) (content : Text) : Token :=
  match raiseMessage? content with
  | some message => .raise message
  | none =>
    match Literal.read? content with
    | some ('"', value) => .text value trim
    | _ => .interpolation content trim

/-- Whether raw text is trimmed on the right by what follows it: by a dash at the start of
a comment right behind it, or of the first marker behind those comments. -/
def dashFollows : List Segment → Bool
  | .comment dashes :: later => dashes.opening || dashFollows later
  | segment :: _ => segment.opensWithDash
  | [] => false

/-- The tokens of one segment, none or one. The source has `size` bytes, the segment before
closes with a dash if `afterDash` says so, and `later` are the segments behind. -/
def ofSegment (size : Nat) (afterDash : Bool) (later : List Segment) :
    Segment → Except SyntaxError (List Token)
  | .raw value => .ok [.text (Text.expandNewlines value) ⟨afterDash, dashFollows later⟩]
  | .comment _ => .ok []
  | .interpolation dashes content =>
    .ok [ofInterpolation ⟨dashes.opening, dashes.closing⟩ content]
  | .block _ content => (ofBlock content).map ([·])
  | .unclosed rest => .error (.unclosedTag (size - Text.byteSize rest))

/-- The tokens of segments in order. -/
def ofSegments (size : Nat) (afterDash : Bool) : List Segment → Except SyntaxError (List Token)
  | [] => .ok []
  | segment :: later => do
    let tokens ← ofSegment size afterDash later segment
    return tokens ++ (← ofSegments size segment.closesWithDash later)

/-- The tokens of template source. -/
def ofSource (source : Text) : Except SyntaxError (List Token) :=
  ofSegments (Text.byteSize source) false (Segment.scan source)

end Token

end PromptTemplate
