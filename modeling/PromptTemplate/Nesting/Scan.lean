import PromptTemplate.Text.Basic

/-!
# The scan of nested text

Separators, keywords and closing marks count only at the top level: outside
string literals and outside bracketed groups. A scan carries the depth of the
groups that are open and whether it stands in a literal. Closing more groups
than were opened leaves the depth at zero, so every text has a scan; balanced
texts are those that never close too much and end where they began.
-/

namespace PromptTemplate

namespace Nesting

/-- The three characters that open a group. -/
def isOpener (c : Char) : Bool := c == '(' || c == '[' || c == '{'

/-- The three characters that close a group; kinds are not matched. -/
def isCloser (c : Char) : Bool := c == ')' || c == ']' || c == '}'

/-- The two characters that delimit a literal. -/
def isQuote (c : Char) : Bool := c == '\'' || c == '"'

/-- Whether the scan stands outside literals, in one, or behind a backslash in one. -/
inductive Mode where
  | code
  | quoted (quote : Char)
  | escaped (quote : Char)
  deriving DecidableEq, Repr

/-- Where a scan stands. -/
structure State where
  /-- The number of groups that are open. -/
  depth : Nat
  /-- The literal in which the scan stands, if any. -/
  mode : Mode
  deriving DecidableEq, Repr

/-- Every scan starts outside groups and literals. -/
def State.start : State := ⟨0, .code⟩

/-- The state behind one more character. -/
def State.step (s : State) (c : Char) : State :=
  match s.mode with
  | .escaped q => { s with mode := .quoted q }
  | .quoted q =>
    if c == '\\' then { s with mode := .escaped q }
    else if c == q then { s with mode := .code }
    else s
  | .code =>
    if isQuote c then { s with mode := .quoted c }
    else if isOpener c then { s with depth := s.depth + 1 }
    else if isCloser c then { s with depth := s.depth - 1 }
    else s

/-- A character is at the top level if no group stays open around it. The brackets of
an outermost group are at the top level, and so is the quote that opens a literal. -/
def State.isTop (s : State) (c : Char) : Bool :=
  match s.mode with
  | .code => if isCloser c then s.depth ≤ 1 else s.depth = 0
  | _ => false

/-- The state behind a text. -/
def State.run (s : State) (t : Text) : State := t.foldl State.step s

@[simp] theorem State.run_nil (s : State) : s.run [] = s := rfl

@[simp] theorem State.run_cons (s : State) (c : Char) (t : Text) :
    s.run (c :: t) = (s.step c).run t := rfl

@[simp] theorem State.run_append (s : State) (t u : Text) : s.run (t ++ u) = (s.run t).run u :=
  List.foldl_append

/-- The positions of the characters at the top level, counted from `position`. -/
def State.topOffsets (s : State) (position : Nat) : Text → List Nat
  | [] => []
  | c :: rest =>
    let later := (s.step c).topOffsets (position + 1) rest
    if s.isTop c then position :: later else later

/-- The positions of the characters at the top level of a text. -/
def topOffsets (t : Text) : List Nat := State.start.topOffsets 0 t

/-- Whether the rest of a text closes what is open and never more than that. -/
def State.closes (s : State) : Text → Bool
  | [] => s = State.start
  | c :: rest =>
    if s.mode = .code ∧ s.depth = 0 ∧ isCloser c then false else (s.step c).closes rest

/-- Balanced: every literal and group is closed, and nothing is closed twice. -/
def isBalanced (t : Text) : Bool := State.start.closes t

end Nesting

end PromptTemplate
