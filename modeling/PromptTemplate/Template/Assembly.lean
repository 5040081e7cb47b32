import PromptTemplate.Condition.Reading
import PromptTemplate.Template.Node
import PromptTemplate.Template.Token

/-!
# Assembling a template

The tree of a template is a fold over its tokens with a stack of the blocks that
are open. Each token either extends the innermost block, opens one, or continues
or closes the innermost one; a token that does none of these is refused at once.
A template whose blocks are not all closed is refused for the innermost.
-/

namespace PromptTemplate

namespace Assembly

/-- An arm of a conditional: its condition and its nodes. -/
structure Arm where
  condition : Condition
  children : List Node

/-- A block that is open, with the nodes before it in the enclosing block, last first. -/
inductive Frame where
  /-- In the arm of a condition, behind earlier arms, last first. -/
  | arm (before : List Node) (earlier : List Arm) (condition : Condition)
  /-- In the otherwise part, behind all arms, last first. -/
  | otherwise (before : List Node) (arms : List Arm)
  | loop (before : List Node) (item : Text) (source : LoopSource)

/-- The kind of a block. -/
def Frame.kind : Frame → BlockKind
  | .arm .. => .conditional
  | .otherwise .. => .conditional
  | .loop .. => .loop

/-- The nodes of the innermost block so far, last first, and the blocks around, innermost
first. -/
structure State where
  nodes : List Node
  frames : List Frame

/-- Nothing is open at the start. -/
def State.start : State := ⟨[], []⟩

/-- The branches of a conditional, from its arms, last first, and its otherwise part. -/
def branches (arms : List Arm) (otherwise : List Node) : List Node :=
  arms.foldl (fun rest arm => [.branch arm.condition arm.children rest]) otherwise

/-- A token that continues or closes a block. -/
def State.terminate (s : State) (t : Terminator) : Except SyntaxError State :=
  match t, s.frames with
  | .elseIf condition, .arm before earlier current :: frames => do
    let next ← Condition.read condition
    return ⟨[], .arm before (⟨current, s.nodes.reverse⟩ :: earlier) next :: frames⟩
  | .otherwise, .arm before earlier current :: frames =>
    .ok ⟨[], .otherwise before (⟨current, s.nodes.reverse⟩ :: earlier) :: frames⟩
  | .endIf, .arm before earlier current :: frames =>
    .ok ⟨branches (⟨current, s.nodes.reverse⟩ :: earlier) [] ++ before, frames⟩
  | .endIf, .otherwise before arms :: frames =>
    .ok ⟨branches arms s.nodes.reverse ++ before, frames⟩
  | .endFor, .loop before item source :: frames =>
    .ok ⟨.loop item source s.nodes.reverse :: before, frames⟩
  | t, _ => .error (.unexpected t)

/-- One token. -/
def State.step (s : State) : Token → Except SyntaxError State
  | .text value trim => .ok { s with nodes := .text value trim :: s.nodes }
  | .interpolation expression trim =>
    .ok { s with nodes := .interpolation expression trim :: s.nodes }
  | .assign name expression => .ok { s with nodes := .assign name expression :: s.nodes }
  | .raise message => .ok { s with nodes := .raise message :: s.nodes }
  | .ifStart condition => do
    return ⟨[], .arm s.nodes [] (← Condition.read condition) :: s.frames⟩
  | .forStart item source => do
    return ⟨[], .loop s.nodes item (← LoopSource.read source) :: s.frames⟩
  | .terminator t => s.terminate t

/-- The template, once every block is closed. -/
def State.finish (s : State) : Except SyntaxError Template :=
  match s.frames with
  | [] => .ok s.nodes.reverse
  | frame :: _ => .error (.unclosedBlock frame.kind)

end Assembly

/-- The template that a sequence of tokens makes up. -/
def Template.ofTokens (tokens : List Token) : Except SyntaxError Template := do
  (← tokens.foldlM Assembly.State.step Assembly.State.start).finish

/-- The template of a source. -/
def Template.ofSource (source : Text) : Except SyntaxError Template := do
  Template.ofTokens (← Token.ofSource source)

end PromptTemplate
