import PromptTemplate.Expression.Evaluation

/-!
# Conditions

A condition joins tests on expressions. The expressions stay text until they
are evaluated, so a condition means something in every scope.
-/

namespace PromptTemplate

/-- The operators between two conditions. -/
inductive Connective where
  | and
  | or
  | equal
  | unequal
  | member
  deriving DecidableEq, Repr

/-- A condition. -/
inductive Condition where
  /-- The truth of an expression. -/
  | literal (expression : Text)
  | not (child : Condition)
  | binary (op : Connective) (left right : Condition)
  | isDefined (expression : Text)
  | isNotNone (expression : Text)
  deriving DecidableEq, Repr

namespace Condition

/-- What a side of a comparison stands for: an expression for its value, any other
condition for its truth. -/
def operand (s : Scope) (c : Condition) (truth : Unit → Bool) : Value :=
  match c with
  | .literal expression => evaluateJoined s expression
  | _ => .bool (truth ())

/-- Whether a condition holds in a scope. -/
def holds (s : Scope) : Condition → Bool
  | .literal expression => (evaluate s expression).truthy
  | .not child => !holds s child
  | .binary .and left right => holds s left && holds s right
  | .binary .or left right => holds s left || holds s right
  | .binary .equal left right =>
    (operand s left fun _ => holds s left).equals (operand s right fun _ => holds s right)
  | .binary .unequal left right =>
    !(operand s left fun _ => holds s left).equals (operand s right fun _ => holds s right)
  | .binary .member left right =>
    (operand s right fun _ => holds s right).contains (operand s left fun _ => holds s left)
  | .isDefined expression => PromptTemplate.isDefined s expression
  | .isNotNone expression => !(evaluate s expression).isNull

end Condition

end PromptTemplate
