import PromptTemplate.Template.Error
import PromptTemplate.Template.Node
import PromptTemplate.Template.Options

/-!
# Rendering

Nodes are rendered in order, each in the context that the one before leaves.
An assignment changes the context, also from inside a branch; every iteration of
a loop works on a copy of its own, so a loop leaves the context as it was. A
raise ends the run, and the context it leaves is part of the outcome.
-/

namespace PromptTemplate

/-- The output or the error of a run, and the context at its end. -/
structure Outcome where
  result : Except Raised Text
  context : Context

/-- The variable `loop` in one of `length` iterations. -/
def loopInfo (index length : Nat) : Value :=
  .map [("index".toList, .ofNat (index + 1)), ("index0".toList, .ofNat index),
    ("first".toList, .bool (index = 0)), ("last".toList, .bool (index + 1 = length)),
    ("length".toList, .ofNat length)]

/-- The context of one iteration. -/
def iterationContext (c : Context) (item : Text) (value : Value) (index length : Nat) : Context :=
  (c.insert item value).insert "loop".toList (loopInfo index length)

mutual

/-- Renders one node in a context. -/
def Node.render (registry : Registry) (options : Options) : Node → Context → Outcome
  | .text value trim, c => ⟨.ok (trim.apply value), c⟩
  | .interpolation expression trim, c =>
    ⟨.ok (trim.apply (evaluateJoined ⟨c, registry⟩ expression).toText), c⟩
  | .branch condition children otherwise, c =>
    if condition.holds ⟨c, registry⟩ then renderAll registry options children c
    else renderAll registry options otherwise c
  | .loop item source children, c =>
    let items := source.items ⟨c, registry⟩
    let outputs := items.zipIdx.mapM fun (value, index) =>
      (renderAll registry options children
        (iterationContext c item value index items.length)).result
    ⟨outputs.map options.loopSeparator.intercalate, c⟩
  | .assign name expression, c =>
    ⟨.ok [], c.insert name (evaluateJoined ⟨c, registry⟩ expression)⟩
  | .raise message, c => ⟨.error ⟨message⟩, c⟩

/-- Renders nodes one after the other. -/
def renderAll (registry : Registry) (options : Options) : List Node → Context → Outcome
  | [], c => ⟨.ok [], c⟩
  | node :: nodes, c =>
    match node.render registry options c with
    | ⟨.ok output, c⟩ =>
      let later := renderAll registry options nodes c
      ⟨later.result.map (output ++ ·), later.context⟩
    | failed => failed

end

section

variable {registry : Registry} {options : Options} {node : Node} {c next : Context}

/-- Behind a node with output the others are rendered in the context that it leaves. -/
theorem renderAll_cons_of_ok {output : Text}
    (h : node.render registry options c = ⟨.ok output, next⟩) (nodes : List Node) :
    renderAll registry options (node :: nodes) c =
      ⟨(renderAll registry options nodes next).result.map (output ++ ·),
        (renderAll registry options nodes next).context⟩ := by
  rw [renderAll, h]

/-- A node that raises ends the run. -/
theorem renderAll_cons_of_error {e : Raised}
    (h : node.render registry options c = ⟨.error e, next⟩) (nodes : List Node) :
    renderAll registry options (node :: nodes) c = ⟨.error e, next⟩ := by
  rw [renderAll, h]

/-- Behind a single node nothing is left to render. -/
theorem renderAll_singleton (registry : Registry) (options : Options) (node : Node)
    (c : Context) : renderAll registry options [node] c = node.render registry options c := by
  cases h : node.render registry options c with
  | mk result next =>
    cases result with
    | error e => exact renderAll_cons_of_error h []
    | ok output =>
      rw [renderAll_cons_of_ok h []]
      change (⟨.ok (output ++ []), next⟩ : Outcome) = ⟨.ok output, next⟩
      rw [List.append_nil]

/-- Behind nodes with output the others are rendered in the context that they leave. -/
theorem renderAll_append_of_ok {nodes : List Node} {output : Text}
    (h : renderAll registry options nodes c = ⟨.ok output, next⟩) (others : List Node) :
    renderAll registry options (nodes ++ others) c =
      ⟨(renderAll registry options others next).result.map (output ++ ·),
        (renderAll registry options others next).context⟩ := by
  induction nodes generalizing c output with
  | nil =>
    rw [renderAll] at h
    cases h
    rw [List.nil_append]
    cases renderAll registry options others next with
    | mk result last =>
      cases result with
      | error e => rfl
      | ok t => rfl
  | cons node nodes ih =>
    cases hn : node.render registry options c with
    | mk result between =>
      cases result with
      | error e =>
        rw [renderAll_cons_of_error hn] at h
        cases h
      | ok first =>
        rw [renderAll_cons_of_ok hn] at h
        cases hrest : renderAll registry options nodes between with
        | mk rest last =>
          rw [hrest] at h
          cases rest with
          | error e => cases h
          | ok later =>
            cases h
            have happend (a : Except Raised Text) :
                (a.map (later ++ ·)).map (first ++ ·) = a.map (first ++ later ++ ·) := by
              cases a with
              | error e => rfl
              | ok t => exact congrArg Except.ok (List.append_assoc first later t).symm
            rw [List.cons_append, renderAll_cons_of_ok hn, ih hrest, happend]

end

end PromptTemplate
