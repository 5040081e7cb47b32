import PromptTemplate.Proofs.Expression.Selection
import PromptTemplate.Proofs.Expression.WrittenPath

/-!
# Resolving paths

A written path is an expression of its own: nothing in it is taken for a
literal, a pipe, a membership or a call, whichever way its text is read. So its
value is what its steps pick one after the other, and two spellings of the same
steps have the same value.
-/

namespace PromptTemplate

/-!
### The form of a written path
-/

section

variable {root : Text} {ws : List WrittenStep}

/-- Trimming a written path first makes no difference to reading it. -/
theorem Path.read?_trim_pathText (hroot : Text.isIdentifier root = true)
    (ws : List WrittenStep) :
    Path.read? (Text.trim (pathText root ws)) = some ⟨root, ws.map WrittenStep.step⟩ := by
  have hp := PathText.pathText hroot ws
  rw [hp.trim_eq]
  exact PathText.iff_read?.1 hp

/-- A written path has the form of a path, unless it is a constant alone. -/
theorem Form.ofText_pathText (hroot : Text.isIdentifier root = true)
    (h : ws ≠ [] ∨ root ∉ constantWords) :
    Form.ofText (pathText root ws) = .path ⟨root, ws.map WrittenStep.step⟩ := by
  refine (PathText.pathText hroot ws).ofText_eq ?_
  cases ws with
  | nil =>
    rw [pathText, List.flatMap_nil, List.append_nil]
    exact h.resolve_left fun hne => hne rfl
  | cons w ws =>
    refine not_mem_constantWords (w.stepText.sign_mem.imp ?_ ?_)
    · exact fun hdot => List.mem_append_right _ (List.mem_append_left _ hdot)
    · exact fun hopen => List.mem_append_right _ (List.mem_append_left _ hopen)

end

/-!
### Values of written paths
-/

/-- A written step selects what it picks. -/
theorem WrittenStep.select_step {ε : Type} (value : ε → Value) (v : Value) (w : WrittenStep) :
    w.step.select value v = v.pick w.step := by
  cases w with
  | dotted name hname => exact Value.atKey_eq_pick v name
  | quoted key quote hq before after => exact Value.atKey_eq_pick v key
  | index i hi before after => exact Value.atIndex_eq_pick v i
  | slice start? stop? hstart hstop before left right after =>
    exact Value.atSlice_eq_pick v start? stop?

/-- Written steps select what they pick one after the other. -/
theorem WrittenStep.foldl_select {ε : Type} (value : ε → Value) (v : Value)
    (ws : List WrittenStep) :
    (ws.map step).foldl (Step.select value) v = (ws.map step).foldl Value.pick v := by
  induction ws generalizing v with
  | nil => rfl
  | cons w ws ih =>
    rw [List.map_cons, List.map_cons, List.foldl_cons, List.foldl_cons, ih, select_step]

/-- A path has the value that its steps pick one after the other from the value of its root,
whichever way the steps are spelled: `a.b` is `a['b']`. A root alone must be no constant. -/
theorem evaluate_spelled (s : Scope) {root : Text} (hroot : Text.isIdentifier root = true)
    {steps : List (Step Empty)} (h : steps ≠ [] ∨ root ∉ constantWords) {ws : List WrittenStep}
    (hws : ws.map WrittenStep.step = steps) :
    evaluate s (pathText root ws) =
      steps.foldl Value.pick ((s.vars.get? root).getD .null) := by
  have hform : Form.ofText (pathText root ws) = .path ⟨root, ws.map WrittenStep.step⟩ := by
    refine Form.ofText_pathText hroot (h.imp_left fun hne hnil => hne ?_)
    rw [← hws, hnil, List.map_nil]
  rw [evaluate_eq, hform, Form.eval, Path.eval, ← hws]
  cases s.vars.get? root with
  | none => exact (Value.foldl_pick_null _).symm
  | some v => exact WrittenStep.foldl_select _ v ws

/-- Two spellings of one path, with an escaped quote, blanks and the outermost bounds. The
root is a constant, but not alone. -/
theorem evaluate_spelled_of_outermost_bounds :
    let outermost : WrittenStep := .slice (some (-9223372036854775808))
      (some 9223372036854775807) rfl rfl .space .none .space .none
    let last : WrittenStep := .index (-1) rfl .none .space
    let ws : List WrittenStep := [.quoted "b'".toList '\'' rfl .space .none, outermost, last,
      .dotted "c".toList rfl]
    let vs : List WrittenStep := [.quoted "b'".toList '"' rfl .none .none, outermost, last,
      .quoted "c".toList '"' rfl .none .none]
    let s : Scope := ⟨[("none".toList, .map [("b'".toList, .list
      [.null, .map [("c".toList, .bool true)]])])], Registry.empty⟩
    pathText "none".toList ws =
        "none[ 'b\\''][ -9223372036854775808: 9223372036854775807][-1 ].c".toList ∧
      evaluate s (pathText "none".toList ws) = .bool true ∧
      evaluate s (pathText "none".toList vs) = .bool true := by
  intro outermost last ws vs s
  have hroot : Text.isIdentifier "none".toList = true := by decide
  let steps : List (Step Empty) := [.key "b'".toList,
    .slice (some (-9223372036854775808)) (some 9223372036854775807), .index (-1),
    .key "c".toList]
  have hsteps : steps ≠ [] := List.cons_ne_nil _ _
  have hpick : steps.foldl Value.pick ((s.vars.get? "none".toList).getD .null) = .bool true := by
    rfl
  have hws : ws.map WrittenStep.step = steps := rfl
  have hvs : vs.map WrittenStep.step = steps := rfl
  refine ⟨by decide +kernel, ?_, ?_⟩
  · exact (evaluate_spelled s hroot (.inl hsteps) hws).trans hpick
  · exact (evaluate_spelled s hroot (.inl hsteps) hvs).trans hpick

end PromptTemplate
