import Mathlib.Data.List.Basic
import PromptTemplate.Expression.Evaluation

/-!
# Evaluation by forms

A form has operands, and only their values matter to its value. Operands are
shorter than the text that they are read from, so the value of an expression is
that of its form over the values of its operands, and no text is left out.
-/

namespace PromptTemplate

section

variable {ε : Type} {value other : ε → Value}

/-- Only the values of its operands matter to a step. -/
theorem Step.select_congr {step : Step ε} (h : ∀ e ∈ step.operands, value e = other e)
    (v : Value) : step.select value v = step.select other v := by
  cases step with
  | dynamic operand => exact congrArg v.atValue (h operand List.mem_cons_self)
  | _ => rfl

/-- Only the values of its operands matter to a path. -/
theorem Path.eval_congr {p : Path ε} (h : ∀ e ∈ p.operands, value e = other e)
    (vars : Context) : p.eval vars value = p.eval vars other := by
  have hsteps (v : Value) (step : Step ε) (hstep : step ∈ p.steps) :
      step.select value v = step.select other v :=
    Step.select_congr (fun e he => h e (List.mem_flatMap.2 ⟨step, hstep, he⟩)) v
  rw [eval, eval]
  congr 1
  exact funext fun v => List.foldl_ext _ _ v hsteps

/-- Only the values of its operands matter to a call. -/
theorem Call.eval_congr {c : Call ε} (h : ∀ e ∈ c.operands, value e = other e) :
    c.eval value = c.eval other := by
  refine List.foldl_ext _ _ _ fun args a ha => ?_
  have hoperand : value a.operand = other a.operand := h _ (List.mem_map_of_mem ha)
  cases a with
  | positional operand =>
    exact congrArg (fun v => { args with positional := args.positional ++ [v] }) hoperand
  | keyword name operand =>
    exact congrArg (fun v => { args with keyword := args.keyword.insert name v }) hoperand

/-- Only the values of its operands matter to a form. -/
theorem Form.eval_congr {f : Form ε} (h : ∀ e ∈ f.operands, value e = other e) (s : Scope) :
    f.eval s value = f.eval s other := by
  cases f with
  | literal v => rfl
  | path p => exact Path.eval_congr h _
  | pipe input filters =>
    simp only [operands, List.mem_cons, List.mem_flatMap] at h
    have hstages (v : Value) (c : Call ε) (hc : c ∈ filters) :
        s.registry.applyFilter c.name v (c.eval value) =
          s.registry.applyFilter c.name v (c.eval other) := by
      rw [Call.eval_congr fun e he => h e (.inr ⟨c, hc, he⟩)]
    rw [eval, eval, h input (.inl rfl)]
    exact List.foldl_ext _ _ _ hstages
  | member needle haystack =>
    simp only [operands, List.forall_mem_cons] at h
    rw [eval, eval, h.1, h.2.1]
  | call c => rw [eval, eval, Call.eval_congr h]
  | unknown => rfl

end

/-- The value of an expression is that of its form, made from the values of its operands. -/
theorem evaluate_eq (s : Scope) (t : Text) :
    evaluate s t = (Form.ofText t).eval s (evaluate s) := by
  rw [evaluate]
  exact Form.eval_congr (fun e he => if_pos (Form.length_lt_of_ofText he)) s

end PromptTemplate
