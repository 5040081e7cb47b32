import PromptTemplate.Proofs.Expression.Evaluation
import PromptTemplate.Proofs.Nesting.Words

/-!
# Values of literals

A text that is one literal from end to end is an expression of its own: its
value is what the literal means in every scope, whether plus signs join operands
or not, since a plus sign inside it joins nothing.
-/

namespace PromptTemplate

variable {t v : Text} {q : Char}

/-- A literal begins and ends with a quote, so there is nothing to trim. -/
theorem Literal.trim_of_read? (h : Literal.read? t = some (q, v)) : Text.trim t = t := by
  obtain ⟨hq, body, -, rfl⟩ := Literal.eq_of_read? h
  have hblank : Text.isBlank q = false := (Nesting.isPlain_of_isQuote hq).2
  have hlast : (q :: (body ++ [q])).getLast? = some q := by
    rw [← List.cons_append, List.getLast?_concat]
  exact Text.trim_eq_self rfl hblank hlast hblank

/-- The value of a literal is its meaning. -/
theorem evaluate_of_read? (h : Literal.read? t = some (q, v)) (s : Scope) :
    evaluate s t = .string v := by
  rw [evaluate_eq, Form.ofText, Literal.trim_of_read? h, Form.ofTrimmed, Form.readLiteral?, h]
  rfl

/-- A literal is a single operand. -/
theorem evaluateJoined_of_read? (h : Literal.read? t = some (q, v)) (s : Scope) :
    evaluateJoined s t = .string v := by
  obtain ⟨hq, -⟩ := Literal.eq_of_read? h
  have hsplit : Nesting.split '+' t = [t] := by
    refine Nesting.State.split_eq_singleton ?_
    rw [(Nesting.scan_of_read? h).2, List.mem_singleton]
    rintro rfl
    exact absurd hq (by decide)
  rw [evaluateJoined, hsplit]
  exact evaluate_of_read? h s

end PromptTemplate
