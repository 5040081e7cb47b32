import PromptTemplate.Proofs.Expression.Pipe

/-!
# Joined operands

Joining is a homomorphism from texts of expressions to the texts of their values.
A plus sign behind a balanced text always ends an operand, so the operands of a
longer expression are those on its left and then those on its right, whatever
stands there. A single operand keeps the kind of its value, which its text does
not tell.
-/

namespace PromptTemplate

open Nesting

variable {s : Scope}

/-- The text of a joined expression is that of its operands, be it one or more. -/
theorem toText_evaluateJoined (s : Scope) (t : Text) :
    (evaluateJoined s t).toText =
      (split '+' t).flatMap fun operand => (evaluate s operand).toText := by
  unfold evaluateJoined
  split
  next operand hsplit =>
    have hwhole : operand = t := by
      have hjoin := State.intercalate_split State.start '+' t
      rw [split] at hsplit
      rwa [hsplit, List.intercalate_singleton] at hjoin
    rw [hsplit, hwhole, List.flatMap_singleton]
  next => rfl

/-- An expression that does not show a plus sign is one operand. -/
theorem evaluateJoined_of_single {t : Text} (h : '+' ∉ State.start.visible t) (s : Scope) :
    evaluateJoined s t = evaluate s t := by
  rw [evaluateJoined, split, State.split_eq_singleton h]

/-- Behind a balanced text a plus sign joins the texts on its two sides. -/
theorem evaluateJoined_append_plus {a : Text} (ha : isBalanced a = true) (s : Scope) (b : Text) :
    evaluateJoined s (a ++ '+' :: b) =
      .string ((evaluateJoined s a).toText ++ (evaluateJoined s b).toText) := by
  have hsplit : split '+' (a ++ '+' :: b) = split '+' a ++ split '+' b :=
    State.split_append rfl (State.run_of_closes ha) b
  have hmany : ∀ operand, split '+' (a ++ '+' :: b) ≠ [operand] := by
    intro operand hone
    have hleft : 0 < (split '+' a).length := List.length_pos_iff.2 (State.split_ne_nil _ _ a)
    have hright : 0 < (split '+' b).length := List.length_pos_iff.2 (State.split_ne_nil _ _ b)
    have hlength := congrArg List.length hone
    rw [hsplit, List.length_append, List.length_singleton] at hlength
    omega
  rw [toText_evaluateJoined, toText_evaluateJoined, ← List.flatMap_append, ← hsplit]
  unfold evaluateJoined
  split
  next operand hone => exact absurd hone (hmany operand)
  next => rfl

/-!
### Missing operands
-/

/-- An operand that is not there: blanks alone, or a path whose root is not bound. -/
def Scope.Missing (s : Scope) (t : Text) : Prop :=
  Text.trim t = [] ∨
    ∃ p, Path.read? (Text.trim t) = some p ∧ Text.trim t ∉ constantWords ∧
      s.vars.get? p.root = none

/-- Blanks alone are no expression. -/
theorem evaluate_of_blank {t : Text} (h : Text.trim t = []) (s : Scope) : evaluate s t = .null := by
  have hform : Form.ofText t = .unknown := by rw [Form.ofText, h]; rfl
  rw [PromptTemplate.evaluate_eq, hform]
  rfl

namespace Scope.Missing

variable {t : Text}

/-- A missing operand is null. -/
theorem evaluate_eq_null (h : s.Missing t) : evaluate s t = .null := by
  rcases h with hblank | ⟨p, hread, hword, hroot⟩
  · exact evaluate_of_blank hblank s
  · have hp := PathText.iff_read?.2 hread
    rw [← evaluate_congr_trim (Text.trim_trim t), hp.evaluate_eq hword, Path.eval, hroot]
    rfl

/-- A missing operand is balanced and shows no plus sign. -/
theorem balanced (h : s.Missing t) : isBalanced t = true ∧ '+' ∉ State.start.visible t := by
  obtain ⟨before, after, hbefore, hafter, ht⟩ := Text.exists_trim t
  have hblanks {u : Text} (hu : ∀ c ∈ u, Text.isBlank c = true) :
      isBalanced u = true ∧ '+' ∉ State.start.visible u :=
    ⟨isBalanced_blanks hu, State.not_mem_visible_blanks rfl hu _⟩
  have hinner : isBalanced (Text.trim t) = true ∧ '+' ∉ State.start.visible (Text.trim t) := by
    rcases h with hblank | ⟨p, hread, -, -⟩
    · rw [hblank]
      exact ⟨rfl, List.not_mem_nil⟩
    · have hp := PathText.iff_read?.2 hread
      exact ⟨hp.balanced, fun hplus => absurd (hp.char_of_mem_visible hplus) (by decide)⟩
  obtain ⟨hfirst, hlast⟩ := And.intro (hblanks hbefore) (hblanks hafter)
  rw [ht, State.visible_append, State.run_of_closes hfirst.1, State.visible_append,
    State.run_of_closes hinner.1]
  refine ⟨isBalanced_append hfirst.1 (isBalanced_append hinner.1 hlast.1), ?_⟩
  simp only [List.mem_append, not_or]
  exact ⟨hfirst.2, hinner.2, hlast.2⟩

/-- A missing operand alone is null. -/
theorem evaluateJoined_eq_null (h : s.Missing t) : evaluateJoined s t = .null := by
  rw [evaluateJoined_of_single h.balanced.2, h.evaluate_eq_null]

end Scope.Missing

/-!
### The laws of joining
-/

/-- Joining is a homomorphism on texts of values. Behind a balanced text a plus sign makes a text
of the texts on its two sides. So it does not matter how operands are grouped, null and a missing
operand add nothing on either side, and a stage of a pipe is applied to the operand that it
stands in and to nothing else. -/
theorem evaluateJoined_append (s : Scope) {a : Text} (ha : isBalanced a = true) :
    (∀ b, evaluateJoined s (a ++ '+' :: b) =
      .string ((evaluateJoined s a).toText ++ (evaluateJoined s b).toText)) ∧
    (∀ b, isBalanced b = true → ∀ c,
      evaluateJoined s (a ++ '+' :: (b ++ '+' :: c)) =
          .string ((evaluateJoined s (a ++ '+' :: b)).toText ++ (evaluateJoined s c).toText) ∧
        evaluateJoined s (a ++ '+' :: (b ++ '+' :: c)) =
          .string ((evaluateJoined s a).toText ++ (evaluateJoined s (b ++ '+' :: c)).toText)) ∧
    (∀ b, evaluateJoined s b = .null ∨ s.Missing b →
      evaluateJoined s (a ++ '+' :: b) = .string (evaluateJoined s a).toText) ∧
    (evaluateJoined s a = .null ∨ s.Missing a →
      ∀ b, evaluateJoined s (a ++ '+' :: b) = .string (evaluateJoined s b).toText) ∧
    ∀ f, '+' ∉ State.start.visible a → '|' ∉ State.start.visible f →
      '+' ∉ State.start.visible f → ∀ b,
        (isBalanced f = true → evaluateJoined s (a ++ '|' :: f ++ '+' :: b) =
          .string ((s.applyStage (evaluate s a) f).toText ++ (evaluateJoined s b).toText)) ∧
        (isBalanced b = true → evaluateJoined s (b ++ '+' :: (a ++ '|' :: f)) =
          .string ((evaluateJoined s b).toText ++ (s.applyStage (evaluate s a) f).toText)) := by
  have hnull {t : Text} (h : evaluateJoined s t = .null ∨ s.Missing t) :
      (evaluateJoined s t).toText = [] := by
    rw [h.elim id Scope.Missing.evaluateJoined_eq_null]
    rfl
  refine ⟨evaluateJoined_append_plus ha s, fun b hb c => ⟨?_, evaluateJoined_append_plus ha s _⟩,
    fun b hb => ?_, fun hnone b => ?_, fun f hplus hbar hfplus b => ?_⟩
  · have hleft : isBalanced (a ++ '+' :: b) = true := isBalanced_append ha hb
    rw [← evaluateJoined_append_plus hleft, List.append_assoc]
    rfl
  · rw [evaluateJoined_append_plus ha, hnull hb, List.append_nil]
  · rw [evaluateJoined_append_plus ha, hnull hnone, List.nil_append]
  have hstage : evaluateJoined s (a ++ '|' :: f) = s.applyStage (evaluate s a) f := by
    have hvisible : '+' ∉ State.start.visible (a ++ '|' :: f) := by
      rw [State.visible_append, State.run_of_closes ha, List.mem_append, not_or]
      refine ⟨hplus, ?_⟩
      rw [State.visible_cons_of_top (isTop_start '|'), List.mem_cons, not_or]
      exact ⟨by decide, hfplus⟩
    rw [evaluateJoined_of_single hvisible, evaluate_append_stage ha hbar]
  refine ⟨fun hf => ?_, fun hb => ?_⟩
  · have hleft : isBalanced (a ++ '|' :: f) = true := isBalanced_append ha hf
    rw [evaluateJoined_append_plus hleft, hstage]
  · rw [evaluateJoined_append_plus hb, hstage]

/-- Plus signs in a literal and in a subscript, a path that is not bound, a stage with an
argument, and an operand that is neither closed nor an expression. -/
theorem evaluateJoined_append_of_quoted_plus :
    let mark (v : Value) (args : Arguments) : Value :=
      .string (v.toText ++ args.positional.flatMap Value.toText)
    let s : Scope := ⟨[("x".toList, .map [("+".toList, .bool true)])],
      Registry.empty.registerFilter "mark".toList [] mark⟩
    let a := "x['+'] ".toList
    let b := " '1+1'".toList
    let c := " none + (".toList
    let missing := " y.z ".toList
    let f := "mark('|+')".toList
    (isBalanced a = true ∧ isBalanced b = true ∧ s.Missing missing ∧ isBalanced missing = true) ∧
      ('+' ∉ State.start.visible a ∧ '|' ∉ State.start.visible f ∧
        '+' ∉ State.start.visible f ∧ isBalanced f = true) ∧
      evaluateJoined s (a ++ '+' :: c) = .string "true".toList ∧
      evaluateJoined s (a ++ '+' :: (b ++ '+' :: c)) = .string "true1+1".toList ∧
      evaluateJoined s (a ++ '+' :: missing) = .string "true".toList ∧
      evaluateJoined s (missing ++ '+' :: b) = .string "1+1".toList ∧
      evaluateJoined s (a ++ '|' :: f ++ '+' :: b) = .string "true|+1+1".toList ∧
      evaluateJoined s (b ++ '+' :: (a ++ '|' :: f)) = .string "1+1true|+".toList := by
  intro mark s a b c missing f
  have ha : isBalanced a = true := by decide
  have hb : isBalanced b = true := by decide
  have hmissing : s.Missing missing := by
    refine .inr ⟨⟨['y'], [.key ['z']]⟩, ?_, by decide, by decide⟩
    with_unfolding_all rfl
  have hplus : '+' ∉ State.start.visible a := by decide
  have hbar : '|' ∉ State.start.visible f := by decide
  have hfplus : '+' ∉ State.start.visible f := by decide
  have hf : isBalanced f = true := by decide
  obtain ⟨hjoin, hgroup, hright, -, hpipe⟩ := evaluateJoined_append s ha
  obtain ⟨-, -, -, hleft, -⟩ := evaluateJoined_append s hmissing.balanced.1
  obtain ⟨hfirst, hlast⟩ := hpipe f hplus hbar hfplus b
  refine ⟨⟨ha, hb, hmissing, hmissing.balanced.1⟩, ⟨hplus, hbar, hfplus, hf⟩,
    (hjoin c).trans ?_, (hgroup b hb c).1.trans ?_, (hright missing (.inr hmissing)).trans ?_,
    (hleft (.inr hmissing) b).trans ?_, (hfirst hf).trans ?_, (hlast hb).trans ?_⟩
  all_goals with_unfolding_all rfl

end PromptTemplate
