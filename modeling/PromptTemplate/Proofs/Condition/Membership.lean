import Mathlib.Data.List.Basic
import PromptTemplate.Proofs.Condition.RoundTrip
import PromptTemplate.Proofs.Expression.Joining
import PromptTemplate.Proofs.Expression.Literal
import PromptTemplate.Template.Rendering

/-!
# Membership

A membership is read in two ways. The condition of a branch is cut at `in` or at
`not in`; an expression, be it interpolated or assigned, is cut at `in` only, and
looks for the value of all that stands before it. The two agree on `in`. Before
the `in` of a `not in` there stand an operand and a `not`, which together are no
expression, so an expression looks for null.
-/

namespace PromptTemplate

open Nesting

/-!
### Words in expressions
-/

/-- A word in which an expression is cut neither into stages nor into joined operands. -/
structure IsTerm (w : Text) : Prop extends IsWord w where
  uncut : '|' ∉ State.start.visible w ∧ '+' ∉ State.start.visible w

theorem isTerm_in : IsTerm "in".toList := ⟨Condition.isKeyword_in.isWord, by decide⟩

theorem isTerm_not : IsTerm "not".toList := ⟨Condition.isKeyword_not.isWord, by decide⟩

/-- An operand is not cut. -/
theorem Condition.Operand.isTerm (o : Operand) : IsTerm o.text := by
  refine ⟨o.isWord, fun hbar => ?_, fun hplus => ?_⟩
  · exact absurd (o.char_of_mem_visible hbar) (by decide)
  · exact absurd (o.char_of_mem_visible hplus) (by decide)

section

variable {ws : List Text}

/-- Several words show the space behind the first one. -/
theorem Nesting.space_mem_visible_unwords (h : ∀ w ∈ ws, IsWord w) (two : 2 ≤ ws.length) :
    ' ' ∈ State.start.visible (unwords ws) := by
  match ws, two with
  | w :: v :: ws, _ =>
    rw [visible_unwords h, List.map_cons, List.map_cons, unwords_cons (List.cons_ne_nil _ _)]
    exact List.mem_append_right _ List.mem_cons_self

/-- Terms in a row are not cut. -/
theorem IsTerm.uncut_unwords (h : ∀ w ∈ ws, IsTerm w) :
    '|' ∉ State.start.visible (unwords ws) ∧ '+' ∉ State.start.visible (unwords ws) := by
  have hwords : ∀ w ∈ ws, IsWord w := fun w hw => (h w hw).toIsWord
  constructor
  · exact Condition.not_mem_visible_unwords hwords (by decide) fun w hw => (h w hw).uncut.1
  · exact Condition.not_mem_visible_unwords hwords (by decide) fun w hw => (h w hw).uncut.2

/-- Several terms are a membership, a call or no expression. -/
theorem Form.ofText_unwords (h : ∀ w ∈ ws, IsTerm w) (two : 2 ≤ ws.length) :
    ofText (unwords ws) =
      match breakWord "in".toList (unwords ws) with
      | some (needle, haystack) => .member needle haystack
      | none => (Call.read? (unwords ws)).elim .unknown .call := by
  have hwords : ∀ w ∈ ws, IsWord w := fun w hw => (h w hw).toIsWord
  have hspace : ' ' ∈ State.start.visible (unwords ws) := space_mem_visible_unwords hwords two
  have hform : ofText (unwords ws) = ofCompound (unwords ws) := by
    have htrim := trim_unwords hwords
    rw [ofText_of_separator (c := ' ') (by decide) (by rwa [htrim]), htrim]
  have hpipe : split '|' (unwords ws) = [unwords ws] :=
    State.split_eq_singleton (IsTerm.uncut_unwords h).1
  have hpath : Path.read? (unwords ws) = none := Path.read?_of_visible (by decide) hspace
  rw [hform, ofCompound, hpipe]
  cases breakWord "in".toList (unwords ws) with
  | some found => rfl
  | none =>
    cases Call.read? (unwords ws) with
    | some c => rfl
    | none =>
      simp only [hpath]
      rfl

/-- What is looked for is the value of all the terms before the first `in`. -/
theorem evaluate_unwords_in (hne : ws ≠ []) (h : ∀ w ∈ ws, IsTerm w) (hin : "in".toList ∉ ws)
    (s : Scope) {haystack : Text} (hhaystack : IsTerm haystack) :
    evaluate s (unwords (ws ++ ["in".toList, haystack])) =
      .bool ((evaluate s haystack).contains (evaluate s (unwords ws))) := by
  have hterms : ∀ w ∈ ws ++ ["in".toList, haystack], IsTerm w := by
    simp only [List.mem_append, List.mem_pair]
    rintro w (hw | rfl | rfl)
    · exact h w hw
    · exact isTerm_in
    · exact hhaystack
  have two : 2 ≤ (ws ++ ["in".toList, haystack]).length := by
    rw [List.length_append]
    exact Nat.le_add_left 2 _
  have hbreak : breakWord "in".toList (unwords (ws ++ ["in".toList, haystack])) =
      some (unwords ws ++ [' '], ' ' :: haystack) := by
    rw [unwords_append hne (List.cons_ne_nil _ _), unwords_cons (List.cons_ne_nil _ _),
      unwords_singleton]
    exact breakWord_eq_some Condition.isKeyword_in hne (fun w hw => (h w hw).toIsWord) hin none _
  have hneedle : evaluate s (unwords ws ++ [' ']) = evaluate s (unwords ws) :=
    evaluate_congr_trim (Text.trim_append_of_blank rfl _) s
  have hbehind : evaluate s (' ' :: haystack) = evaluate s haystack :=
    evaluate_congr_trim (Text.trim_cons_of_blank rfl _) s
  rw [evaluate_eq, Form.ofText_unwords hterms two, hbreak]
  simp only [Form.eval, hneedle, hbehind]

end

/-- An operand with a `not` behind it is no expression. -/
theorem evaluate_operand_not (s : Scope) (o : Condition.Operand) :
    evaluate s (unwords [o.text, "not".toList]) = .null := by
  have hterms : ∀ w ∈ [o.text, "not".toList], IsTerm w := by
    simp only [List.mem_pair]
    rintro w (rfl | rfl)
    · exact o.isTerm
    · exact isTerm_not
  have hin : "in".toList ∉ [o.text, "not".toList] := by
    rw [List.mem_pair, not_or]
    exact ⟨fun h => o.text_not_reserved (h ▸ by decide), by decide⟩
  have hmember : breakWord "in".toList (unwords [o.text, "not".toList]) = none :=
    breakWord_eq_none Condition.isKeyword_in (List.cons_ne_nil _ _)
      (fun w hw => (hterms w hw).toIsWord) hin none
  have hcall : Call.read? (unwords [o.text, "not".toList]) = none := by
    have hlast : (unwords [o.text, "not".toList]).getLast? = some 't' := by
      rw [unwords_cons (List.cons_ne_nil _ _), unwords_singleton, List.getLast?_append]
      rfl
    exact Call.read?_eq_none (by rw [hlast]; decide)
  rw [evaluate_eq, Form.ofText_unwords hterms (Nat.le_refl 2), hmember, hcall]
  rfl

/-!
### Markers
-/

/-- What the markers that hold a text make of it: the branch that is rendered, the value of the
text as an expression, the output of an interpolation and the value that is assigned. -/
structure Scope.Decides (s : Scope) (t : Text) (inCondition inExpression : Bool) : Prop where
  condition : ∃ c, Condition.read t = .ok c ∧ c.holds s = inCondition ∧
    ∀ options children otherwise,
      (Node.branch c children otherwise).render s.registry options s.vars =
        renderAll s.registry options (if inCondition then children else otherwise) s.vars
  value : evaluate s t = .bool inExpression
  interpolated : ∀ options trim, (Node.interpolation t trim).render s.registry options s.vars =
    ⟨.ok (trim.apply (Value.bool inExpression).toText), s.vars⟩
  assigned : ∀ options name, (Node.assign name t).render s.registry options s.vars =
    ⟨.ok [], s.vars.insert name (.bool inExpression)⟩

/-- The condition and the value of terms decide what the markers make of them. -/
theorem Scope.Decides.of_terms {s : Scope} {ws : List Text} (h : ∀ w ∈ ws, IsTerm w)
    {c : Condition} (hread : Condition.read (unwords ws) = .ok c) {inExpression : Bool}
    (hvalue : evaluate s (unwords ws) = .bool inExpression) :
    s.Decides (unwords ws) (c.holds s) inExpression := by
  have hjoined : evaluateJoined s (unwords ws) = .bool inExpression := by
    rw [evaluateJoined_of_single (IsTerm.uncut_unwords h).2, hvalue]
  refine ⟨⟨c, hread, rfl, fun options children otherwise => ?_⟩, hvalue,
    fun options trim => ?_, fun options name => ?_⟩
  · rw [Node.render]
    cases c.holds s <;> rfl
  · rw [Node.render, hjoined]
  · rw [Node.render, hjoined]

namespace Condition

/-- A membership holds if the value on its right contains that on its left. -/
theorem holds_member (s : Scope) (l r : Operand) :
    (Condition.binary .member (.literal l.text) (.literal r.text)).holds s =
      (evaluate s r.text).contains (evaluate s l.text) := by
  have hvalue (o : Operand) : evaluateJoined s o.text = evaluate s o.text :=
    evaluateJoined_of_single o.isTerm.uncut.2 s
  rw [holds, operand, operand, hvalue, hvalue]

/-- A comparison whose own words end with `in` is read as a condition, and as an expression it
looks for the value of all the words before that `in`. -/
theorem decides_compare {c : Comparison} (more : List Text)
    (hc : c.words = more ++ ["in".toList]) (hmore : ∀ w ∈ more, IsTerm w)
    (hin : "in".toList ∉ more) (s : Scope) (l r : Operand) :
    s.Decides (Spelling.compare c l r).text ((c.condition l.text r.text).holds s)
      ((evaluate s r.text).contains (evaluate s (unwords (l.text :: more)))) := by
  have hneedle : ∀ w ∈ l.text :: more, IsTerm w := List.forall_mem_cons.2 ⟨l.isTerm, hmore⟩
  have hmem : "in".toList ∉ l.text :: more := by
    rw [List.mem_cons, not_or]
    exact ⟨fun h => l.text_not_reserved (h ▸ by decide), hin⟩
  have hwords : (Spelling.compare c l r).words = l.text :: more ++ ["in".toList, r.text] := by
    rw [Spelling.words, hc, List.append_assoc]
    rfl
  have hterms : ∀ w ∈ (Spelling.compare c l r).words, IsTerm w := by
    rw [hwords]
    simp only [List.mem_append, List.mem_pair]
    rintro w (hw | rfl | rfl)
    · exact hneedle w hw
    · exact isTerm_in
    · exact r.isTerm
  have hvalue := evaluate_unwords_in (List.cons_ne_nil l.text more) hneedle hmem s r.isTerm
  rw [← hwords] at hvalue
  exact .of_terms hterms (Spelling.reads_compare c l r) hvalue

/-- A membership with `in` is the same in every marker. With `not in` the condition of a branch is
its negation, but an expression looks for null. -/
theorem membership_of_operands (s : Scope) (l r : Operand) :
    let found := (evaluate s r.text).contains (evaluate s l.text)
    s.Decides (l.text ++ " in ".toList ++ r.text) found found ∧
      s.Decides (l.text ++ " not in ".toList ++ r.text) (!found)
        ((evaluate s r.text).contains .null) := by
  intro found
  constructor
  · have htext : l.text ++ " in ".toList ++ r.text = (Spelling.compare .member l r).text := by
      rw [text_compare l r (c := .member) rfl, List.append_assoc]
      rfl
    have hdecides := decides_compare (c := .member) [] rfl nofun List.not_mem_nil s l r
    rw [unwords_singleton, Comparison.condition, holds_member] at hdecides
    rw [htext]
    exact hdecides
  · have htext : l.text ++ " not in ".toList ++ r.text =
        (Spelling.compare .notMember l r).text := by
      change _ = unwords [l.text, "not".toList, "in".toList, r.text]
      rw [unwords_cons (List.cons_ne_nil _ _), unwords_cons (List.cons_ne_nil _ _),
        unwords_cons (List.cons_ne_nil _ _), unwords_singleton, List.append_assoc]
      rfl
    have hdecides := decides_compare (c := .notMember) ["not".toList] rfl
      (List.forall_mem_singleton.2 isTerm_not) (by decide) s l r
    rw [evaluate_operand_not, Comparison.condition, holds, holds_member] at hdecides
    rw [htext]
    exact hdecides

/-- The letter is in the text, so `not in` does not hold of them, but evaluates to true. -/
theorem not_forall_membership_of_operands :
    ¬ ∀ (s : Scope) (l r : Operand) (c : Condition),
      read (l.text ++ " not in ".toList ++ r.text) = .ok c →
        evaluate s (l.text ++ " not in ".toList ++ r.text) = .bool (c.holds s) := by
  intro h
  let s : Scope := ⟨[], Registry.empty⟩
  have hbody : ∀ c ∈ ['a', 'b', 'c'], c ≠ '\'' ∧ c ≠ '\\' := by simp
  let letter : Operand := .quoted ⟨'\'', ['a'], rfl, List.forall_mem_singleton.2 (by decide)⟩
  let text : Operand := .quoted ⟨'\'', ['a', 'b', 'c'], rfl, hbody⟩
  have hletter : evaluate s letter.text = .string ['a'] :=
    evaluate_of_read? (q := '\'') rfl s
  have htext : evaluate s text.text = .string ['a', 'b', 'c'] :=
    evaluate_of_read? (q := '\'') rfl s
  have hdecides := decides_compare (c := .notMember) ["not".toList] rfl
    (List.forall_mem_singleton.2 isTerm_not) (by decide) s letter text
  rw [evaluate_operand_not, Comparison.condition, holds, holds_member, hletter, htext] at hdecides
  obtain ⟨c, hread, hholds, -⟩ := hdecides.condition
  have hvalue := hdecides.value.symm.trans (h s letter text c hread)
  rw [hholds, Value.bool.injEq] at hvalue
  exact absurd hvalue (by decide)

end Condition

end PromptTemplate
