import PromptTemplate.Proofs.Condition.RoundTrip
import PromptTemplate.Proofs.Expression.Joining
import PromptTemplate.Proofs.Template.Grammar
import PromptTemplate.Proofs.Template.Noninterference

/-!
# Naming a condition

An expression may be assigned to a new name and the name be tested in its place.
What is bound is the joined value of the expression and what is tested in place is
its plain value, so the two are the same test for an expression of one operand.
The name that is left behind is seen by no expression that does not mention it.
-/

namespace PromptTemplate

/-!
### Names as conditions
-/

namespace Condition

/-- A text that is not cut anywhere is a test or an expression. -/
theorem read_uncut {t : Text} (h : Readable t) (hgroup : Nesting.stripParens? t = none)
    (hjoiner : ∀ j : Joiner, Nesting.breakWord j.text t = none) (hnot : behindNot? t = none)
    (hcut : cut? t = none) : read t = .ok (ofTest t) := by
  have hone : ∀ j : Joiner, (Nesting.splitWord j.text t).length < 2 :=
    fun j => Nesting.length_splitWord_of_eq_none (hjoiner j)
  rw [h.read_rest hgroup hone, hnot, hcut]
  rfl

section

variable {t : Text} (h : Nesting.IsKeyword t)

include h

/-- A keyword has no blank. -/
theorem not_mem_keyword {c : Char} (hc : Nesting.isPlain c = false) : c ∉ t := by
  intro hmem
  rw [h.plain c hmem] at hc
  cases hc

/-- A keyword is no group. -/
theorem stripParens?_keyword : Nesting.stripParens? t = none := by
  cases t with
  | nil => rfl
  | cons c t =>
    rw [Nesting.stripParens?, if_neg]
    rintro ⟨rfl, -⟩
    exact not_mem_keyword h (c := '(') rfl List.mem_cons_self

/-- A keyword has nothing behind a `not`, also if it is one. -/
theorem behindNot?_keyword : behindNot? t = none := by
  have hfilter : ("not".toList.isPrefixOf? (t ++ [])).filter Nesting.endsWord = none := by
    by_cases ht : t = "not".toList
    · rw [ht]
      rfl
    · exact h.isWord.prefix_filter isKeyword_not ht (.inl rfl)
  rw [List.append_nil] at hfilter
  rw [behindNot?, hfilter]
  rfl

/-- A keyword without the sign of a comparison is not cut. -/
theorem cut?_keyword (hsign : ∀ m, IsSign m → m ∉ t) : cut? t = none :=
  cut?_of_unsigned (fun m hm hmem => hsign m hm (Nesting.State.mem_of_mem_visible hmem))
    (Nesting.breakWord_of_solid isKeyword_in h.isWord.solid)

/-- A keyword is no test. -/
theorem ofTest_keyword : ofTest t = .literal t := by
  have hnone {last : Text} (hblank : ' ' ∈ last) : last.isSuffixOf? t = none := by
    cases hs : last.isSuffixOf? t with
    | none => rfl
    | some before =>
      have hmem : ' ' ∈ t := by
        rw [← List.append_eq_of_isSuffixOf?_eq_some hs]
        exact List.mem_append_right before hblank
      exact absurd hmem (not_mem_keyword h rfl)
  rw [ofTest, hnone (by decide), hnone (by decide), hnone (by decide), hnone (by decide)]

/-- A keyword without the sign of a comparison is read as an expression. -/
theorem read_keyword (hsign : ∀ m, IsSign m → m ∉ t) : read t = .ok (.literal t) := by
  have hread := read_uncut ⟨h.isWord.trim, h.ne_nil, h.isWord.balanced⟩ (stripParens?_keyword h)
    (fun j => Nesting.breakWord_of_solid (isKeyword_joiner j) h.isWord.solid)
    (behindNot?_keyword h) (cut?_keyword h hsign)
  rw [hread, ofTest_keyword h]

end

/-- A name on its own is read as an expression, also if it is a reserved word. -/
theorem read_identifier {t : Text} (h : Text.isIdentifier t = true) :
    read t = .ok (.literal t) := by
  have hchar := Text.isNameChar_of_isIdentifier h
  refine read_keyword ⟨Text.ne_nil_of_isIdentifier h, List.all_eq_true.2 fun c hc => ?_⟩ ?_
  · exact Nesting.isPlain_of_isNameChar (hchar c hc)
  · rintro m (rfl | rfl) hmem
    · exact absurd (hchar _ hmem) (by decide)
    · exact absurd (hchar _ hmem) (by decide)

end Condition

/-- A name has the value that is bound to it. -/
theorem evaluate_identifier {t : Text} (h : Text.isIdentifier t = true) (hword : t ∉ constantWords)
    (c : Context) (r : Registry) (v : Value) : evaluate ⟨Dict.insert c t v, r⟩ t = v := by
  rw [(PathText.root h).evaluate_eq hword, Path.eval, Dict.get?_insert_self]
  rfl

/-!
### Testing the name
-/

/-- The tokens of a conditional with an otherwise part. -/
def conditionalTokens (condition : Text) (a b : List Token) : List Token :=
  .ifStart condition :: (a ++ .terminator .otherwise :: (b ++ [.terminator .endIf]))

/-- A conditional is the branch on its condition. -/
theorem derivesNode_conditionalTokens {condition : Text} {read : Condition} {a b : List Token}
    {children otherwise : List Node} (h : Condition.read condition = .ok read)
    (ha : Template.ofTokens a = .ok children) (hb : Template.ofTokens b = .ok otherwise) :
    Grammar.DerivesNode (conditionalTokens condition a b) (.branch read children otherwise) :=
  .ifElse h (Assembly.derives_of_ofTokens ha) (Assembly.derives_of_ofTokens hb)

/-- A branch renders the nodes that its condition chooses. -/
theorem renderTemplate_branch (engine : Engine) (c : Context) (condition : Condition)
    (children otherwise : List Node) :
    engine.renderTemplate [.branch condition children otherwise] c =
      engine.renderTemplate
        (if condition.holds ⟨engine.prepare c, engine.registry⟩ then children else otherwise) c := by
  rw [Engine.renderTemplate, renderAll_singleton, Node.render]
  split <;> rfl

/-- **Testing a name.** A template that binds a joined value to a new name and tests the name
renders the nodes that the joined value chooses. -/
theorem renderTemplate_named (engine : Engine) (c : Context) {e t : Text}
    {children otherwise : List Node} (ht : Text.isIdentifier t = true) (hword : t ∉ constantWords)
    (hchildren : ¬ Template.Mentions children t) (hotherwise : ¬ Template.Mentions otherwise t) :
    engine.renderTemplate [.assign t e, .branch (.literal t) children otherwise] c =
      engine.renderTemplate
        (if (evaluateJoined ⟨engine.prepare c, engine.registry⟩ e).truthy then children
          else otherwise) c := by
  let r := engine.registry
  let before := engine.prepare c
  let value := evaluateJoined ⟨before, r⟩ e
  let behind : Context := Dict.insert before t value
  have hname : (Condition.literal t).holds ⟨behind, r⟩ = value.truthy := by
    rw [Condition.holds, evaluate_identifier ht hword]
  -- The nodes that are chosen do not see the name.
  have hunseen {nodes : List Node} (hnodes : ¬ Template.Mentions nodes t) :
      (renderAll r engine.options nodes behind).result =
        (renderAll r engine.options nodes before).result := by
    have hagree : Agree (Template.Mentions nodes) behind before := by
      intro x hx
      refine Dict.get?_insert_of_ne value ?_
      rintro rfl
      exact hnodes hx
    exact (renderAll_alike r engine.options nodes (fun u hu _ hx => ⟨u, hu, hx⟩) hagree).result
  have hassign : (Node.assign t e).render r engine.options before = ⟨.ok [], behind⟩ := by
    rw [Node.render]
  have hall : engine.renderTemplate [.assign t e, .branch (.literal t) children otherwise] c =
      (renderAll r engine.options [.branch (.literal t) children otherwise] behind).result := by
    rw [Engine.renderTemplate, renderAll_cons_of_ok hassign]
    exact congrFun Except.map_id _
  rw [hall, renderAll_singleton, Node.render, hname, Engine.renderTemplate]
  cases value.truthy with
  | true => exact hunseen hchildren
  | false => exact hunseen hotherwise

/-- **Naming a condition.** A condition that is an expression may be assigned to a new name that
is tested instead. Both templates are accepted. What chooses between the parts is the value of
the expression in the one and its joined value in the other, so an expression that joins no
operands gives the same output under its name. -/
theorem named_condition (engine : Engine) (c : Context) {e t : Text} {a b : List Token}
    {children otherwise : List Node} (he : Condition.read e = .ok (.literal e))
    (ht : Text.isIdentifier t = true) (hword : t ∉ constantWords)
    (ha : Template.ofTokens a = .ok children) (hb : Template.ofTokens b = .ok otherwise)
    (hchildren : ¬ Template.Mentions children t) (hotherwise : ¬ Template.Mentions otherwise t) :
    ∃ direct named, Template.ofTokens (conditionalTokens e a b) = .ok direct ∧
      Template.ofTokens (.assign t e :: conditionalTokens t a b) = .ok named ∧
      engine.renderTemplate direct c = engine.renderTemplate
        (if (evaluate ⟨engine.prepare c, engine.registry⟩ e).truthy then children
          else otherwise) c ∧
      engine.renderTemplate named c = engine.renderTemplate
        (if (evaluateJoined ⟨engine.prepare c, engine.registry⟩ e).truthy then children
          else otherwise) c ∧
      ('+' ∉ Nesting.State.start.visible e →
        engine.renderTemplate named c = engine.renderTemplate direct c) := by
  have hdirect := (derivesNode_conditionalTokens he ha hb).single
  have hnamed := Grammar.Derives.cons (.assign t e)
    (derivesNode_conditionalTokens (Condition.read_identifier ht) ha hb).single
  have hplain := renderTemplate_branch engine c (.literal e) children otherwise
  have hjoined := renderTemplate_named engine c (e := e) ht hword hchildren hotherwise
  rw [Condition.holds] at hplain
  refine ⟨_, _, Assembly.ofTokens_of_derives hdirect, Assembly.ofTokens_of_derives hnamed, hplain,
    hjoined, fun hplus => ?_⟩
  rw [hjoined, evaluateJoined_of_single hplus, hplain]

/-- A pipe with a plus sign in the argument of its filter, and a name that is a reserved word. -/
theorem named_condition_of_reserved_word :
    let mark (v : Value) (args : Arguments) : Value :=
      .bool (v.toText = args.positional.flatMap Value.toText)
    let engine : Engine :=
      ⟨Registry.empty.registerFilter "same".toList [] mark, Options.standard⟩
    let c : Context := [("x".toList, .string "a+b".toList)]
    let e := "x | same('a+b')".toList
    let yes : Node := .text "yes".toList ⟨false, false⟩
    ∃ direct named,
      Template.ofTokens (conditionalTokens e [.text "yes".toList ⟨false, false⟩]
        [.interpolation "x".toList ⟨false, false⟩]) = .ok direct ∧
      Template.ofTokens (.assign "not".toList e :: conditionalTokens "not".toList
        [.text "yes".toList ⟨false, false⟩] [.interpolation "x".toList ⟨false, false⟩]) =
          .ok named ∧
      engine.renderTemplate named c = engine.renderTemplate [yes] c ∧
      engine.renderTemplate named c = engine.renderTemplate direct c := by
  intro mark engine c e yes
  have he : Condition.read e = .ok (.literal e) := by
    have hreadable : Condition.Readable e := ⟨by decide, by decide, by decide⟩
    have hjoiner : ∀ j : Condition.Joiner, Nesting.breakWord j.text e = none := by
      rintro (_ | _) <;> decide
    exact Condition.read_uncut hreadable (by decide) hjoiner (by decide) (by decide)
  have hyes : Template.ofTokens [.text "yes".toList ⟨false, false⟩] = .ok [yes] := rfl
  have hno : Template.ofTokens [.interpolation "x".toList ⟨false, false⟩] =
      .ok [.interpolation "x".toList ⟨false, false⟩] := rfl
  obtain ⟨direct, named, hdirect, hnamed, -, hjoined, hsame⟩ :=
    named_condition engine c he (t := "not".toList) (by decide) (by decide) hyes hno
      (by decide) (by decide)
  have hvalue : (evaluateJoined ⟨engine.prepare c, engine.registry⟩ e).truthy = true := by
    with_unfolding_all rfl
  rw [hvalue, if_pos rfl] at hjoined
  exact ⟨direct, named, hdirect, hnamed, hjoined, hsame (by decide)⟩

/-- A condition that joins two operands is not tested as its value is under a name. -/
theorem not_forall_named_condition :
    ¬ ∀ (engine : Engine) (c : Context) (e t : Text) (a b : List Token)
        (children otherwise : List Node), Condition.read e = .ok (.literal e) →
      Text.isIdentifier t = true → t ∉ constantWords → ¬ t <:+: e →
      Template.ofTokens a = .ok children → Template.ofTokens b = .ok otherwise →
      ¬ Template.Mentions children t → ¬ Template.Mentions otherwise t →
      ∃ direct named, Template.ofTokens (conditionalTokens e a b) = .ok direct ∧
        Template.ofTokens (.assign t e :: conditionalTokens t a b) = .ok named ∧
        engine.renderTemplate named c = engine.renderTemplate direct c := by
  intro h
  let engine : Engine := ⟨Registry.empty, Options.standard⟩
  let e := "'a' + 'b'".toList
  let yes : Node := .text ['y'] ⟨false, false⟩
  let no : Node := .text ['n'] ⟨false, false⟩
  have he : Condition.read e = .ok (.literal e) := by
    have hreadable : Condition.Readable e := ⟨by decide, by decide, by decide⟩
    have hjoiner : ∀ j : Condition.Joiner, Nesting.breakWord j.text e = none := by
      rintro (_ | _) <;> decide
    exact Condition.read_uncut hreadable (by decide) hjoiner (by decide) (by decide)
  have hyes : Template.ofTokens [.text ['y'] ⟨false, false⟩] = .ok [yes] := rfl
  have hno : Template.ofTokens [.text ['n'] ⟨false, false⟩] = .ok [no] := rfl
  have hnew : ¬ ['t'] <:+: e := fun hi =>
    absurd (hi.subset (List.mem_singleton_self 't')) (by decide)
  obtain ⟨direct, named, hdirect, hnamed, hsame⟩ :=
    h engine [] e ['t'] _ _ [yes] [no] he (by decide) (by decide) hnew hyes hno
      (by decide) (by decide)
  have hbranch := (derivesNode_conditionalTokens he hyes hno).single
  have hassign := Grammar.Derives.cons (.assign ['t'] e)
    (derivesNode_conditionalTokens (Condition.read_identifier (t := ['t']) rfl) hyes hno).single
  obtain rfl := Except.ok.inj (hdirect.symm.trans (Assembly.ofTokens_of_derives hbranch))
  obtain rfl := Except.ok.inj (hnamed.symm.trans (Assembly.ofTokens_of_derives hassign))
  have hjoined : (evaluateJoined ⟨engine.prepare [], engine.registry⟩ e).truthy = true := by
    with_unfolding_all rfl
  have hplain : (Condition.literal e).holds ⟨engine.prepare [], engine.registry⟩ = false := by
    with_unfolding_all rfl
  rw [renderTemplate_named engine [] rfl (by decide) (by decide) (by decide), hjoined,
    renderTemplate_branch, hplain] at hsame
  exact absurd hsame (by decide)

end PromptTemplate
