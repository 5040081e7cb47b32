import PromptTemplate.Proofs.Template.Grammar
import PromptTemplate.Template.Rendering

/-!
# Chains of conditions

Behind an `if` any number of further conditions may stand, each behind an `elif`,
and one end tag closes them all. Such a chain renders as the branch of the first
condition that holds: the conditions before it have no say in what the branch
does, and those behind it are not asked. It is the same template as the one in
which every further condition is an `if` of its own in the otherwise part of the
one before, with an end tag of its own.
-/

namespace PromptTemplate

namespace Chain

/-- Tokens that make up nodes on their own. -/
structure Part where
  tokens : List Token
  nodes : List Node
  complete : Template.ofTokens tokens = .ok nodes

/-- A part with the text of a condition before it that is accepted. -/
structure Branch extends Part where
  text : Text
  condition : Condition
  accepted : Condition.read text = .ok condition

theorem Part.derives (part : Part) : Grammar.Derives part.tokens part.nodes :=
  Assembly.derives_of_ofTokens part.complete

/-- The tokens of an otherwise part, if there is one. -/
def otherwiseTokens : Option Part → List Token
  | none => []
  | some part => .terminator .otherwise :: part.tokens

/-- The nodes of an otherwise part, none if there is no such part. -/
def otherwiseNodes : Option Part → List Node
  | none => []
  | some part => part.nodes

/-- A chain: every further branch stands behind an `elif`. -/
def tokens (first : Branch) (later : List Branch) (otherwise : Option Part) : List Token :=
  .ifStart first.text :: (first.tokens ++
    later.flatMap (fun branch => .terminator (.elseIf branch.text) :: branch.tokens) ++
    otherwiseTokens otherwise ++ [.terminator .endIf])

/-- The chain with an `else` and an `if` in place of every `elif`, and an end tag for
each of them. -/
def nestedTokens (first : Branch) (later : List Branch) (otherwise : Option Part) : List Token :=
  .ifStart first.text :: (first.tokens ++
    later.flatMap (fun branch =>
      .terminator .otherwise :: .ifStart branch.text :: branch.tokens) ++
    otherwiseTokens otherwise ++ List.replicate (later.length + 1) (.terminator .endIf))

/-- The node of a chain: each further branch in the otherwise part of the one before. -/
def node (first : Branch) (later : List Branch) (otherwise : List Node) : Node :=
  match later with
  | [] => .branch first.condition first.nodes otherwise
  | next :: later => .branch first.condition first.nodes [node next later otherwise]

/-- A chain derives its node. -/
theorem derivesNode_tokens (first : Branch) (later : List Branch) (otherwise : Option Part) :
    Grammar.DerivesNode (tokens first later otherwise)
      (node first later (otherwiseNodes otherwise)) := by
  induction later generalizing first with
  | nil =>
    cases otherwise with
    | none =>
      have hnode := Grammar.DerivesNode.ifEnd first.accepted first.derives
      simpa only [tokens, node, otherwiseTokens, otherwiseNodes, List.flatMap_nil,
        List.append_nil] using hnode
    | some part =>
      have hnode := Grammar.DerivesNode.ifElse first.accepted first.derives part.derives
      simpa only [tokens, node, otherwiseTokens, otherwiseNodes, List.flatMap_nil,
        List.append_nil, List.append_assoc, List.cons_append] using hnode
  | cons next later ih =>
    have hnode := Grammar.DerivesNode.ifElseIf first.accepted first.derives (ih next)
    simpa only [tokens, node, List.flatMap_cons, List.append_assoc, List.cons_append] using hnode

/-- The chain with nested conditionals derives the same node. -/
theorem derivesNode_nestedTokens (first : Branch) (later : List Branch)
    (otherwise : Option Part) :
    Grammar.DerivesNode (nestedTokens first later otherwise)
      (node first later (otherwiseNodes otherwise)) := by
  induction later generalizing first with
  | nil => exact derivesNode_tokens first [] otherwise
  | cons next later ih =>
    have hnode := Grammar.DerivesNode.ifElse first.accepted first.derives (ih next).single
    -- The last of the end tags is that of the outermost conditional.
    have hend : List.replicate ((next :: later).length + 1) (Token.terminator .endIf) =
        List.replicate (later.length + 1) (.terminator .endIf) ++ [.terminator .endIf] :=
      List.replicate_succ'
    simpa only [nestedTokens, node, hend, List.flatMap_cons, List.append_assoc,
      List.cons_append] using hnode

/-- The node of a chain renders as the first branch whose condition holds, and as the
otherwise part if none does. -/
theorem render_node (r : Registry) (o : Options) (c : Context) (first : Branch)
    (later : List Branch) (otherwise : List Node) :
    (node first later otherwise).render r o c =
      match (first :: later).find? fun branch => branch.condition.holds ⟨c, r⟩ with
      | some branch => renderAll r o branch.nodes c
      | none => renderAll r o otherwise c := by
  induction later generalizing first with
  | nil =>
    rw [List.find?_cons, node, Node.render]
    cases first.condition.holds ⟨c, r⟩ with
    | true => rfl
    | false => rfl
  | cons next later ih =>
    rw [List.find?_cons, node, Node.render, renderAll_singleton, ih next]
    cases first.condition.holds ⟨c, r⟩ with
    | true => rfl
    | false => rfl

end Chain

/-- A chain of conditions with any number of further branches, with an otherwise part or
without, makes up a template, the same as with nested conditionals. In every context it has
the outcome of the first branch whose condition holds there, and of the otherwise part, or
of no nodes at all, if none does. -/
theorem chain_selects_first (first : Chain.Branch) (later : List Chain.Branch)
    (otherwise : Option Chain.Part) :
    ∃ template, Template.ofTokens (Chain.tokens first later otherwise) = .ok template ∧
      Template.ofTokens (Chain.nestedTokens first later otherwise) = .ok template ∧
      ∀ r o c, renderAll r o template c =
        match (first :: later).find? fun branch => branch.condition.holds ⟨c, r⟩ with
        | some branch => renderAll r o branch.nodes c
        | none => renderAll r o (Chain.otherwiseNodes otherwise) c := by
  refine ⟨[Chain.node first later (Chain.otherwiseNodes otherwise)], ?_, ?_, fun r o c => ?_⟩
  · exact Assembly.ofTokens_of_derives (Chain.derivesNode_tokens first later otherwise).single
  · exact Assembly.ofTokens_of_derives (Chain.derivesNode_nestedTokens first later otherwise).single
  · rw [renderAll_singleton]
    exact Chain.render_node r o c first later (Chain.otherwiseNodes otherwise)

/-- The second of three conditions decides, although the third holds as well; the first branch
would raise. -/
theorem chain_selects_first_of_second :
    let text (t : String) : Node := .text t.toList ⟨false, false⟩
    let first : Chain.Branch :=
      ⟨⟨[.raise "no".toList], [.raise "no".toList], rfl⟩, "x".toList, .literal "x".toList,
        by with_unfolding_all rfl⟩
    let second : Chain.Branch :=
      ⟨⟨[.text "b".toList ⟨false, false⟩, .assign "x".toList "y".toList],
          [text "b", .assign "x".toList "y".toList], rfl⟩,
        "not x".toList, .not (.literal "x".toList), by with_unfolding_all rfl⟩
    let third : Chain.Branch :=
      ⟨⟨[.text "c".toList ⟨false, false⟩], [text "c"], rfl⟩, "y".toList, .literal "y".toList,
        by with_unfolding_all rfl⟩
    let c : Context := [("y".toList, .bool true)]
    ∃ template, Template.ofTokens (Chain.tokens first [second, third] none) = .ok template ∧
      renderAll Registry.empty Options.standard template c =
        ⟨.ok "b".toList, [("y".toList, .bool true), ("x".toList, .bool true)]⟩ := by
  intro text first second third c
  obtain ⟨template, hparse, -, hrender⟩ := chain_selects_first first [second, third] none
  refine ⟨template, hparse, (hrender Registry.empty Options.standard c).trans ?_⟩
  with_unfolding_all rfl

end PromptTemplate
