import PromptTemplate.Engine
import PromptTemplate.Proofs.Dict
import PromptTemplate.Proofs.Expression.Evaluation
import PromptTemplate.Proofs.Expression.Parts

/-!
# What a template can see of its variables

Evaluation looks up only names that stand in the text of an expression. So two
contexts that agree on all parts of the expressions of a template are the same
to it: assignments, loop variables and sentinels keep the agreement, and the
output or the message of a raise is the same. The order of the variables is
never seen, nor is a variable whose name stands in no expression.
-/

namespace PromptTemplate

/-- Two contexts bind every name that satisfies `P` alike, or both leave it free. -/
def Agree (P : Text → Prop) (c d : Context) : Prop := ∀ x, P x → Dict.get? c x = Dict.get? d x

namespace Agree

variable {P : Text → Prop} {c d : Context}

/-- Binding a name alike keeps the agreement. -/
theorem insert (h : Agree P c d) (x : Text) (v : Value) :
    Agree P (Dict.insert c x v) (Dict.insert d x v) := by
  intro y hy
  by_cases hxy : y = x
  · rw [hxy, Dict.get?_insert_self, Dict.get?_insert_self]
  · rw [Dict.get?_insert_of_ne v hxy, Dict.get?_insert_of_ne v hxy, h y hy]

/-- Fewer names are easier to agree on. -/
theorem mono {Q : Text → Prop} (h : Agree P c d) (hQ : ∀ x, Q x → P x) : Agree Q c d :=
  fun x hx => h x (hQ x hx)

/-- Agreement on a text is agreement on all of its parts. -/
theorem of_isInfix {t u : Text} (h : Agree (· <:+: t) c d) (hu : u <:+: t) :
    Agree (· <:+: u) c d := h.mono fun _ hx => hx.trans hu

end Agree

/-!
### Expressions, conditions and loop sources
-/

section

variable {c d : Context} (r : Registry)

/-- A form whose operands have the same values has the same value, once its name is bound
alike. -/
theorem Form.eval_of_root {ε : Type} {f : Form ε}
    (h : ∀ x, f.root? = some x → Dict.get? c x = Dict.get? d x) (value : ε → Value) :
    f.eval ⟨c, r⟩ value = f.eval ⟨d, r⟩ value := by
  cases f with
  | path p =>
    have hroot := h p.root rfl
    simp only [Form.eval, Path.eval, hroot]
  | literal v => rfl
  | pipe input filters => rfl
  | member needle haystack => rfl
  | call call => rfl
  | unknown => rfl

/-- Contexts that agree on the parts of an expression give it the same value. -/
theorem evaluate_congr {t : Text} (h : Agree (· <:+: t) c d) :
    evaluate ⟨c, r⟩ t = evaluate ⟨d, r⟩ t := by
  -- Operands are shorter than the text, and their parts are parts of it.
  induction hn : t.length using Nat.strongRecOn generalizing t with
  | ind n ih =>
    obtain ⟨hroot, hoperands⟩ := Form.inText_ofText t
    have hvalues : ∀ e ∈ (Form.ofText t).operands,
        evaluate ⟨c, r⟩ e = evaluate ⟨d, r⟩ e := by
      intro e he
      have hlt := Form.length_lt_of_ofText he
      rw [hn] at hlt
      exact ih e.length hlt (h.of_isInfix (hoperands e he)) rfl
    rw [evaluate_eq, evaluate_eq, Form.eval_congr hvalues]
    exact Form.eval_of_root r (fun x hx => h x (hroot x hx)) _

/-- Contexts that agree on the parts of an expression join its operands alike. -/
theorem evaluateJoined_congr {t : Text} (h : Agree (· <:+: t) c d) :
    evaluateJoined ⟨c, r⟩ t = evaluateJoined ⟨d, r⟩ t := by
  have hparts : ∀ part ∈ Nesting.split '+' t,
      evaluate ⟨c, r⟩ part = evaluate ⟨d, r⟩ part := fun part hp =>
    evaluate_congr r (h.of_isInfix (Nesting.State.isInfix_of_mem_split hp))
  unfold evaluateJoined
  split
  · exact evaluate_congr r h
  · rw [List.flatMap_def, List.flatMap_def]
    have hmap := List.map_congr_left fun part hp => congrArg Value.toText (hparts part hp)
    rw [hmap]

/-- Steps with operands of the same values find the same. -/
theorem Step.findAll_congr {ε : Type} {value other : ε → Value} {steps : List (Step ε)}
    (h : ∀ e ∈ steps.flatMap Step.operands, value e = other e) (v : Value) :
    Step.findAll value v steps = Step.findAll other v steps := by
  induction steps generalizing v with
  | nil => rfl
  | cons step steps ih =>
    simp only [List.flatMap_cons, List.mem_append] at h
    have hselect := Step.select_congr (fun e he => h e (.inl he)) v
    have hfinds : step.finds value v = step.finds other v := by
      unfold Step.finds
      split <;> simp only [hselect]
    simp only [Step.findAll, hselect, hfinds, ih fun e he => h e (.inr he)]

/-- Contexts that agree on the parts of a path find the same at its end. -/
theorem isDefined_congr {t : Text} (h : Agree (· <:+: t) c d) :
    isDefined ⟨c, r⟩ t = isDefined ⟨d, r⟩ t := by
  unfold isDefined
  cases hp : Path.read? (Text.trim t) with
  | none => rfl
  | some p =>
    obtain ⟨hroot, hoperands⟩ := Path.isInfix_of_read? hp
    have htrim := h.of_isInfix (Text.trim_isInfix t)
    have hvalues : ∀ e ∈ p.operands, evaluate ⟨c, r⟩ e = evaluate ⟨d, r⟩ e :=
      fun e he => evaluate_congr r (htrim.of_isInfix (hoperands e he))
    simp only [htrim p.root hroot]
    cases Dict.get? d p.root with
    | none => rfl
    | some v => exact Step.findAll_congr hvalues v

end

/-- The texts of the expressions of a condition. -/
def Condition.texts : Condition → List Text
  | .literal expression => [expression]
  | .not child => child.texts
  | .binary _ left right => left.texts ++ right.texts
  | .isDefined expression => [expression]
  | .isNotNone expression => [expression]

/-- The text of the expression of a loop source. -/
def LoopSource.texts : LoopSource → List Text
  | .expression text => [text]
  | .slice inner _ _ => inner.texts

/-- Contexts that agree on the parts of every expression of a condition give it the same
truth. -/
theorem Condition.holds_congr {c d : Context} (r : Registry) {condition : Condition}
    (h : ∀ t ∈ condition.texts, Agree (· <:+: t) c d) :
    condition.holds ⟨c, r⟩ = condition.holds ⟨d, r⟩ := by
  have hoperand {side : Condition} (hs : ∀ t ∈ side.texts, Agree (· <:+: t) c d)
      (ht : side.holds ⟨c, r⟩ = side.holds ⟨d, r⟩) :
      operand ⟨c, r⟩ side (fun _ => side.holds ⟨c, r⟩) =
        operand ⟨d, r⟩ side (fun _ => side.holds ⟨d, r⟩) := by
    cases side with
    | literal expression => exact evaluateJoined_congr r (hs expression List.mem_cons_self)
    | not child => exact congrArg Value.bool ht
    | binary op left right => exact congrArg Value.bool ht
    | isDefined expression => exact congrArg Value.bool ht
    | isNotNone expression => exact congrArg Value.bool ht
  induction condition with
  | literal expression =>
    simp only [holds, evaluate_congr r (h expression List.mem_cons_self)]
  | not child ih => simp only [holds, ih h]
  | binary op left right ihl ihr =>
    simp only [texts, List.mem_append] at h
    have hl : ∀ t ∈ left.texts, Agree (· <:+: t) c d := fun t ht => h t (.inl ht)
    have hr : ∀ t ∈ right.texts, Agree (· <:+: t) c d := fun t ht => h t (.inr ht)
    cases op with
    | and => simp only [holds, ihl hl, ihr hr]
    | or => simp only [holds, ihl hl, ihr hr]
    | equal => simp only [holds, hoperand hl (ihl hl), hoperand hr (ihr hr)]
    | unequal => simp only [holds, hoperand hl (ihl hl), hoperand hr (ihr hr)]
    | member => simp only [holds, hoperand hl (ihl hl), hoperand hr (ihr hr)]
  | isDefined expression =>
    simp only [holds, isDefined_congr r (h expression List.mem_cons_self)]
  | isNotNone expression =>
    simp only [holds, evaluate_congr r (h expression List.mem_cons_self)]

/-- Contexts that agree on the parts of the expression of a loop source give it the same
items. -/
theorem LoopSource.items_congr {c d : Context} (r : Registry) {source : LoopSource}
    (h : ∀ t ∈ source.texts, Agree (· <:+: t) c d) :
    source.items ⟨c, r⟩ = source.items ⟨d, r⟩ := by
  induction source with
  | expression text => simp only [items, evaluate_congr r (h text List.mem_cons_self)]
  | slice inner start? stop? ih => simp only [items, ih h]

/-!
### Nodes
-/

mutual

/-- The texts of the expressions of a node. -/
def Node.texts : Node → List Text
  | .text _ _ => []
  | .interpolation expression _ => [expression]
  | .branch condition children otherwise =>
    condition.texts ++ (textsOf children ++ textsOf otherwise)
  | .loop _ source children => source.texts ++ textsOf children
  | .assign _ expression => [expression]
  | .raise _ => []

/-- The texts of the expressions of nodes. -/
def textsOf : List Node → List Text
  | [] => []
  | n :: ns => n.texts ++ textsOf ns

end

/-- Two outcomes that are the same to what comes behind: the same output or message, and
contexts that agree. -/
structure Outcome.Alike (P : Text → Prop) (a b : Outcome) : Prop where
  result : a.result = b.result
  context : Agree P a.context b.context

variable {P : Text → Prop} (r : Registry) (o : Options)

mutual

/-- A node keeps contexts alike that agree on all parts of its expressions. -/
theorem Node.render_alike (n : Node) {c d : Context} (hn : ∀ t ∈ n.texts, ∀ x, x <:+: t → P x)
    (h : Agree P c d) : (n.render r o c).Alike P (n.render r o d) := by
  match n with
  | .text value trim => exact ⟨rfl, h⟩
  | .interpolation expression trim =>
    have heval := evaluateJoined_congr r (h.mono (hn expression List.mem_cons_self))
    refine ⟨?_, h⟩
    simp only [Node.render, heval]
  | .branch condition children otherwise =>
    simp only [Node.texts, List.mem_append] at hn
    have hholds : condition.holds ⟨c, r⟩ = condition.holds ⟨d, r⟩ :=
      Condition.holds_congr r fun t ht => h.mono (hn t (.inl ht))
    simp only [Node.render, hholds]
    split
    · exact renderAll_alike children (fun t ht => hn t (.inr (.inl ht))) h
    · exact renderAll_alike otherwise (fun t ht => hn t (.inr (.inr ht))) h
  | .loop item source children =>
    simp only [Node.texts, List.mem_append] at hn
    have hitems : source.items ⟨c, r⟩ = source.items ⟨d, r⟩ :=
      LoopSource.items_congr r fun t ht => h.mono (hn t (.inl ht))
    -- Every iteration starts from copies that still agree, whatever the item.
    have hbody (value : Value) (index length : Nat) :
        (renderAll r o children (iterationContext c item value index length)).result =
          (renderAll r o children (iterationContext d item value index length)).result :=
      (renderAll_alike children (fun t ht => hn t (.inr ht))
        ((h.insert item value).insert "loop".toList (loopInfo index length))).result
    refine ⟨?_, h⟩
    simp only [Node.render, hitems, hbody]
  | .assign name expression =>
    have heval := evaluateJoined_congr r (h.mono (hn expression List.mem_cons_self))
    refine ⟨rfl, ?_⟩
    simp only [Node.render, heval]
    exact h.insert name _
  | .raise message => exact ⟨rfl, h⟩

/-- Nodes keep contexts alike that agree on all parts of their expressions. -/
theorem renderAll_alike (ns : List Node) {c d : Context}
    (hn : ∀ t ∈ textsOf ns, ∀ x, x <:+: t → P x) (h : Agree P c d) :
    (renderAll r o ns c).Alike P (renderAll r o ns d) := by
  match ns with
  | [] => exact ⟨rfl, h⟩
  | n :: ns =>
    simp only [textsOf, List.mem_append] at hn
    have hfirst := Node.render_alike n (fun t ht => hn t (.inl ht)) h
    cases hc : n.render r o c with
    | mk resultC nextC =>
      cases hd : n.render r o d with
      | mk resultD nextD =>
        rw [hc, hd] at hfirst
        have hresult : resultC = resultD := hfirst.result
        subst hresult
        cases resultC with
        | error e =>
          rw [renderAll_cons_of_error hc, renderAll_cons_of_error hd]
          exact hfirst
        | ok output =>
          have hlater := renderAll_alike ns (fun t ht => hn t (.inr ht)) hfirst.context
          rw [renderAll_cons_of_ok hc, renderAll_cons_of_ok hd]
          exact ⟨congrArg (Except.map (output ++ ·)) hlater.result, hlater.context⟩

end

/-!
### Engines
-/

/-- A sentinel is bound exactly to the function names that the context leaves free. -/
theorem Registry.get?_injectSentinels (c : Context) (x : Text) :
    Dict.get? (r.injectSentinels c) x =
      (Dict.get? c x).or (if x ∈ r.functions.keys then some (.string sentinel) else none) := by
  unfold injectSentinels Dict.keys
  induction r.functions generalizing c with
  | nil => simp
  | cons e rest ih =>
    rw [List.foldl_cons, ih, List.map_cons]
    by_cases hbound : c.contains e.1 = true
    · rw [if_pos hbound]
      by_cases hx : x = e.1
      · have hsome : (Dict.get? c x).isSome = true := hx ▸ hbound
        obtain ⟨v, hv⟩ := Option.isSome_iff_exists.1 hsome
        rw [hv, Option.some_or, Option.some_or]
      · simp only [List.mem_cons, hx, false_or]
    · rw [if_neg hbound]
      by_cases hx : x = e.1
      · have hnone : Dict.get? c e.1 = none :=
          Option.not_isSome_iff_eq_none.1 hbound
        rw [hx, Dict.get?_insert_self, hnone, Option.some_or, Option.none_or,
          if_pos List.mem_cons_self]
      · rw [Dict.get?_insert_of_ne _ hx]
        simp only [List.mem_cons, hx, false_or]

/-- Sentinels keep an agreement. -/
theorem Agree.prepare {c d : Context} (h : Agree P c d) (e : Engine) :
    Agree P (e.prepare c) (e.prepare d) := by
  unfold Engine.prepare
  split
  · intro x hx
    rw [Registry.get?_injectSentinels, Registry.get?_injectSentinels, h x hx]
  · exact h

/-- A template mentions a name if the name is a contiguous part of the text of one of its
expressions. -/
def Template.Mentions (template : Template) (x : Text) : Prop :=
  ∃ t ∈ textsOf template, x <:+: t

instance (template : Template) (x : Text) : Decidable (template.Mentions x) :=
  inferInstanceAs (Decidable (∃ t ∈ textsOf template, x <:+: t))

/-- Contexts that agree on the names that a template mentions are the same to it. -/
theorem Engine.renderTemplate_congr (e : Engine) {template : Template} {c d : Context}
    (h : Agree template.Mentions c d) : e.renderTemplate template c = e.renderTemplate template d :=
  (renderAll_alike e.registry e.options template (fun t ht _ hx => ⟨t, ht, hx⟩)
    (h.prepare e)).result

/-- What a template renders to, output or message, depends only on the values of the names
that it mentions: neither on the order of the variables nor on a variable of another name. -/
theorem renderTemplate_depends_on_mentioned (e : Engine) (template : Template) :
    (∀ c d : Context, (∀ x, template.Mentions x → Dict.get? c x = Dict.get? d x) →
      e.renderTemplate template c = e.renderTemplate template d) ∧
    (∀ c d : Context, c.keys.Nodup → c.Perm d →
      e.renderTemplate template c = e.renderTemplate template d) ∧
    (∀ (c : Context) (x : Text) (v : Value), ¬ template.Mentions x →
      e.renderTemplate template (Dict.insert c x v) = e.renderTemplate template c) := by
  refine ⟨fun c d h => e.renderTemplate_congr h, fun c d hn h => ?_, fun c x v hx => ?_⟩
  · exact e.renderTemplate_congr fun x _ => Dict.get?_of_perm hn h x
  · refine e.renderTemplate_congr fun y hy => Dict.get?_insert_of_ne v ?_
    rintro rfl
    exact hx hy

/-- A loop with a dynamic subscript and an assignment, and a variable that none of them names. -/
theorem renderTemplate_of_reversed_and_unmentioned :
    let template : Template :=
      [.assign "y".toList "x + '!'".toList,
        .loop "i".toList (.slice (.expression "xs[k]".toList) none (some 2))
          [.interpolation "i + y".toList ⟨false, true⟩]]
    let c : Context :=
      [("x".toList, .string "a".toList), ("k".toList, .string "b".toList),
        ("xs".toList, .map [("b".toList, .list [.null, .bool true])])]
    let e : Engine := ⟨Registry.empty, Options.standard⟩
    e.renderTemplate template (Dict.insert c "secret".toList (.string "s".toList)) =
      e.renderTemplate template c.reverse := by
  intro template c e
  obtain ⟨-, horder, hsecret⟩ := renderTemplate_depends_on_mentioned e template
  have hunmentioned : ¬ template.Mentions "secret".toList := by decide +kernel
  have hkeys : c.keys.Nodup := by decide
  have hadded := hsecret c "secret".toList (.string "s".toList) hunmentioned
  have hreversed := horder c c.reverse hkeys (List.reverse_perm c).symm
  exact hadded.trans hreversed

end PromptTemplate
