import PromptTemplate.Template.Rendering

/-!
# What trimming can change

A dash only ever removes inline blanks from the output. Two templates that are
the same but for their trims fail with the same message or have outputs that are
the same but for inline blanks, and they leave the same context: no condition,
assigned value or loop source depends on a dash. So the line breaks and the
visible characters come in the same number and order.
-/

namespace PromptTemplate

namespace Text

/-- What no dash removes: the line breaks and the characters that are not blank, in order. -/
def kept (t : Text) : Text := t.filter fun c => !isBlank c || c == '\n'

/-- A character is either removable or kept. -/
theorem kept_cons (c : Char) (t : Text) :
    kept (c :: t) = if isInlineBlank c then kept t else c :: kept t := by
  have hc : (!isBlank c || c == '\n') = !isInlineBlank c := by
    rw [isInlineBlank, Bool.not_and, bne, Bool.not_not]
  rw [kept, List.filter_cons, hc]
  cases isInlineBlank c with
  | true => rfl
  | false => rfl

@[simp] theorem kept_append (t u : Text) : kept (t ++ u) = kept t ++ kept u :=
  List.filter_append t u

theorem kept_reverse (t : Text) : kept t.reverse = (kept t).reverse := List.filter_reverse

/-- Inline blanks at the start are not kept anyway. -/
theorem kept_dropWhile (t : Text) : kept (t.dropWhile isInlineBlank) = kept t := by
  induction t with
  | nil => rfl
  | cons c t ih =>
    rw [List.dropWhile_cons, kept_cons]
    split
    · exact ih
    · next hc => rw [kept_cons, if_neg hc]

/-- Inline blanks at the end are not kept anyway. -/
theorem kept_dropEndWhile (t : Text) : kept (dropEndWhile isInlineBlank t) = kept t := by
  rw [dropEndWhile, kept_reverse, kept_dropWhile, kept_reverse, List.reverse_reverse]

/-- What is kept of parts with separators are the parts that are kept, with what is kept of
the separator. -/
theorem kept_intercalate (separator : Text) (parts : List Text) :
    kept (separator.intercalate parts) = (kept separator).intercalate (parts.map kept) := by
  induction parts with
  | nil => rfl
  | cons part parts ih =>
    cases parts with
    | nil => rw [List.intercalate_singleton, List.map_singleton, List.intercalate_singleton]
    | cons next parts =>
      rw [List.intercalate_cons_cons, kept_append, kept_append, ih]
      exact List.intercalate_cons_cons.symm

/-- A line break or a character that is not blank stands equally often in texts of which the
same is kept. -/
theorem count_eq_of_kept_eq {t u : Text} (h : kept t = kept u) {c : Char}
    (hc : isBlank c = false ∨ c = '\n') : t.count c = u.count c := by
  have hkept : (!isBlank c || c == '\n') = true := by
    rcases hc with hc | rfl
    · rw [hc]
      rfl
    · rfl
  have hcount (v : Text) : (kept v).count c = v.count c := List.count_filter hkept
  rw [← hcount t, h, hcount u]

end Text

/-- Trimming changes nothing of what is kept. -/
theorem Trim.kept_apply (trim : Trim) (t : Text) : Text.kept (trim.apply t) = Text.kept t := by
  have hstart : Text.kept (if trim.left then t.dropWhile Text.isInlineBlank else t) =
      Text.kept t := by
    split
    · exact Text.kept_dropWhile t
    · rfl
  rw [apply]
  split
  · rw [Text.kept_dropEndWhile, hstart]
  · exact hstart

/-!
### Templates without trims
-/

mutual

/-- A node without its trims. -/
def Node.untrimmed : Node → Node
  | .text value _ => .text value ⟨false, false⟩
  | .interpolation expression _ => .interpolation expression ⟨false, false⟩
  | .branch condition children otherwise =>
    .branch condition (untrimmedAll children) (untrimmedAll otherwise)
  | .loop item source children => .loop item source (untrimmedAll children)
  | .assign name expression => .assign name expression
  | .raise message => .raise message

/-- Nodes without their trims. -/
def untrimmedAll : List Node → List Node
  | [] => []
  | n :: ns => n.untrimmed :: untrimmedAll ns

end

/-- What is kept of the output, and the error and the context as they are. -/
def Outcome.kept (a : Outcome) : Outcome := ⟨a.result.map Text.kept, a.context⟩

/-- Two changes of a result one after the other, in two ways that agree on every value. -/
theorem map_map_congr {ε α β δ γ : Type} {f : α → β} {g : β → γ} {f' : α → δ} {g' : δ → γ}
    (h : ∀ x, g (f x) = g' (f' x)) (a : Except ε α) : (a.map f).map g = (a.map f').map g' := by
  cases a with
  | error e => rfl
  | ok x => exact congrArg Except.ok (h x)

/-- What is kept of several results in order is what is kept of each. -/
theorem mapM_map_eq {ε α β γ : Type} (f : α → Except ε β) (g : β → γ) (items : List α) :
    (items.mapM f).map (List.map g) = items.mapM fun x => (f x).map g := by
  induction items with
  | nil => rfl
  | cons x items ih =>
    rw [List.mapM_cons, List.mapM_cons, ← ih]
    cases f x with
    | error e => rfl
    | ok y =>
      cases items.mapM f with
      | error e => rfl
      | ok ys => rfl

section

variable (r : Registry) (o : Options)

/-- Two runs of which the same is kept, node by node. -/
theorem renderAll_cons_kept {n m : Node} {ns ms : List Node} {c : Context}
    (hfirst : (n.render r o c).kept = (m.render r o c).kept)
    (hlater : ∀ d, (renderAll r o ns d).kept = (renderAll r o ms d).kept) :
    (renderAll r o (n :: ns) c).kept = (renderAll r o (m :: ms) c).kept := by
  cases hn : n.render r o c with
  | mk first next =>
    cases hm : m.render r o c with
    | mk second other =>
      rw [hn, hm] at hfirst
      simp only [Outcome.kept, Outcome.mk.injEq] at hfirst
      obtain ⟨hresult, rfl⟩ := hfirst
      cases first with
      | error e =>
        cases second with
        | error f =>
          rw [renderAll_cons_of_error hn, renderAll_cons_of_error hm]
          cases hresult
          rfl
        | ok y => cases hresult
      | ok x =>
        cases second with
        | error f => cases hresult
        | ok y =>
          have hxy : Text.kept x = Text.kept y := Except.ok.inj hresult
          have hrest := hlater next
          simp only [Outcome.kept, Outcome.mk.injEq] at hrest
          rw [renderAll_cons_of_ok hn, renderAll_cons_of_ok hm]
          simp only [Outcome.kept, Outcome.mk.injEq]
          refine ⟨?_, hrest.2⟩
          have hprepend (z : Text) (a : Except Raised Text) :
              (a.map (z ++ ·)).map Text.kept = (a.map Text.kept).map (Text.kept z ++ ·) :=
            map_map_congr (Text.kept_append z) a
          rw [hprepend, hprepend, hrest.1, hxy]

mutual

/-- A node keeps the same without its trims. -/
theorem Node.render_untrimmed (n : Node) (c : Context) :
    (n.untrimmed.render r o c).kept = (n.render r o c).kept := by
  match n with
  | .text value trim =>
    simp only [Node.untrimmed, Node.render, Outcome.kept, Except.map, Trim.kept_apply]
  | .interpolation expression trim =>
    simp only [Node.untrimmed, Node.render, Outcome.kept, Except.map, Trim.kept_apply]
  | .branch condition children otherwise =>
    simp only [Node.untrimmed, Node.render]
    split
    · exact renderAll_untrimmed children c
    · exact renderAll_untrimmed otherwise c
  | .loop item source children =>
    have hbody (d : Context) : (renderAll r o (untrimmedAll children) d).result.map Text.kept =
        (renderAll r o children d).result.map Text.kept :=
      congrArg Outcome.result (renderAll_untrimmed children d)
    -- The separator is the same, so it is enough to compare the iterations.
    have hjoin (outputs : Except Raised (List Text)) :
        (outputs.map o.loopSeparator.intercalate).map Text.kept =
          (outputs.map (List.map Text.kept)).map (Text.kept o.loopSeparator).intercalate :=
      map_map_congr (Text.kept_intercalate o.loopSeparator) outputs
    simp only [Node.untrimmed, Node.render, Outcome.kept, hjoin, mapM_map_eq, hbody]
  | .assign name expression => rfl
  | .raise message => rfl

/-- Nodes keep the same without their trims. -/
theorem renderAll_untrimmed (ns : List Node) (c : Context) :
    (renderAll r o (untrimmedAll ns) c).kept = (renderAll r o ns c).kept := by
  match ns with
  | [] => rfl
  | n :: ns =>
    exact renderAll_cons_kept r o (Node.render_untrimmed n c) (renderAll_untrimmed ns)

end

/-- Two templates that are the same but for their trims leave the same context, and either
both fail with the same message or both have an output, of which the same is kept: in
particular every line break and every character that is not blank. -/
theorem renderAll_trims {ns ms : List Node} (h : untrimmedAll ns = untrimmedAll ms)
    (c : Context) :
    let first := renderAll r o ns c
    let second := renderAll r o ms c
    first.context = second.context ∧
      ((∃ e, first.result = .error e ∧ second.result = .error e) ∨
        ∃ x y, first.result = .ok x ∧ second.result = .ok y ∧ Text.kept x = Text.kept y ∧
          ∀ ch, Text.isBlank ch = false ∨ ch = '\n' → x.count ch = y.count ch) := by
  intro first second
  have hkept : first.kept = second.kept := by
    rw [← renderAll_untrimmed, h, renderAll_untrimmed]
  simp only [Outcome.kept, Outcome.mk.injEq] at hkept
  obtain ⟨hresult, hcontext⟩ := hkept
  refine ⟨hcontext, ?_⟩
  cases hx : first.result with
  | error e =>
    cases hy : second.result with
    | error f =>
      rw [hx, hy] at hresult
      cases hresult
      exact .inl ⟨e, rfl, rfl⟩
    | ok y =>
      rw [hx, hy] at hresult
      cases hresult
  | ok x =>
    cases hy : second.result with
    | error f =>
      rw [hx, hy] at hresult
      cases hresult
    | ok y =>
      rw [hx, hy] at hresult
      have hxy : Text.kept x = Text.kept y := Except.ok.inj hresult
      exact .inr ⟨x, y, rfl, rfl, hxy, fun ch hch => Text.count_eq_of_kept_eq hxy hch⟩

end

/-- A loop over a blank item and one with a line break: with all dashes and with a few. -/
theorem renderAll_trims_of_blank_item :
    let tree (inner between last : Trim) : List Node :=
      [.loop "y".toList (.expression "ys".toList)
        [.interpolation "y".toList inner, .assign "z".toList "y".toList,
          .text " \n ".toList between],
        .text " \t".toList last, .assign "z".toList "ys".toList]
    let ns := tree ⟨true, true⟩ ⟨true, true⟩ ⟨true, true⟩
    let ms := tree ⟨false, false⟩ ⟨true, false⟩ ⟨true, false⟩
    let c : Context := [("ys".toList, .list [.string " \t".toList, .string " a\n".toList])]
    let render (template : List Node) := renderAll Registry.empty Options.standard template c
    untrimmedAll ns = untrimmedAll ms ∧ (render ns).context = (render ms).context ∧
      (render ns).result = .ok "\n\n\na\n\n".toList ∧
      (render ms).result = .ok " \t\n \n\n a\n\n ".toList ∧
      Text.kept "\n\n\na\n\n".toList = Text.kept " \t\n \n\n a\n\n ".toList := by
  intro tree ns ms c render
  have htrims : untrimmedAll ns = untrimmedAll ms := rfl
  have hns : (render ns).result = .ok "\n\n\na\n\n".toList := by with_unfolding_all rfl
  have hms : (render ms).result = .ok " \t\n \n\n a\n\n ".toList := by with_unfolding_all rfl
  obtain ⟨hcontext, ⟨e, he, -⟩ | ⟨x, y, hx, hy, hkept, -⟩⟩ :=
    renderAll_trims Registry.empty Options.standard htrims c
  · rw [he] at hns
    cases hns
  · rw [hx] at hns
    rw [hy] at hms
    cases hns
    cases hms
    exact ⟨htrims, hcontext, hx, hy, hkept⟩

end PromptTemplate
