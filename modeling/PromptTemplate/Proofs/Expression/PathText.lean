import Mathlib.Data.List.TakeDrop
import PromptTemplate.Proofs.Expression.Evaluation
import PromptTemplate.Proofs.Nesting.Words
import PromptTemplate.Proofs.Text.Numeral

/-!
# Texts of paths

A text is a path exactly if it is a name followed by the texts of steps, each of
them an attribute behind a point or a balanced inside between brackets. Steps
are put behind a path one at a time, so what holds of every path is shown from a
path to the same path with one more step. A path that is no constant has the
value that its last step selects from the value of the path before that step.
-/

namespace PromptTemplate

/-!
### Steps
-/

/-- A balanced text between brackets shows its two brackets only. -/
theorem Nesting.visible_bracket {inside : Text} (h : isBalanced inside = true) :
    State.start.visible ('[' :: (inside ++ [']'])) = ['[', ']'] := by
  have hinside : State.start.deeper.visible (inside ++ [']']) = [']'] := by
    rw [State.visible_append, State.visible_deeper h, State.run_deeper h]
    rfl
  rw [State.visible_cons_of_top (isTop_start '[')]
  exact congrArg ('[' :: ·) hinside

/-- A balanced text between brackets is balanced. -/
theorem Nesting.isBalanced_bracket {inside : Text} (h : isBalanced inside = true) :
    isBalanced ('[' :: (inside ++ [']'])) = true := by
  have hinner : State.start.deeper.closes (inside ++ [']']) = true :=
    (State.closes_deeper h [']']).trans rfl
  exact hinner

/-- A bound begins with a digit or a sign, if not with a blank. -/
theorem Step.readBound?_eq_none {t : Text} {c : Char} (h : (Text.trimStart t).head? = some c)
    (hblank : Text.isBlank c = false) (hdigit : c.isDigit = false) (hminus : c ≠ '-')
    (hplus : c ≠ '+') : readBound? t = none := by
  have hmem : c ∈ Text.trim t := by
    obtain ⟨rest, hrest⟩ := List.head?_eq_some_iff.1 h
    have htrim := Text.trim_append_cons hblank [] rest
    rw [← Text.trim_trimStart, hrest]
    rw [List.nil_append] at htrim
    rw [htrim]
    exact List.mem_append_right _ List.mem_cons_self
  rw [readBound?]
  split
  · next hnil =>
    rw [hnil] at hmem
    cases hmem
  · rw [Text.readInt?_eq_none hmem hdigit hminus hplus]
    rfl

/-- The text of one step. -/
inductive StepText : Text → Step Text → Prop
  | dotted {name : Text} : name ≠ [] → (∀ c ∈ name, Text.isNameChar c = true) →
      StepText ('.' :: name) (Step.ofAttribute name)
  | group {inside : Text} {step : Step Text} : Nesting.isBalanced inside = true →
      Step.ofGroup? (Text.trim inside) = some step → StepText ('[' :: (inside ++ [']'])) step

/-- The text of steps in a row. -/
inductive StepsText : Text → List (Step Text) → Prop
  | nil : StepsText [] []
  | cons {t u : Text} {step : Step Text} {steps : List (Step Text)} :
      StepText t step → StepsText u steps → StepsText (t ++ u) (step :: steps)

/-- The group that a bracket opens is read, then the steps behind it. -/
theorem Step.readAll?_open {t inside after : Text}
    (hclose : Nesting.closeIndex t = some (inside, after)) :
    Step.readAll? ('[' :: t) =
      (Step.ofGroup? (Text.trim inside)).bind fun step =>
        (Step.readAll? after).map (step :: ·) := by
  rw [Step.readAll?]
  split
  · next h =>
    rw [hclose] at h
    cases h
  · next h =>
    rw [hclose] at h
    cases h
    cases Step.readAll? after with
    | none => rfl
    | some steps => rfl

namespace StepText

variable {t : Text} {step : Step Text}

/-- A step begins with a point or a bracket, so no name goes on there. -/
theorem not_isNameChar_of_head? (h : StepText t step) :
    ∃ c, t.head? = some c ∧ Text.isNameChar c = false := by
  cases h with
  | dotted hne hname => exact ⟨'.', rfl, by decide⟩
  | group hbalanced hstep => exact ⟨'[', rfl, by decide⟩

/-- A step has a sign of its own. -/
theorem sign_mem (h : StepText t step) : '.' ∈ t ∨ '[' ∈ t := by
  cases h with
  | dotted hne hname => exact .inl List.mem_cons_self
  | group hbalanced hstep => exact .inr List.mem_cons_self

/-- A step ends with a character of a name or a bracket. -/
theorem getLast?_eq (h : StepText t step) :
    ∃ c, t.getLast? = some c ∧ (Text.isNameChar c = true ∨ c = ']') := by
  cases h with
  | @dotted name hne hname =>
    refine ⟨name.getLast hne, ?_, .inl (hname _ (List.getLast_mem hne))⟩
    rw [List.getLast?_cons_of_ne_nil hne, List.getLast?_eq_some_getLast hne]
  | group hbalanced hstep =>
    refine ⟨']', ?_, .inr rfl⟩
    rw [← List.cons_append, List.getLast?_concat]

/-- A step is balanced. -/
theorem balanced (h : StepText t step) : Nesting.isBalanced t = true := by
  cases h with
  | dotted hne hname =>
    refine (Nesting.scan_plain fun c hc => ?_).1
    rcases List.mem_cons.1 hc with rfl | hc
    · decide
    · exact Nesting.isPlain_of_isNameChar (hname c hc)
  | group hbalanced hstep => exact Nesting.isBalanced_bracket hbalanced

/-- A step shows its point and its name, or its two brackets. -/
theorem char_of_mem_visible (h : StepText t step) {c : Char}
    (hc : c ∈ Nesting.State.start.visible t) :
    Text.isNameChar c = true ∨ c ∈ ['.', '[', ']'] := by
  cases h with
  | dotted hne hname =>
    rcases List.mem_cons.1 (Nesting.State.mem_of_mem_visible hc) with rfl | hc
    · exact .inr (by decide)
    · exact .inl (hname c hc)
  | group hbalanced hstep =>
    rw [Nesting.visible_bracket hbalanced] at hc
    exact .inr (List.mem_cons_of_mem '.' hc)

/-- A step is read before any text that does not go on with a name. -/
theorem readAll?_append (h : StepText t step) {rest : Text}
    (hrest : ∀ c ∈ rest.head?, Text.isNameChar c = false) :
    Step.readAll? (t ++ rest) = (Step.readAll? rest).map (step :: ·) := by
  cases h with
  | @dotted name hne hname =>
    obtain ⟨htake, hdrop⟩ := Text.span_append hname hrest
    cases name with
    | nil => exact absurd rfl hne
    | cons c name => rw [List.cons_append, Step.readAll?, htake, hdrop]
  | @group inside _ hbalanced hstep =>
    rw [List.cons_append, List.append_assoc, List.singleton_append]
    rw [Step.readAll?_open (Nesting.State.closeIndex_of_closes hbalanced rest), hstep,
      Option.bind_some]

end StepText

namespace StepsText

/-- Steps in a row begin like a step, or like what stands behind them. -/
theorem not_isNameChar_of_head? {t rest : Text} {steps : List (Step Text)} (h : StepsText t steps)
    (hrest : ∀ c ∈ rest.head?, Text.isNameChar c = false) :
    ∀ c ∈ (t ++ rest).head?, Text.isNameChar c = false := by
  intro c hc
  cases h with
  | nil => exact hrest c hc
  | cons hstep hsteps =>
    obtain ⟨d, hd, hname⟩ := hstep.not_isNameChar_of_head?
    rw [List.append_assoc, List.head?_append, hd] at hc
    cases hc
    exact hname

/-- Steps in a row are read before any text that does not go on with a name. -/
theorem readAll?_append {t rest : Text} {steps : List (Step Text)} (h : StepsText t steps)
    (hrest : ∀ c ∈ rest.head?, Text.isNameChar c = false) :
    Step.readAll? (t ++ rest) = (Step.readAll? rest).map (steps ++ ·) := by
  induction h with
  | nil => simp
  | cons hstep hsteps ih =>
    rw [List.append_assoc, hstep.readAll?_append (hsteps.not_isNameChar_of_head? hrest), ih,
      Option.map_map]
    rfl

/-- Whatever is read as steps is made of their texts. -/
theorem of_readAll? {t : Text} {steps : List (Step Text)} (h : Step.readAll? t = some steps) :
    StepsText t steps := by
  fun_induction Step.readAll? t generalizing steps with
  | case1 =>
    cases h
    exact .nil
  | case2 => cases h
  | case3 rest hname ih =>
    obtain ⟨later, hlater, rfl⟩ := Option.map_eq_some_iff.1 h
    have htext : '.' :: rest =
        ('.' :: rest.takeWhile Text.isNameChar) ++ rest.dropWhile Text.isNameChar := by
      rw [List.cons_append, List.takeWhile_append_dropWhile]
    rw [htext]
    exact .cons (.dotted hname (List.all_eq_true.1 List.all_takeWhile)) (ih hlater)
  | case4 => cases h
  | case5 rest inside after hclose ih =>
    obtain ⟨step, hstep, h⟩ := Option.bind_eq_some_iff.1 h
    obtain ⟨later, hlater, h⟩ := Option.bind_eq_some_iff.1 h
    cases h
    have htext : '[' :: rest = '[' :: (inside ++ [']']) ++ after := by
      rw [Nesting.eq_of_closeIndex hclose]
      simp
    rw [htext]
    exact .cons (.group (Nesting.State.closes_of_closeIndex hclose) hstep) (ih hlater)
  | case6 => cases h

/-- One more step may stand behind steps in a row. -/
theorem snoc {t u : Text} {steps : List (Step Text)} {step : Step Text} (h : StepsText t steps)
    (hstep : StepText u step) : StepsText (t ++ u) (steps ++ [step]) := by
  induction h with
  | nil =>
    have hone := StepsText.cons hstep .nil
    rwa [List.append_nil] at hone
  | cons hfirst hsteps ih =>
    rw [List.append_assoc]
    exact .cons hfirst ih

end StepsText

/-!
### Paths
-/

/-- The text of a path. -/
inductive PathText : Text → Path Text → Prop
  | root {name : Text} : Text.isIdentifier name = true → PathText name ⟨name, []⟩
  | step {t u root : Text} {steps : List (Step Text)} {step : Step Text} :
      PathText t ⟨root, steps⟩ → StepText u step → PathText (t ++ u) ⟨root, steps ++ [step]⟩

namespace PathText

variable {t : Text} {p : Path Text}

/-- A path is its root and the text of its steps. -/
theorem exists_stepsText (h : PathText t p) :
    Text.isIdentifier p.root = true ∧ ∃ u, StepsText u p.steps ∧ t = p.root ++ u := by
  induction h with
  | root hname => exact ⟨hname, [], .nil, (List.append_nil _).symm⟩
  | step hpath hstep ih =>
    obtain ⟨hname, u, hsteps, rfl⟩ := ih
    exact ⟨hname, _, hsteps.snoc hstep, List.append_assoc _ _ _⟩

/-- The text of steps behind a path makes a longer path. -/
theorem append {t u root : Text} {first steps : List (Step Text)} (h : PathText t ⟨root, first⟩)
    (hsteps : StepsText u steps) : PathText (t ++ u) ⟨root, first ++ steps⟩ := by
  induction hsteps generalizing t first with
  | nil => rwa [List.append_nil, List.append_nil]
  | cons hstep hsteps ih =>
    have hlonger := ih (h.step hstep)
    rwa [List.append_assoc, List.append_assoc] at hlonger

/-- Behind a path steps are read, unless a name goes on there. -/
theorem read?_append (h : PathText t p) {rest : Text}
    (hrest : ∀ c ∈ rest.head?, Text.isNameChar c = false) :
    Path.read? (t ++ rest) =
      (Step.readAll? rest).map fun steps => ⟨p.root, p.steps ++ steps⟩ := by
  obtain ⟨hname, u, hsteps, rfl⟩ := h.exists_stepsText
  obtain ⟨htake, hdrop⟩ := Text.span_append (Text.isNameChar_of_isIdentifier hname)
    (hsteps.not_isNameChar_of_head? hrest)
  rw [List.append_assoc]
  simp only [Path.read?, htake, hdrop, hname, if_true, hsteps.readAll?_append hrest,
    Option.map_map]
  rfl

/-- A text is read as a path exactly if it is the text of the path. -/
theorem iff_read? : PathText t p ↔ Path.read? t = some p := by
  constructor
  · intro h
    have hread : Path.read? (t ++ []) = _ := h.read?_append nofun
    rwa [List.append_nil, Step.readAll?, Option.map_some, List.append_nil] at hread
  · intro h
    simp only [Path.read?] at h
    split at h
    · next hname =>
      obtain ⟨steps, hsteps, rfl⟩ := Option.map_eq_some_iff.1 h
      have hpath := (PathText.root hname).append (.of_readAll? hsteps)
      rwa [List.takeWhile_append_dropWhile] at hpath
    · cases h

/-- A path begins like a name. -/
theorem exists_cons (h : PathText t p) : ∃ c rest, t = c :: rest ∧ Text.isNameStart c = true := by
  obtain ⟨hname, u, -, rfl⟩ := h.exists_stepsText
  cases hroot : p.root with
  | nil =>
    rw [hroot] at hname
    cases hname
  | cons c root =>
    rw [hroot, Text.isIdentifier, Bool.and_eq_true] at hname
    exact ⟨c, root ++ u, rfl, hname.1⟩

/-- A path ends with a character of a name or a bracket. -/
theorem getLast?_eq (h : PathText t p) :
    ∃ c, t.getLast? = some c ∧ (Text.isNameChar c = true ∨ c = ']') := by
  cases h with
  | @root _ hname =>
    have hne : t ≠ [] := Text.ne_nil_of_isIdentifier hname
    exact ⟨t.getLast hne, List.getLast?_eq_some_getLast hne,
      .inl (Text.isNameChar_of_isIdentifier hname _ (List.getLast_mem hne))⟩
  | step hpath hstep =>
    obtain ⟨c, hc, hend⟩ := hstep.getLast?_eq
    refine ⟨c, ?_, hend⟩
    rw [List.getLast?_append, hc, Option.some_or]

/-- A path is balanced. -/
theorem balanced (h : PathText t p) : Nesting.isBalanced t = true := by
  induction h with
  | root hname =>
    exact (Nesting.scan_plain fun c hc =>
      Nesting.isPlain_of_isNameChar (Text.isNameChar_of_isIdentifier hname c hc)).1
  | step hpath hstep ih => exact Nesting.isBalanced_append ih hstep.balanced

/-- A path shows characters of names, points and square brackets. -/
theorem char_of_mem_visible (h : PathText t p) {c : Char}
    (hc : c ∈ Nesting.State.start.visible t) :
    Text.isNameChar c = true ∨ c ∈ ['.', '[', ']'] := by
  induction h with
  | root hname =>
    exact .inl (Text.isNameChar_of_isIdentifier hname c (Nesting.State.mem_of_mem_visible hc))
  | step hpath hstep ih =>
    rw [Nesting.State.visible_append, Nesting.State.run_of_closes hpath.balanced] at hc
    rcases List.mem_append.1 hc with hc | hc
    · exact ih hc
    · exact hstep.char_of_mem_visible hc

end PathText

/-- What does not end with a parenthesis is no call. -/
theorem Call.read?_eq_none {t : Text} (h : t.getLast? ≠ some ')') : read? t = none := by
  have hparens : Nesting.stripParens? (Text.trimStart (t.dropWhile Text.isNameChar)) = none := by
    obtain ⟨before, hbefore⟩ : Text.trimStart (t.dropWhile Text.isNameChar) <:+ t :=
      (List.dropWhile_suffix _).trans (List.dropWhile_suffix _)
    cases hrest : Text.trimStart (t.dropWhile Text.isNameChar) with
    | nil => rfl
    | cons c rest =>
      rw [Nesting.stripParens?, if_neg]
      rintro ⟨-, hlast, -⟩
      refine h ?_
      rw [← hbefore, hrest, List.getLast?_append, List.getLast?_cons, hlast]
      rfl
  simp only [read?, hparens, Option.map_none, ite_self]

/-!
### Values of paths
-/

/-- The words for null and the truth values. -/
def constantWords : List Text :=
  ["none", "None", "true", "True", "false", "False"].map String.toList

/-- What begins like a name is no numeral. -/
theorem Number.readLiteral?_of_isNameStart {c : Char} (h : Text.isNameStart c = true) (t : Text) :
    readLiteral? (c :: t) = none := by
  have hspan : spanDigits (c :: t) = ([], c :: t) := by
    have hdigit : ¬ c.isDigit = true := by rw [Text.not_digit_of_isNameStart h]; decide
    rw [spanDigits, List.span_eq_takeWhile_dropWhile, List.takeWhile_cons_of_neg hdigit,
      List.dropWhile_cons_of_neg hdigit]
  unfold readLiteral?
  split
  next negative rest heq =>
  split at heq
  · next hminus =>
    obtain ⟨rfl, -⟩ := List.cons.inj hminus
    exact absurd h (by decide)
  · cases heq
    rw [hspan]

/-- What begins like a name is no literal. -/
theorem Literal.read?_of_isNameStart {c : Char} (h : Text.isNameStart c = true) (t : Text) :
    read? (c :: t) = none := by
  refine read?_eq_none fun d hd => ?_
  cases hd
  exact (Nesting.nesting_of_isPlain
    (Nesting.isPlain_of_isNameChar (Text.isNameChar_of_isNameStart h))).1

/-- What begins like a name is a constant only if it is one of the words. -/
theorem Form.readLiteral?_of_isNameStart {c : Char} (h : Text.isNameStart c = true) {t : Text}
    (hword : c :: t ∉ constantWords) : readLiteral? (c :: t) = none := by
  simp only [constantWords, List.map_cons, List.map_nil, List.mem_cons, not_or] at hword
  rw [readLiteral?, Literal.read?_of_isNameStart h]
  simp only [readConstant?, hword, or_self, if_false, Number.readLiteral?_of_isNameStart h]
  rfl

/-- A text with a sign of a step is no word for a constant. -/
theorem not_mem_constantWords {t : Text} (h : '.' ∈ t ∨ '[' ∈ t) : t ∉ constantWords := by
  have hsigns : ∀ word ∈ constantWords, '.' ∉ word ∧ '[' ∉ word := by decide
  intro hword
  rcases h with h | h
  · exact (hsigns t hword).1 h
  · exact (hsigns t hword).2 h

/-- A text that is a path at its two ends and outside its groups. -/
structure PathLike (t : Text) : Prop where
  first : ∃ c rest, t = c :: rest ∧ Text.isNameStart c = true
  last : ∃ c, t.getLast? = some c ∧ (Text.isNameChar c = true ∨ c = ']')
  shown : ∀ c ∈ Nesting.State.start.visible t, Text.isNameChar c = true ∨ c ∈ ['.', '[', ']']

namespace PathLike

variable {t : Text}

/-- What begins and ends like a path is trimmed. -/
theorem trim_eq (h : PathLike t) : Text.trim t = t := by
  obtain ⟨d, hd, hend⟩ := h.last
  obtain ⟨c, rest, rfl, hstart⟩ := h.first
  have hfirst : Text.isBlank c = false :=
    Nesting.not_blank_of_isPlain (Nesting.isPlain_of_isNameChar
      (Text.isNameChar_of_isNameStart hstart))
  have hlast : Text.isBlank d = false := by
    rcases hend with hname | rfl
    · exact Nesting.not_blank_of_isPlain (Nesting.isPlain_of_isNameChar hname)
    · decide
  exact Text.trim_eq_self rfl hfirst hd hlast

/-- What looks like a path shows no blank. -/
theorem solid (h : PathLike t) : ∀ c ∈ Nesting.State.start.visible t, Text.isBlank c = false := by
  intro c hc
  rcases h.shown c hc with hname | hsign
  · exact Nesting.not_blank_of_isPlain (Nesting.isPlain_of_isNameChar hname)
  · simp only [List.mem_cons, List.not_mem_nil, or_false] at hsign
    rcases hsign with rfl | rfl | rfl <;> decide

/-- What looks like a path is no pipe, no membership and no call. -/
theorem ofCompound_eq (h : PathLike t) :
    Form.ofCompound t = (Path.read? t).elim .unknown .path := by
  have hpipe : Nesting.split '|' t = [t] :=
    Nesting.State.split_eq_singleton fun hbar => absurd (h.shown '|' hbar) (by decide)
  have hmember : Nesting.breakWord "in".toList t = none :=
    Nesting.breakWord_of_solid (by decide) h.solid
  have hcall : Call.read? t = none := by
    obtain ⟨c, hc, hend⟩ := h.last
    refine Call.read?_eq_none fun hparen => ?_
    rw [hc, Option.some.injEq] at hparen
    subst hparen
    exact absurd hend (by decide)
  rw [Form.ofCompound, hpipe]
  simp only [hmember, hcall]

/-- What looks like a path is a constant, a path or no expression. -/
theorem ofText_eq (h : PathLike t) (hword : t ∉ constantWords) :
    Form.ofText t = (Path.read? t).elim .unknown .path := by
  have hliteral : Form.readLiteral? t = none := by
    obtain ⟨c, rest, rfl, hstart⟩ := h.first
    exact Form.readLiteral?_of_isNameStart hstart hword
  rw [Form.ofText, h.trim_eq, Form.ofTrimmed, hliteral]
  simp only [Form.readIndexed?, h.ofCompound_eq]
  split
  · cases Path.read? t <;> rfl
  · rfl

end PathLike

namespace PathText

variable {t : Text} {p : Path Text}

/-- A path looks like one. -/
theorem pathLike (h : PathText t p) : PathLike t :=
  ⟨h.exists_cons, h.getLast?_eq, fun _ => h.char_of_mem_visible⟩

/-- A path is trimmed. -/
theorem trim_eq (h : PathText t p) : Text.trim t = t := h.pathLike.trim_eq

/-- A path that is no constant has the form of a path. -/
theorem ofText_eq (h : PathText t p) (hword : t ∉ constantWords) : Form.ofText t = .path p := by
  rw [h.pathLike.ofText_eq hword, iff_read?.1 h]
  rfl

/-- A path that is no constant has the value that its steps select. -/
theorem evaluate_eq (h : PathText t p) (hword : t ∉ constantWords) (s : Scope) :
    evaluate s t = p.eval s.vars (evaluate s) := by
  rw [PromptTemplate.evaluate_eq, h.ofText_eq hword]
  rfl

end PathText

/-- Nothing is selected from null. -/
theorem Step.select_null {ε : Type} (value : ε → Value) (step : Step ε) :
    step.select value .null = .null := by
  cases step with
  | key name => rfl
  | index i => rfl
  | slice start? stop? => rfl
  | dynamic operand =>
    change Value.atValue .null (value operand) = .null
    cases value operand with
    | number x => 
      change x.exactInt?.elim .null (Value.atIndex .null) = .null
      cases x.exactInt? <;> rfl
    | _ => rfl

/-- The last step selects from the value of the path before it. -/
theorem Path.eval_snoc {ε : Type} (vars : Context) (value : ε → Value) (root : Text)
    (steps : List (Step ε)) (step : Step ε) :
    Path.eval vars value ⟨root, steps ++ [step]⟩ =
      step.select value (Path.eval vars value ⟨root, steps⟩) := by
  change (vars.get? root).elim _ _ = step.select value ((vars.get? root).elim _ _)
  cases vars.get? root with
  | none => exact (step.select_null value).symm
  | some v => exact List.foldl_append

end PromptTemplate
