import PromptTemplate.Proofs.Expression.PathText

/-!
# Pipes

A text that shows a bar is cut at its bars before anything else is made of it: no
literal, no constant and no path shows one. Its value is what its stages make, one
after the other, of the value of its input. Behind a balanced text a further bar
always ends the last of its stages, so it adds one stage to those that the text
has already, whatever they are.
-/

namespace PromptTemplate

open Nesting

/-!
### Texts that show a separator
-/

/-- What digits are cut off from is put together from them again. -/
theorem Number.eq_append_of_spanDigits {t digits rest : Text}
    (h : spanDigits t = (digits, rest)) :
    t = digits ++ rest ∧ ∀ c ∈ digits, c.isDigit = true := by
  rw [spanDigits, List.span_eq_takeWhile_dropWhile] at h
  obtain ⟨rfl, rfl⟩ := Prod.mk.inj h
  exact ⟨List.takeWhile_append_dropWhile.symm, List.all_eq_true.1 List.all_takeWhile⟩

/-- A template's numeral is made of digits, a minus sign and a point. -/
theorem Number.char_of_readLiteral? {t : Text} {x : Number} (h : readLiteral? t = some x)
    {c : Char} (hc : c ∈ t) : c.isDigit = true ∨ c = '-' ∨ c = '.' := by
  unfold readLiteral? at h
  split at h
  next negative rest hsign =>
  have hrest : c ∈ rest ∨ c = '-' := by
    split at hsign
    · obtain ⟨-, rfl⟩ := Prod.mk.inj hsign
      exact (List.mem_cons.1 hc).symm
    · obtain ⟨-, rfl⟩ := Prod.mk.inj hsign
      exact .inl hc
  refine hrest.elim (fun hc => ?_) fun hminus => .inr (.inl hminus)
  split at h
  · cases h
  · next whole hspan =>
    obtain ⟨rfl, hdigits⟩ := eq_append_of_spanDigits hspan
    rw [List.append_nil] at hc
    exact .inl (hdigits c hc)
  · next whole behind hspan =>
    obtain ⟨rfl, hdigits⟩ := eq_append_of_spanDigits hspan
    rcases List.mem_append.1 hc with hc | hc
    · exact .inl (hdigits c hc)
    rcases List.mem_cons.1 hc with rfl | hc
    · exact .inr (.inr rfl)
    split at h
    · cases h
    · next fraction hfraction =>
      obtain ⟨rfl, hdigits⟩ := eq_append_of_spanDigits hfraction
      rw [List.append_nil] at hc
      exact .inl (hdigits c hc)
    · cases h
  · cases h

/-- A text that shows a character which no path shows is no path. -/
theorem Path.read?_of_visible {c : Char}
    (hc : ¬ (Text.isNameChar c = true ∨ c ∈ ['.', '[', ']'])) {t : Text}
    (h : c ∈ State.start.visible t) : read? t = none := by
  cases hread : read? t with
  | none => rfl
  | some p => exact absurd ((PathText.iff_read?.2 hread).char_of_mem_visible h) hc

namespace Form

/-- A character that no literal, no constant and no path shows. -/
def IsSeparator (c : Char) : Prop :=
  Text.isNameChar c = false ∧ c ∉ ['\'', '"', '-', '.', '[', ']']

instance (c : Char) : Decidable (IsSeparator c) :=
  inferInstanceAs (Decidable (_ ∧ _))

variable {c : Char} {t : Text}

/-- A text that shows a separator is neither a literal nor a constant. -/
theorem readLiteral?_of_separator (hc : IsSeparator c) (h : c ∈ State.start.visible t) :
    readLiteral? t = none := by
  obtain ⟨hname, hsign⟩ := hc
  simp only [List.mem_cons, not_or] at hsign
  have hliteral : Literal.read? t = none := by
    cases hread : Literal.read? t with
    | none => rfl
    | some found =>
      obtain ⟨q, v⟩ := found
      obtain ⟨hquote, -⟩ := Literal.eq_of_read? hread
      rw [(scan_of_read? hread).2, List.mem_singleton] at h
      subst h
      exact ((eq_of_isQuote hquote).elim hsign.1 hsign.2.1).elim
  have hmem : c ∈ t := State.mem_of_mem_visible h
  have hword : ∀ word ∈ constantWords, t ≠ word := by
    have hwords : ∀ word ∈ constantWords, word.all Text.isNameChar = true := by decide
    rintro word hword rfl
    rw [List.all_eq_true.1 (hwords t hword) c hmem] at hname
    cases hname
  have hnumeral : Number.readLiteral? t = none := by
    cases hread : Number.readLiteral? t with
    | none => rfl
    | some x =>
      rcases Number.char_of_readLiteral? hread hmem with hdigit | rfl | rfl
      · simp [Text.isNameChar, Char.isAlphanum, hdigit] at hname
      · exact absurd rfl hsign.2.2.1
      · exact absurd rfl hsign.2.2.2.1
  simp only [constantWords, List.map_cons, List.map_nil, List.forall_mem_cons] at hword
  simp only [readLiteral?, hliteral, readConstant?, hword, or_self, if_false, hnumeral]
  rfl

/-- A text that shows a separator is first cut at its bars. -/
theorem ofText_of_separator (hc : IsSeparator c)
    (h : c ∈ State.start.visible (Text.trim t)) : ofText t = ofCompound (Text.trim t) := by
  have hindexed : readIndexed? (Text.trim t) = none := by
    have hpath : ¬ (Text.isNameChar c = true ∨ c ∈ ['.', '[', ']']) := by
      have hsigns : ['.', '[', ']'] ⊆ ['\'', '"', '-', '.', '[', ']'] := by decide
      rw [hc.1]
      exact fun hmem => hmem.elim Bool.noConfusion fun hmem => hc.2 (hsigns hmem)
    rw [readIndexed?, Path.read?_of_visible hpath h, ite_self]
  rw [ofText, ofTrimmed, readLiteral?_of_separator hc h, hindexed]
  rfl

end Form

/-!
### Stages
-/

/-- What a stage of a pipe makes of a value. -/
def Scope.applyStage (s : Scope) (v : Value) (stage : Text) : Value :=
  s.registry.applyFilter (Call.ofStage stage).name v ((Call.ofStage stage).eval (evaluate s))

/-- Blanks around a stage do not matter. -/
theorem Scope.applyStage_congr {stage other : Text} (h : Text.trim stage = Text.trim other)
    (s : Scope) (v : Value) : s.applyStage v stage = s.applyStage v other := by
  have hcall : Call.ofStage stage = Call.ofStage other := by
    rw [Call.ofStage, Call.ofStage, h]
  rw [applyStage, applyStage, hcall]

/-- Blanks around an expression do not matter. -/
theorem evaluate_congr_trim {t u : Text} (h : Text.trim t = Text.trim u) (s : Scope) :
    evaluate s t = evaluate s u := by
  rw [PromptTemplate.evaluate_eq, PromptTemplate.evaluate_eq s u, Form.ofText, Form.ofText, h]

/-- The value of a text is what its stages make one after the other of the value of its input,
which is the text itself if there are no stages. -/
theorem evaluate_of_stages {t input : Text} {stages : List Text}
    (h : split '|' (Text.trim t) = input :: stages) (s : Scope) :
    evaluate s t = stages.foldl s.applyStage (evaluate s input) := by
  cases stages with
  | nil =>
    have hinput : input = Text.trim t := by
      have hjoin := State.intercalate_split State.start '|' (Text.trim t)
      rw [split] at h
      rwa [h, List.intercalate_singleton] at hjoin
    exact evaluate_congr_trim (by rw [hinput, Text.trim_trim]) s
  | cons stage stages =>
    have hbar : '|' ∈ State.start.visible (Text.trim t) := by
      by_contra hbar
      rw [split, State.split_eq_singleton hbar] at h
      cases h
    have hform : Form.ofText t = .pipe input ((stage :: stages).map Call.ofStage) := by
      rw [Form.ofText_of_separator (by decide) hbar, Form.ofCompound, h]
    rw [PromptTemplate.evaluate_eq, hform, Form.eval, List.foldl_map]
    rfl

/-- A bar behind a balanced text adds a stage to those that the text has: they are the same with
the bar and without it, except for blanks behind the last of them. -/
theorem evaluate_append_stage {a f : Text} (ha : isBalanced a = true)
    (hf : '|' ∉ State.start.visible f) (s : Scope) :
    evaluate s (a ++ '|' :: f) = s.applyStage (evaluate s a) f := by
  -- Trimming `a` drops the blanks at its end; before the new bar they stay in its last stage.
  obtain ⟨after, hafter, hstart⟩ := Text.exists_trimEnd (Text.trimStart a)
  obtain ⟨stages, last, hstages, hlonger⟩ :=
    State.split_append_last (t := Text.trim a)
      (State.not_mem_visible_blanks (by decide : Text.isBlank '|' = false) hafter _)
  have hfirst : State.start.split '|' (Text.trimStart a) = stages ++ [last ++ after] :=
    (congrArg (State.start.split '|') hstart).trans hlonger
  have hsecond : State.start.split '|' (Text.trimEnd f) = [Text.trimEnd f] := by
    obtain ⟨behind, -, hend⟩ := Text.exists_trimEnd f
    refine State.split_eq_singleton fun hbar => hf ?_
    rw [hend, State.visible_append]
    exact List.mem_append_left _ hbar
  have hsplit : split '|' (Text.trim (a ++ '|' :: f)) =
      stages ++ [last ++ after] ++ [Text.trimEnd f] := by
    have hrun := State.run_of_closes (isBalanced_trimStart ha)
    rw [Text.trim_append_cons (by decide : Text.isBlank '|' = false), split,
      State.split_append rfl hrun, hfirst, hsecond]
  have hlast : Text.trim (last ++ after) = Text.trim last := Text.trim_append_blanks hafter last
  cases stages with
  | nil =>
    rw [evaluate_of_stages hsplit, evaluate_of_stages hstages, evaluate_congr_trim hlast]
    exact s.applyStage_congr (Text.trim_trimEnd f) _
  | cons input stages =>
    rw [List.cons_append, List.cons_append] at hsplit
    rw [List.cons_append] at hstages
    rw [evaluate_of_stages hsplit, evaluate_of_stages hstages]
    simp only [List.foldl_append, List.foldl_cons, List.foldl_nil]
    rw [s.applyStage_congr hlast]
    exact s.applyStage_congr (Text.trim_trimEnd f) _

/-- Pipes compose from left to right. A stage behind a balanced text is applied to the value of
that text, which may have stages of its own: the filter with the name of the stage gets the value
and the values of the arguments, and without such a filter the value stays as it is. So any
number of stages are applied one after the other. -/
theorem evaluate_pipe (s : Scope) {a : Text} (ha : isBalanced a = true) :
    (∀ f, '|' ∉ State.start.visible f →
      evaluate s (a ++ '|' :: f) =
        match s.registry.filters.get? (Call.ofStage f).name with
        | some filter => filter.handler (evaluate s a) ((Call.ofStage f).eval (evaluate s))
        | none => evaluate s a) ∧
    ∀ stages : List Text, (∀ f ∈ stages, isBalanced f = true ∧ '|' ∉ State.start.visible f) →
      evaluate s (a ++ stages.flatMap ('|' :: ·)) = stages.foldl s.applyStage (evaluate s a) := by
  refine ⟨fun f hf => evaluate_append_stage ha hf s, fun stages hstages => ?_⟩
  induction stages generalizing a with
  | nil => rw [List.flatMap_nil, List.append_nil, List.foldl_nil]
  | cons f stages ih =>
    obtain ⟨⟨hbalanced, hf⟩, hlater⟩ := List.forall_mem_cons.1 hstages
    have hbar : isBalanced ('|' :: f) = true := hbalanced
    have hmore := ih (isBalanced_append ha hbar) hlater
    rw [evaluate_append_stage ha hf] at hmore
    rw [List.flatMap_cons, ← List.append_assoc, hmore, List.foldl_cons]

/-- Bars in a literal and in a group, a filter with arguments, and a stage that is neither
balanced nor the name of a filter. -/
theorem evaluate_pipe_of_quoted_bars :
    let pair (v : Value) (args : Arguments) : Value := .list (v :: args.positional)
    let s : Scope := ⟨[("x".toList, .map [("|".toList, .bool true)])],
      Registry.empty.registerFilter "pair".toList [] pair⟩
    let a := "'a|b' | pair(x['|'], 'c') ".toList
    let stages := [" pair".toList, " pair('|')".toList]
    isBalanced a = true ∧ '|' ∉ State.start.visible " other( ".toList ∧
      evaluate s (a ++ '|' :: " other( ".toList) =
        .list [.string "a|b".toList, .bool true, .string ['c']] ∧
      (∀ f ∈ stages, isBalanced f = true ∧ '|' ∉ State.start.visible f) ∧
      evaluate s (a ++ stages.flatMap ('|' :: ·)) =
        .list [.list [.list [.string "a|b".toList, .bool true, .string ['c']]], .string ['|']] := by
  intro pair s a stages
  have ha : isBalanced a = true := by decide
  have hother : '|' ∉ State.start.visible " other( ".toList := by decide
  have hstages : ∀ f ∈ stages, isBalanced f = true ∧ '|' ∉ State.start.visible f := by decide
  obtain ⟨hone, hall⟩ := evaluate_pipe s ha
  refine ⟨ha, hother, (hone _ hother).trans ?_, hstages, (hall stages hstages).trans ?_⟩
  · with_unfolding_all rfl
  · with_unfolding_all rfl

end PromptTemplate
