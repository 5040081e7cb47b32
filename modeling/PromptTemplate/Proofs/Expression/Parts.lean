import PromptTemplate.Expression.Form
import PromptTemplate.Proofs.Nesting.Composition

/-!
# Parts of an expression

Reading an expression only ever cuts its text: the name that a path starts from
and the text of every operand are contiguous parts of the text. Nothing that is
unescaped or computed is read as a name or as an expression again.
-/

namespace PromptTemplate

namespace Text

/-- What is left after dropping at the end is a part. -/
theorem dropEndWhile_isInfix (p : Char → Bool) (t : Text) : dropEndWhile p t <:+: t := by
  have hsuffix : t.reverse.dropWhile p <:+ t.reverse := List.dropWhile_suffix p
  rw [dropEndWhile, ← List.reverse_prefix] at *
  rw [List.reverse_reverse] at hsuffix
  exact hsuffix.isInfix

/-- A trimmed text is a part. -/
theorem trim_isInfix (t : Text) : trim t <:+: t :=
  (dropEndWhile_isInfix _ _).trans (List.dropWhile_suffix _).isInfix

end Text

namespace Nesting

/-- A part between separators is a part. -/
theorem State.isInfix_of_mem_split {s : State} {sep : Char} {t part : Text}
    (h : part ∈ s.split sep t) : part <:+: t := by
  have hjoin := State.intercalate_split s sep t
  generalize s.split sep t = parts at h hjoin
  rw [← hjoin]
  clear hjoin
  induction parts with
  | nil => cases h
  | cons first rest ih =>
    cases rest with
    | nil =>
      obtain rfl : part = first := List.mem_singleton.1 h
      simp only [List.intercalate_singleton, List.infix_rfl]
    | cons second rest =>
      rw [List.intercalate_cons_cons]
      rcases List.mem_cons.1 h with rfl | h
      · exact List.infix_append_of_infix_left List.infix_append_left
      · exact List.infix_append_of_infix_right (ih h)

/-- What stands around a mark are parts. -/
theorem isInfix_of_breakAt {mark t before after : Text}
    (h : breakAt mark t = some (before, after)) : before <:+: t ∧ after <:+: t := by
  rw [eq_of_breakAt h, List.append_assoc]
  exact ⟨List.infix_append_left,
    List.infix_append_of_infix_right List.infix_append_right⟩

/-- What stands around a keyword are parts. -/
theorem isInfix_of_breakWord {word t before after : Text}
    (h : breakWord word t = some (before, after)) : before <:+: t ∧ after <:+: t := by
  rw [eq_of_breakWord h, List.append_assoc]
  exact ⟨List.infix_append_left,
    List.infix_append_of_infix_right List.infix_append_right⟩

/-- The inside of parentheses is a part. -/
theorem isInfix_of_stripParens? {t inner : Text} (h : stripParens? t = some inner) :
    inner <:+: t := by
  cases t with
  | nil => simp [stripParens?] at h
  | cons c rest =>
    simp only [stripParens?, Option.ite_none_right_eq_some, Option.some.injEq] at h
    rw [← h.2]
    exact List.infix_cons (List.dropLast_prefix rest).isInfix

/-- The inside of an index group and what stands behind it are parts. -/
theorem isInfix_of_closeIndex {t inside after : Text}
    (h : closeIndex t = some (inside, after)) : inside <:+: t ∧ after <:+: t := by
  rw [eq_of_closeIndex h]
  exact ⟨List.infix_append_left,
    List.infix_append_of_infix_right (List.infix_cons List.infix_rfl)⟩

end Nesting

/-- Operands of steps are parts of the text of the steps. -/
theorem Step.isInfix_of_readAll? {t e : Text} {steps : List (Step Text)}
    (h : readAll? t = some steps) (he : e ∈ steps.flatMap operands) : e <:+: t := by
  fun_induction readAll? t generalizing steps with
  | case1 =>
    simp only [Option.some.injEq] at h
    simp [← h] at he
  | case2 => simp at h
  | case3 rest _ ih =>
    obtain ⟨later, hl, hk⟩ := Option.map_eq_some_iff.1 h
    rw [← hk, List.flatMap_cons, operands_ofAttribute, List.nil_append] at he
    exact List.infix_cons ((ih hl he).trans (List.dropWhile_suffix _).isInfix)
  | case4 => simp at h
  | case5 rest inside after hc ih =>
    obtain ⟨step, hs, hk⟩ := Option.bind_eq_some_iff.1 h
    obtain ⟨later, hl, hk⟩ := Option.bind_eq_some_iff.1 hk
    simp only [Option.pure_def, Option.some.injEq] at hk
    have hparts := Nesting.isInfix_of_closeIndex hc
    rw [← hk, List.flatMap_cons, List.mem_append] at he
    rcases he with he | he
    · rw [eq_of_mem_operands_ofGroup? hs he]
      exact List.infix_cons ((Text.trim_isInfix inside).trans hparts.1)
    · exact List.infix_cons ((ih hl he).trans hparts.2)
  | case6 => simp at h

/-- The root and the operands of a path are parts of its text. -/
theorem Path.isInfix_of_read? {t : Text} {p : Path Text} (h : read? t = some p) :
    p.root <:+: t ∧ ∀ e ∈ p.operands, e <:+: t := by
  simp only [read?] at h
  split at h
  · obtain ⟨steps, hs, rfl⟩ := Option.map_eq_some_iff.1 h
    refine ⟨(List.takeWhile_prefix _).isInfix, fun e he => ?_⟩
    exact (Step.isInfix_of_readAll? hs he).trans (List.dropWhile_suffix _).isInfix
  · simp at h

/-- The operand of an argument is a part of it. -/
theorem Argument.operand_isInfix (t : Text) : (ofText t).operand <:+: t := by
  unfold ofText
  split
  · next name operand h =>
    split
    · exact (Nesting.isInfix_of_breakAt h).2
    · exact List.infix_rfl
  · exact List.infix_rfl

/-- Operands of a call are parts of its text. -/
theorem Call.isInfix_of_read? {t e : Text} {c : Call Text} (h : read? t = some c)
    (he : e ∈ c.operands) : e <:+: t := by
  simp only [read?] at h
  split at h
  · obtain ⟨inside, hi, rfl⟩ := Option.map_eq_some_iff.1 h
    obtain ⟨a, ha, rfl⟩ := List.mem_map.1 he
    have hinside : inside <:+: t := (Nesting.isInfix_of_stripParens? hi).trans
      ((List.dropWhile_suffix _).isInfix.trans (List.dropWhile_suffix _).isInfix)
    unfold readArguments at ha
    split at ha
    · cases ha
    · obtain ⟨part, hp, rfl⟩ := List.mem_map.1 ha
      have hpart : part <:+: t := (Nesting.State.isInfix_of_mem_split hp).trans hinside
      exact (Argument.operand_isInfix _).trans ((Text.trim_isInfix part).trans hpart)
  · simp at h

/-- Operands of a stage are parts of its text. -/
theorem Call.isInfix_of_ofStage {t e : Text} (he : e ∈ (ofStage t).operands) : e <:+: t := by
  unfold ofStage at he
  cases h : read? (Text.trim t) with
  | none => simp [h, operands] at he
  | some c =>
    rw [h, Option.getD_some] at he
    exact (isInfix_of_read? h he).trans (Text.trim_isInfix t)

namespace Form

/-- The name that a form looks up, if it is a path. -/
def root? {ε : Type} : Form ε → Option Text
  | .path p => some p.root
  | _ => none

/-- All that evaluation takes from a text as a text: the name that is looked up and the
operands are parts of it. -/
def InText (f : Form Text) (t : Text) : Prop :=
  (∀ x, f.root? = some x → x <:+: t) ∧ ∀ e ∈ f.operands, e <:+: t

theorem inText_path {t : Text} {p : Path Text} (h : Path.read? t = some p) :
    InText (.path p) t := by
  have hp := Path.isInfix_of_read? h
  refine ⟨fun x hx => ?_, hp.2⟩
  cases hx
  exact hp.1

/-- A form that looks up no name takes its operands only. -/
theorem inText_of_operands {f : Form Text} {t : Text} (hroot : f.root? = none)
    (h : ∀ e ∈ f.operands, e <:+: t) : f.InText t := by
  refine ⟨fun x hx => ?_, h⟩
  rw [hroot] at hx
  cases hx

theorem inText_ofCompound (t : Text) : (ofCompound t).InText t := by
  unfold ofCompound
  split
  · next input stage stages hs =>
    have hpart {part : Text} (hp : part ∈ input :: stage :: stages) : part <:+: t := by
      rw [← hs] at hp
      exact Nesting.State.isInfix_of_mem_split hp
    refine inText_of_operands rfl fun e he => ?_
    simp only [operands, List.mem_cons, List.mem_flatMap, List.mem_map] at he
    rcases he with rfl | ⟨c, ⟨part, hp, rfl⟩, he⟩
    · exact hpart List.mem_cons_self
    · have hstage : part <:+: t := hpart (List.mem_cons_of_mem _ (List.mem_cons.2 hp))
      exact (Call.isInfix_of_ofStage he).trans hstage
  · split
    · next needle haystack hb =>
      have hparts := Nesting.isInfix_of_breakWord hb
      refine inText_of_operands rfl fun e he => ?_
      simp only [operands, List.mem_cons, List.not_mem_nil, or_false] at he
      rcases he with rfl | rfl
      · exact hparts.1
      · exact hparts.2
    · split
      · next c hc => exact inText_of_operands rfl fun e he => Call.isInfix_of_read? hc he
      · cases hp : Path.read? t with
        | none => exact inText_of_operands rfl fun e he => absurd he List.not_mem_nil
        | some p => exact inText_path hp

/-- A form takes only parts of its text. -/
theorem inText_ofText (t : Text) : (ofText t).InText t := by
  have htrimmed : (ofTrimmed (Text.trim t)).InText (Text.trim t) := by
    unfold ofTrimmed
    split
    · exact inText_of_operands rfl fun e he => absurd he List.not_mem_nil
    · unfold readIndexed?
      split
      · cases hp : Path.read? (Text.trim t) with
        | none => exact inText_ofCompound _
        | some p => exact inText_path hp
      · exact inText_ofCompound _
  have htrim := Text.trim_isInfix t
  exact ⟨fun x hx => (htrimmed.1 x hx).trans htrim, fun e he => (htrimmed.2 e he).trans htrim⟩

end Form

end PromptTemplate
