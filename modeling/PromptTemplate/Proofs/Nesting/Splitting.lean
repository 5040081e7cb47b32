import PromptTemplate.Proofs.Nesting.Composition

/-!
# Splitting is lossless and complete

A separator at the top level stands where every scan starts, so the text behind
it is split as if it stood alone. What holds of texts that show no separator, and
of a text with one as soon as it holds of what stands behind the first, holds of
every text, balanced or not. In this way no part shows a separator, and the parts
of a balanced text are balanced.
-/

namespace PromptTemplate

namespace Nesting

/-- A character that neither quotes nor opens nor closes, such as a separator. -/
structure IsNeutral (c : Char) : Prop where
  not_quote : isQuote c = false
  not_opener : isOpener c = false
  not_closer : isCloser c = false

instance (c : Char) : Decidable (IsNeutral c) :=
  decidable_of_iff (isQuote c = false ∧ isOpener c = false ∧ isCloser c = false)
    ⟨fun ⟨hq, ho, hc⟩ => ⟨hq, ho, hc⟩, fun ⟨hq, ho, hc⟩ => ⟨hq, ho, hc⟩⟩

variable {sep : Char}

/-- A scan at the start is there again behind a neutral character. -/
theorem IsNeutral.step_start (h : IsNeutral sep) : State.start.step sep = State.start :=
  State.step_of_plain rfl h.not_quote h.not_opener h.not_closer

/-!
### The first separator
-/

/-- A text that shows a separator shows it first where a scan is at the start. -/
theorem State.exists_first_separator (hsep : IsNeutral sep) {s : State} {t : Text}
    (h : sep ∈ s.visible t) :
    ∃ a b, t = a ++ sep :: b ∧ sep ∉ s.visible a ∧ s.run a = State.start := by
  induction t generalizing s with
  | nil => cases h
  | cons c t ih =>
    have hlater (hrest : sep ∈ (s.step c).visible t) (hc : s.isTop c = true → sep ≠ c) :
        ∃ a b, c :: t = a ++ sep :: b ∧ sep ∉ s.visible a ∧ s.run a = State.start := by
      obtain ⟨a, b, rfl, hhidden, hrun⟩ := ih hrest
      refine ⟨c :: a, b, rfl, ?_, hrun⟩
      cases htop : s.isTop c with
      | false => rwa [visible_cons_of_not_top htop]
      | true =>
        rw [visible_cons_of_top htop, List.mem_cons, not_or]
        exact ⟨hc htop, hhidden⟩
    cases htop : s.isTop c with
    | false =>
      rw [visible_cons_of_not_top htop] at h
      exact hlater h fun hc => absurd (htop.symm.trans hc) Bool.false_ne_true
    | true =>
      rw [visible_cons_of_top htop, List.mem_cons] at h
      by_cases hc : sep = c
      · subst hc
        exact ⟨[], t, rfl, List.not_mem_nil, (isTop_iff_eq_start hsep.not_closer).1 htop⟩
      · exact hlater (h.resolve_left hc) fun _ => hc

/-- Induction over the separators at the top level of a text. -/
theorem separator_induction {motive : Text → Prop} (hsep : IsNeutral sep)
    (whole : ∀ t, sep ∉ State.start.visible t → motive t)
    (cut : ∀ a b, sep ∉ State.start.visible a → State.start.run a = State.start →
      motive b → motive (a ++ sep :: b)) (t : Text) : motive t := by
  by_cases h : sep ∈ State.start.visible t
  · obtain ⟨a, b, ht, hhidden, hrun⟩ := State.exists_first_separator hsep h
    rw [ht]
    exact cut a b hhidden hrun (separator_induction hsep whole cut b)
  · exact whole t h
termination_by t.length
decreasing_by
  rw [ht, List.length_append, List.length_cons]
  omega

/-- Behind a text after which a scan is at the start, a separator ends a part. -/
theorem split_append (hsep : IsNeutral sep) {a : Text} (h : State.start.run a = State.start)
    (b : Text) : split sep (a ++ sep :: b) = split sep a ++ split sep b :=
  State.split_append hsep.step_start h b

/-- The first separator ends the first part. -/
theorem split_first_separator (hsep : IsNeutral sep) {a : Text}
    (hhidden : sep ∉ State.start.visible a) (h : State.start.run a = State.start) (b : Text) :
    split sep (a ++ sep :: b) = a :: split sep b := by
  have hone : split sep a = [a] := State.split_eq_singleton hhidden
  rw [split_append hsep h, hone, List.singleton_append]

/-!
### Parts
-/

/-- No part shows a separator. -/
theorem not_mem_visible_of_mem_split (hsep : IsNeutral sep) {t part : Text}
    (h : part ∈ split sep t) : sep ∉ State.start.visible part := by
  induction t using separator_induction hsep with
  | whole t hhidden =>
    have hone : split sep t = [t] := State.split_eq_singleton hhidden
    rw [hone, List.mem_singleton] at h
    rwa [h]
  | cut a b hhidden hrun ih =>
    rw [split_first_separator hsep hhidden hrun] at h
    rcases List.mem_cons.1 h with rfl | h
    · exact hhidden
    · exact ih h

/-- The parts of a balanced text are balanced. -/
theorem isBalanced_of_mem_split (hsep : IsNeutral sep) {t part : Text}
    (ht : isBalanced t = true) (h : part ∈ split sep t) : isBalanced part = true := by
  induction t using separator_induction hsep with
  | whole t hhidden =>
    have hone : split sep t = [t] := State.split_eq_singleton hhidden
    rw [hone, List.mem_singleton] at h
    rwa [h]
  | cut a b hhidden hrun ih =>
    rw [split_first_separator hsep hhidden hrun] at h
    obtain ⟨ha, hrest⟩ := State.closes_of_append ht hrun
    rcases List.mem_cons.1 h with rfl | h
    · exact ha
    · exact ih (State.closes_of_append (t := [sep]) hrest hsep.step_start).2 h

/-!
### Counting separators
-/

/-- There is one more part than separators are visible. -/
theorem State.length_split (s : State) (sep : Char) (t : Text) :
    (s.split sep t).length = (s.visible t).count sep + 1 := by
  induction t generalizing s with
  | nil => rfl
  | cons c t ih =>
    cases htop : s.isTop c with
    | false => simp [split, visible_cons_of_not_top htop, htop, ih]
    | true =>
      by_cases hc : c = sep
      · subst hc
        simp [split, visible_cons_of_top htop, htop, ih]
      · simp [split, visible_cons_of_top htop, htop, hc, ih]

/-- At the positions of the top level stand the characters that are visible. -/
theorem State.getElem?_topOffsets (s : State) (before t : Text) :
    (s.topOffsets before.length t).map (fun i => (before ++ t)[i]?) = (s.visible t).map some := by
  induction t generalizing s before with
  | nil => rfl
  | cons c t ih =>
    have hlater := ih (s.step c) (before ++ [c])
    rw [List.length_append, List.length_singleton, List.append_assoc,
      List.singleton_append] at hlater
    have hhere : (before ++ c :: t)[before.length]? = some c := by simp
    cases htop : s.isTop c with
    | false => rw [topOffsets, if_neg (by simp [htop]), visible_cons_of_not_top htop, hlater]
    | true =>
      rw [topOffsets, if_pos htop, visible_cons_of_top htop, List.map_cons, List.map_cons, hlater,
        hhere]

/-- Splitting loses nothing: the parts with the separator between them are the text. It is
complete: no part can be split again, and every place at the top level where the separator
stands ends a part. And behind a text after which a scan is at the start, it goes on as with
a new text. -/
theorem split_lossless_complete (hsep : IsNeutral sep) (t : Text) :
    [sep].intercalate (split sep t) = t ∧
      (∀ part ∈ split sep t, split sep part = [part]) ∧
      (split sep t).length = ((topOffsets t).filter fun i => t[i]? = some sep).length + 1 ∧
      ∀ a b, State.start.run a = State.start →
        split sep (a ++ sep :: b) = split sep a ++ split sep b := by
  refine ⟨State.intercalate_split _ sep t, fun part hpart => ?_, ?_, fun a b h => ?_⟩
  · exact State.split_eq_singleton (not_mem_visible_of_mem_split hsep hpart)
  · have hchars : (topOffsets t).map (fun i => t[i]?) = (State.start.visible t).map some :=
      State.start.getElem?_topOffsets [] t
    have hcount : ((topOffsets t).filter fun i => t[i]? = some sep).length =
        (State.start.visible t).count sep := by
      have hmap := congrArg (List.countP (· = some sep)) hchars
      simp only [List.countP_map, Function.comp_def, Option.some.injEq] at hmap
      rw [← List.countP_eq_length_filter]
      exact hmap
    rw [hcount]
    exact State.length_split _ sep t
  · exact split_append hsep h b

/-- Separators in a literal and in a group that stays open, behind a group that was never
opened. -/
theorem split_lossless_complete_of_stray_brackets :
    let t := "a)+'b+\\'' + [c+".toList
    let before := "]'+'".toList
    IsNeutral '+' ∧ split '+' t = ["a)".toList, "'b+\\'' ".toList, " [c+".toList] ∧
      ['+'].intercalate (split '+' t) = t ∧
      (∀ part ∈ split '+' t, split '+' part = [part]) ∧
      (split '+' t).length = ((topOffsets t).filter fun i => t[i]? = some '+').length + 1 ∧
      State.start.run before = State.start ∧
      split '+' (before ++ '+' :: t) = split '+' before ++ split '+' t := by
  intro t before
  have hsep : IsNeutral '+' := by decide
  have hbefore : State.start.run before = State.start := by decide
  obtain ⟨hjoin, hparts, hcount, happend⟩ := split_lossless_complete hsep t
  exact ⟨hsep, by decide, hjoin, hparts, hcount, hbefore, happend before t hbefore⟩

end Nesting

end PromptTemplate
