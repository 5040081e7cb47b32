import Mathlib.Data.List.Basic
import PromptTemplate.Text.Blank

/-!
# Beginnings and ends of texts

Where a beginning, an end or a mark is found in a text that is put together of
parts, and where none is: a mark is found behind a text without it, whatever
stands behind the mark. Trimming undoes blanks around a text that has none of its
own at its ends.
-/

namespace PromptTemplate

namespace Text

/-- Another first character is no beginning. -/
theorem isPrefixOf?_cons_of_ne {a b : Char} (h : a ≠ b) (start t : Text) :
    (a :: start).isPrefixOf? (b :: t) = none := by
  change (if (a == b) = true then start.isPrefixOf? t else none) = none
  rw [if_neg (fun he => h (eq_of_beq he))]

/-- An equal first character leaves the rest to compare. -/
theorem isPrefixOf?_cons_self (a : Char) (start t : Text) :
    (a :: start).isPrefixOf? (a :: t) = start.isPrefixOf? t := by
  change (if (a == a) = true then start.isPrefixOf? t else none) = start.isPrefixOf? t
  rw [if_pos (beq_self_eq_true a)]

/-- A text with another last character does not have the end. -/
theorem isSuffixOf?_eq_none {last t : Text} {c : Char} (hl : last.getLast? = some c)
    (ht : t.getLast? ≠ some c) : last.isSuffixOf? t = none := by
  cases h : last.isSuffixOf? t with
  | none => rfl
  | some before =>
    rw [← List.append_eq_of_isSuffixOf?_eq_some h, List.getLast?_append, hl] at ht
    exact absurd rfl ht

/-- Of two ends of a text one is an end of the other. -/
theorem isSuffixOf?_append_eq_none {last other : Text} (h : ¬ last <:+ other)
    (h' : ¬ other <:+ last) (t : Text) : last.isSuffixOf? (t ++ other) = none := by
  cases hs : last.isSuffixOf? (t ++ other) with
  | none => rfl
  | some before =>
    have hlast : last <:+ t ++ other := ⟨before, List.append_eq_of_isSuffixOf?_eq_some hs⟩
    have hother : other <:+ t ++ other := List.suffix_append t other
    rcases List.suffix_or_suffix_of_suffix hlast hother with hc | hc
    · exact absurd hc h
    · exact absurd hc h'

/-- Two characters that stand behind each other in a concatenation do so in one of its
parts, or over the border. -/
theorem pair_isInfix_append {a b : Char} {t u : Text} (h : [a, b] <:+: t ++ u) :
    [a, b] <:+: t ∨ [a, b] <:+: u ∨ (t.getLast? = some a ∧ u.head? = some b) := by
  rcases List.infix_append_iff_ne_nil.1 h with ht | hu | ⟨v, w, hv, hw, he, hvt, hwu⟩
  · exact .inl ht
  · exact .inr (.inl hu)
  · refine .inr (.inr ?_)
    obtain ⟨c, v, rfl⟩ := List.exists_cons_of_ne_nil hv
    obtain ⟨d, w, rfl⟩ := List.exists_cons_of_ne_nil hw
    have hlen := congrArg List.length he
    simp only [List.length_append, List.length_cons, List.length_nil] at hlen
    obtain rfl : v = [] := List.length_eq_zero_iff.1 (by omega)
    obtain rfl : w = [] := List.length_eq_zero_iff.1 (by omega)
    simp only [List.cons_append, List.nil_append, List.cons.injEq, and_true] at he
    obtain ⟨rfl, rfl⟩ := he
    obtain ⟨x, rfl⟩ := hvt
    obtain ⟨y, rfl⟩ := hwu
    simp

/-- The two parts around the first occurrence make the text whole again. -/
theorem eq_of_breakOn {sep t : Text} {found : Text × Text} (h : breakOn sep t = some found) :
    t = found.1 ++ sep ++ found.2 := by
  obtain ⟨behind, rfl, hbehind⟩ := exists_of_breakOn h
  rw [List.append_assoc, List.append_eq_of_isPrefixOf?_eq_some hbehind]

/-- The first mark of two different characters is found behind a text without it. -/
theorem breakOn_append {a b : Char} (hab : a ≠ b) {t : Text} (ht : ¬ [a, b] <:+: t)
    (rest : Text) : breakOn [a, b] (t ++ a :: b :: rest) = some (t, rest) := by
  induction t with
  | nil =>
    have hp : List.isPrefixOf? [a, b] (a :: b :: rest) = some rest :=
      List.isPrefixOf?_eq_some_iff_append_eq.2 rfl
    rw [List.nil_append, breakOn, hp]
  | cons c t ih =>
    have hfirst : List.isPrefixOf? [a, b] (c :: (t ++ a :: b :: rest)) = none := by
      by_cases hc : a = c
      · subst hc
        rw [isPrefixOf?_cons_self]
        cases t with
        | nil => exact isPrefixOf?_cons_of_ne (Ne.symm hab) _ _
        | cons d t =>
          refine isPrefixOf?_cons_of_ne ?_ _ _
          rintro rfl
          exact ht ⟨[], t, rfl⟩
      · exact isPrefixOf?_cons_of_ne hc _ _
    have hrest := ih fun hi => ht (List.infix_cons hi)
    rw [List.cons_append, breakOn, hfirst, hrest]
    rfl

/-- The first mark of one character is found behind a text without it. -/
theorem breakOn_singleton {a : Char} {t : Text} (h : a ∉ t) (rest : Text) :
    breakOn [a] (t ++ a :: rest) = some (t, rest) := by
  induction t with
  | nil =>
    have hp : List.isPrefixOf? [a] (a :: rest) = some rest :=
      List.isPrefixOf?_eq_some_iff_append_eq.2 rfl
    rw [List.nil_append, breakOn, hp]
  | cons c t ih =>
    rw [List.mem_cons, not_or] at h
    rw [List.cons_append, breakOn, isPrefixOf?_cons_of_ne h.1, ih h.2]
    rfl

/-- Without its character a mark is not found. -/
theorem breakOn_eq_none {a : Char} {t : Text} (h : a ∉ t) : breakOn [a] t = none := by
  cases hbreak : breakOn [a] t with
  | none => rfl
  | some found =>
    rw [eq_of_breakOn hbreak] at h
    simp at h

/-- Whether a mark is a beginning is decided by as many characters as the mark has. -/
theorem isPrefixOf?_eq_none_before {sep a b : Text} (h : sep.isPrefixOf? (a ++ sep ++ b) = none)
    (other : Text) : sep.isPrefixOf? (a ++ sep ++ other) = none := by
  cases hp : sep.isPrefixOf? (a ++ sep ++ other) with
  | none => rfl
  | some after =>
    have hstart : sep <+: a ++ sep ++ other := ⟨after, List.append_eq_of_isPrefixOf?_eq_some hp⟩
    have hshort : sep <+: a ++ sep :=
      List.prefix_of_prefix_length_le hstart (List.prefix_append _ _) (by simp)
    obtain ⟨between, hbetween⟩ := hshort
    rw [← hbetween, List.append_assoc, List.isPrefixOf?_eq_some_iff_append_eq.2 rfl] at h
    cases h

/-- A mark is found at the same place whatever stands behind it. -/
theorem breakOn_before {sep t a b : Text} (h : breakOn sep t = some (a, b)) (other : Text) :
    breakOn sep (a ++ sep ++ other) = some (a, other) := by
  have hhere : breakOn sep (sep ++ other) = some ([], other) := by
    cases hall : sep ++ other with
    | nil =>
      obtain ⟨rfl, rfl⟩ := List.append_eq_nil_iff.1 hall
      rfl
    | cons c rest => rw [breakOn, ← hall, List.isPrefixOf?_eq_some_iff_append_eq.2 rfl]
  induction t generalizing a with
  | nil =>
    have hfound : sep = [] ∧ ([], []) = (a, b) := by simpa [breakOn] using h
    obtain ⟨rfl, rfl⟩ := Prod.mk.inj hfound.2
    exact hhere
  | cons c rest ih =>
    have hwhole := eq_of_breakOn h
    rw [breakOn] at h
    split at h
    · obtain ⟨rfl, rfl⟩ := Prod.mk.inj (Option.some.inj h)
      exact hhere
    next hnone =>
      obtain ⟨found, hfound, he⟩ := Option.map_eq_some_iff.1 h
      obtain ⟨rfl, rfl⟩ := Prod.mk.inj he
      rw [hwhole] at hnone
      have hfirst := isPrefixOf?_eq_none_before hnone other
      rw [List.cons_append, List.cons_append] at hfirst ⊢
      rw [breakOn, hfirst, ih hfound]
      rfl

/-- A run of characters of one kind is cut off before the first of another kind. -/
theorem span_append {p : Char → Bool} {run rest : Text} (hrun : ∀ c ∈ run, p c = true)
    (hrest : ∀ c ∈ rest.head?, p c = false) :
    (run ++ rest).takeWhile p = run ∧ (run ++ rest).dropWhile p = rest := by
  rw [List.takeWhile_append_of_pos hrun, List.dropWhile_append_of_pos hrun]
  cases rest with
  | nil => exact ⟨List.append_nil run, rfl⟩
  | cons c rest =>
    have hc : ¬ p c = true := by rw [hrest c rfl]; decide
    rw [List.takeWhile_cons_of_neg hc, List.dropWhile_cons_of_neg hc]
    exact ⟨List.append_nil run, rfl⟩

/-!
### Separators
-/

/-- What stands in parts with separators between them is the separator or stands in a part. -/
theorem mem_intercalate {sep c : Char} {ts : List Text} (h : c ∈ [sep].intercalate ts) :
    c = sep ∨ ∃ t ∈ ts, c ∈ t := by
  induction ts with
  | nil => cases h
  | cons t ts ih =>
    cases ts with
    | nil =>
      rw [List.intercalate_singleton] at h
      exact .inr ⟨t, List.mem_cons_self, h⟩
    | cons u ts =>
      rw [List.intercalate_cons_cons, List.append_assoc, List.mem_append] at h
      rcases h with h | h
      · exact .inr ⟨t, List.mem_cons_self, h⟩
      · rcases List.mem_cons.1 h with h | h
        · exact .inl h
        · rcases ih h with h | ⟨v, hv, h⟩
          · exact .inl h
          · exact .inr ⟨v, List.mem_cons_of_mem t hv, h⟩

/-- Parts with separators between them are not empty if the first is not. -/
theorem intercalate_ne_nil {p : Text} (h : p ≠ []) (sep : Text) (ps : List Text) :
    sep.intercalate (p :: ps) ≠ [] := by
  cases ps with
  | nil => rwa [List.intercalate_singleton]
  | cons q ps =>
    rw [List.intercalate_cons_cons, List.append_assoc]
    exact List.append_ne_nil_of_left_ne_nil h _

/-- One more part comes behind one more separator. -/
theorem intercalate_concat {α : Type} {sep : α} {ps : List (List α)} (h : ps ≠ []) (p : List α) :
    [sep].intercalate (ps ++ [p]) = [sep].intercalate ps ++ sep :: p := by
  induction ps with
  | nil => exact absurd rfl h
  | cons q ps ih =>
    cases ps with
    | nil =>
      rw [List.singleton_append, List.intercalate_cons_cons, List.intercalate_singleton,
        List.intercalate_singleton, List.append_assoc]
      rfl
    | cons r ps =>
      have hlater := ih (List.cons_ne_nil r ps)
      rw [List.cons_append] at hlater
      rw [List.cons_append, List.cons_append, List.intercalate_cons_cons, hlater,
        List.intercalate_cons_cons]
      simp only [List.append_assoc]

/-!
### Blanks at the ends
-/

theorem trimStart_cons_of_blank {c : Char} (h : isBlank c = true) (t : Text) :
    trimStart (c :: t) = trimStart t := List.dropWhile_cons_of_pos h

theorem trimStart_cons_of_not_blank {c : Char} (h : isBlank c = false) (t : Text) :
    trimStart (c :: t) = c :: t := List.dropWhile_cons_of_neg (by rw [h]; decide)

theorem trimEnd_append_of_blank {c : Char} (h : isBlank c = true) (t : Text) :
    trimEnd (t ++ [c]) = trimEnd t := by
  rw [trimEnd, dropEndWhile, List.reverse_append, List.reverse_singleton, List.singleton_append,
    List.dropWhile_cons_of_pos h]
  rfl

theorem trimEnd_append_of_not_blank {c : Char} (h : isBlank c = false) (t : Text) :
    trimEnd (t ++ [c]) = t ++ [c] := by
  rw [trimEnd, dropEndWhile, List.reverse_append, List.reverse_singleton, List.singleton_append,
    List.dropWhile_cons_of_neg (by rw [h]; decide), List.reverse_cons, List.reverse_reverse]

/-- Trimming a text that is trimmed already changes neither end of it. -/
theorem trimStart_eq_self {t : Text} (h : trim t = t) : trimStart t = t := by
  have hlen := congrArg List.length h
  have hle := length_trimEnd_le (trimStart t)
  have hsuffix : trimStart t <:+ t := List.dropWhile_suffix _
  rw [trim] at hlen
  exact hsuffix.eq_of_length_le (by omega)

theorem trimEnd_eq_self {t : Text} (h : trim t = t) : trimEnd t = t := by
  have hstart := trimStart_eq_self h
  rw [trim, hstart] at h
  exact h

/-- A text without blanks at its end keeps that behind one more character. -/
theorem trimEnd_cons {t : Text} (h : trimEnd t = t) (ht : t ≠ []) (a : Char) :
    trimEnd (a :: t) = a :: t := by
  obtain ⟨u, c, rfl⟩ := (List.eq_nil_or_concat t).resolve_left ht
  rw [List.concat_eq_append] at *
  cases hc : isBlank c with
  | false => exact trimEnd_append_of_not_blank hc (a :: u)
  | true =>
    rw [trimEnd_append_of_blank hc] at h
    have := congrArg List.length h
    have := length_trimEnd_le u
    rw [List.length_append, List.length_singleton] at *
    omega

/-- A blank at the start does not survive trimming. -/
theorem trim_cons_of_blank {c : Char} (h : isBlank c = true) (t : Text) :
    trim (c :: t) = trim t := by
  rw [trim, trimStart_cons_of_blank h, trim]

/-- A blank at the end does not survive trimming. -/
theorem trim_append_of_blank {c : Char} (h : isBlank c = true) (t : Text) :
    trim (t ++ [c]) = trim t := by
  have hstart : trimStart (t ++ [c]) =
      if (trimStart t).isEmpty then trimStart [c] else trimStart t ++ [c] := List.dropWhile_append
  rw [trim, trim, hstart]
  split
  · next he =>
    rw [List.isEmpty_iff.1 he, trimStart_cons_of_blank h]
    rfl
  · exact trimEnd_append_of_blank h (trimStart t)

/-- A trimmed text between two blanks is what trimming them gives. -/
theorem trim_between_blanks {t : Text} (h : trim t = t) {a b : Char} (ha : isBlank a = true)
    (hb : isBlank b = true) : trim (a :: (t ++ [b])) = t := by
  rw [trim_cons_of_blank ha, trim_append_of_blank hb, h]

/-- Any number of blanks at the start do not survive trimming. -/
theorem trim_blanks_append {before : Text} (h : ∀ c ∈ before, isBlank c = true) (t : Text) :
    trim (before ++ t) = trim t := by
  induction before with
  | nil => rfl
  | cons c before ih =>
    rw [List.cons_append, trim_cons_of_blank (h c List.mem_cons_self)]
    exact ih fun d hd => h d (List.mem_cons_of_mem c hd)

/-- Any number of blanks at the end do not survive trimming. -/
theorem trim_append_blanks {after : Text} (h : ∀ c ∈ after, isBlank c = true) (t : Text) :
    trim (t ++ after) = trim t := by
  induction after generalizing t with
  | nil => rw [List.append_nil]
  | cons c after ih =>
    rw [List.append_cons, ih (fun d hd => h d (List.mem_cons_of_mem c hd)),
      trim_append_of_blank (h c List.mem_cons_self)]

/-- What trimming takes away at the start is a run of blanks. -/
theorem exists_trimStart (t : Text) :
    ∃ before, (∀ c ∈ before, isBlank c = true) ∧ t = before ++ trimStart t :=
  ⟨t.takeWhile isBlank, List.all_eq_true.1 List.all_takeWhile,
    List.takeWhile_append_dropWhile.symm⟩

/-- What trimming takes away at the end is a run of blanks. -/
theorem exists_trimEnd (t : Text) :
    ∃ after, (∀ c ∈ after, isBlank c = true) ∧ t = trimEnd t ++ after := by
  refine ⟨(t.reverse.takeWhile isBlank).reverse, fun c hc => ?_, ?_⟩
  · exact List.all_eq_true.1 List.all_takeWhile c (List.mem_reverse.1 hc)
  · rw [trimEnd, dropEndWhile, ← List.reverse_append, List.takeWhile_append_dropWhile,
      List.reverse_reverse]

/-- What trimming takes away at the two ends are runs of blanks. -/
theorem exists_trim (t : Text) :
    ∃ before after, (∀ c ∈ before, isBlank c = true) ∧ (∀ c ∈ after, isBlank c = true) ∧
      t = before ++ (trim t ++ after) := by
  obtain ⟨before, hbefore, hstart⟩ := exists_trimStart t
  obtain ⟨after, hafter, hend⟩ := exists_trimEnd (trimStart t)
  exact ⟨before, after, hbefore, hafter, by rw [trim, ← hend, ← hstart]⟩

/-- Trimming one end first makes no difference to trimming both. -/
theorem trim_trimStart (t : Text) : trim (trimStart t) = trim t := by
  obtain ⟨before, hblank, ht⟩ := exists_trimStart t
  have htrim := trim_blanks_append hblank (trimStart t)
  rw [← ht] at htrim
  exact htrim.symm

theorem trim_trimEnd (t : Text) : trim (trimEnd t) = trim t := by
  obtain ⟨after, hblank, ht⟩ := exists_trimEnd t
  have htrim := trim_append_blanks hblank (trimEnd t)
  rw [← ht] at htrim
  exact htrim.symm

/-- Trimming twice is trimming once. -/
theorem trim_trim (t : Text) : trim (trim t) = trim t :=
  (trim_trimEnd (trimStart t)).trans (trim_trimStart t)

/-- Around a character that is not blank trimming works on the two sides separately. -/
theorem trim_append_cons {c : Char} (h : isBlank c = false) (t u : Text) :
    trim (t ++ c :: u) = trimStart t ++ c :: trimEnd u := by
  have hdrop (v w : Text) : (v ++ c :: w).dropWhile isBlank = v.dropWhile isBlank ++ c :: w := by
    induction v with
    | nil => exact trimStart_cons_of_not_blank h w
    | cons d v ih =>
      rw [List.cons_append, List.dropWhile_cons, List.dropWhile_cons]
      split
      · exact ih
      · rfl
  have hend : trimEnd (trimStart t ++ c :: u) = trimStart t ++ c :: trimEnd u := by
    have hreverse : (trimStart t ++ c :: u).reverse = u.reverse ++ c :: (trimStart t).reverse := by
      rw [List.reverse_append, List.reverse_cons, List.append_assoc, List.singleton_append]
    rw [trimEnd, dropEndWhile, hreverse, hdrop, List.reverse_append, List.reverse_cons,
      List.reverse_reverse, List.append_assoc, List.singleton_append]
    rfl
  rw [trim, trimStart, hdrop]
  exact hend

/-- Only blanks are trimmed to nothing. -/
theorem trim_eq_nil_iff {t : Text} : trim t = [] ↔ ∀ c ∈ t, isBlank c = true := by
  constructor
  · intro h c hc
    obtain ⟨before, after, hbefore, hafter, ht⟩ := exists_trim t
    rw [h, List.nil_append] at ht
    rw [ht] at hc
    exact (List.mem_append.1 hc).elim (hbefore c) (hafter c)
  · intro h
    have hblanks := trim_blanks_append h []
    rwa [List.append_nil] at hblanks

/-- A text that begins and ends with characters that are not blank is trimmed. -/
theorem trim_eq_self {t : Text} {a b : Char} (ht : t.head? = some a) (ha : isBlank a = false)
    (hl : t.getLast? = some b) (hb : isBlank b = false) : trim t = t := by
  obtain ⟨u, rfl⟩ := List.getLast?_eq_some_iff.1 hl
  have hstart : trimStart (u ++ [b]) = u ++ [b] := by
    obtain ⟨v, hv⟩ := List.head?_eq_some_iff.1 ht
    rw [hv]
    exact trimStart_cons_of_not_blank ha v
  rw [trim, hstart]
  exact trimEnd_append_of_not_blank hb u

/-- A text without blanks is trimmed. -/
theorem trim_of_no_blank {t : Text} (h : ∀ c ∈ t, isBlank c = false) : trim t = t := by
  cases t with
  | nil => rfl
  | cons c t =>
    exact trim_eq_self rfl (h c List.mem_cons_self)
      (List.getLast?_eq_some_getLast (List.cons_ne_nil c t))
      (h _ (List.getLast_mem (List.cons_ne_nil c t)))

end Text

end PromptTemplate
