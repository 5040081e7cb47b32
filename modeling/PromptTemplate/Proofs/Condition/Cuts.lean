import PromptTemplate.Proofs.Condition.Spelling

/-!
# Comparisons and tests among words

A comparison is cut at its own sign or at its own `in`, since no operand shows a
sign and none is the word `in`. What has no cut is a test if it ends with the
words of one, and else an operand.
-/

namespace PromptTemplate

namespace Condition

/-!
### Sides
-/

/-- The words between two conditions and between the sides of a comparison. -/
def cutWords : List Text := ["or", "and", "in"].map String.toList

theorem isKeyword_of_mem_cutWords : ∀ kw ∈ cutWords, Nesting.IsKeyword kw := by decide

/-- What may stand on a side of a comparison: a text in which nothing is found that a condition
is cut at. -/
structure IsSide (t : Text) : Prop where
  first : ∃ c, t.head? = some c ∧ Text.isBlank c = false
  last : ∃ c, t.getLast? = some c ∧ Text.isBlank c = false
  balanced : Nesting.isBalanced t = true
  /-- It shows no sign of a comparison. -/
  unsigned : ∀ m : Char, IsSign m → m ∉ Nesting.State.start.visible t
  /-- The search for a word passes over it. -/
  passed : ∀ kw ∈ cutWords, ∀ (previous : Option Char) (u : Text), Nesting.BehindWord u →
    Nesting.State.start.breakWord previous kw (t ++ u) =
      (Nesting.State.start.breakWord none kw u).map fun found => (t ++ found.1, found.2)
  /-- It does not begin with a `not`. -/
  unnegated : ∀ u : Text, Nesting.BehindWord u →
    ("not".toList.isPrefixOf? (t ++ u)).filter Nesting.endsWord = none
  /-- It does not end with a blank and a `not`. -/
  final : ∀ before : Text, "not".toList.isSuffixOf? t = some before →
    before.getLast?.any Text.isBlank = false

namespace IsSide

variable {t : Text}

theorem ne_nil (h : IsSide t) : t ≠ [] := by
  obtain ⟨c, hc, -⟩ := h.first
  rintro rfl
  cases hc

/-- A side is trimmed. -/
theorem trim (h : IsSide t) : Text.trim t = t := by
  obtain ⟨a, ha, hfirst⟩ := h.first
  obtain ⟨b, hb, hlast⟩ := h.last
  exact Text.trim_eq_self ha hfirst hb hlast

/-- A scan is at the start again behind a side. -/
theorem run (h : IsSide t) : Nesting.State.start.run t = Nesting.State.start :=
  Nesting.State.run_of_closes h.balanced

/-- A word that conditions are not cut at may stand on a side. -/
theorem of_word (h : Nesting.IsWord t) (hword : t ∉ "not".toList :: cutWords)
    (hsign : ∀ m : Char, IsSign m → m ∉ Nesting.State.start.visible t)
    (hfinal : ∀ before : Text, "not".toList.isSuffixOf? t = some before →
      before.getLast?.any Text.isBlank = false) : IsSide t := by
  rw [List.mem_cons, not_or] at hword
  refine ⟨h.first, h.last, h.balanced, hsign, fun kw hkw previous u hu => ?_,
    fun u hu => h.prefix_filter isKeyword_not hword.1 hu, hfinal⟩
  exact h.breakWord (isKeyword_of_mem_cutWords kw hkw) (fun he => hword.2 (he ▸ hkw)) hu previous

end IsSide

/-- An operand may stand on a side. -/
theorem Operand.isSide (o : Operand) : IsSide o.text := by
  have hreserved : ∀ w ∈ "not".toList :: cutWords, w ∈ reserved := by decide
  exact .of_word o.isWord (fun h => o.text_not_reserved (hreserved _ h))
    (fun m hm => o.not_mem_visible hm) fun before => o.getLast?_of_isSuffixOf? (c := 't') rfl rfl

/-!
### Signs
-/

section

variable {ws : List Text} {m : Char}

/-- What no word shows is not shown by the text of the words. -/
theorem not_mem_visible_unwords (h : ∀ w ∈ ws, Nesting.IsWord w) (hm : m ≠ ' ')
    (hv : ∀ w ∈ ws, m ∉ Nesting.State.start.visible w) :
    m ∉ Nesting.State.start.visible (Nesting.unwords ws) := by
  rw [Nesting.visible_unwords h]
  intro hmem
  rcases Text.mem_intercalate hmem with hspace | ⟨t, ht, hmt⟩
  · exact hm hspace
  · obtain ⟨w, hw, rfl⟩ := List.mem_map.1 ht
    exact hv w hw hmt

/-- There is no cut at a sign that a text does not show. -/
theorem cutAt_eq_none {t : Text} (h : m ∉ Nesting.State.start.visible t) (sign : Text)
    (op : Connective) : cutAt (m :: sign) op t = none := by
  rw [cutAt, Nesting.breakAt, Nesting.State.breakAt_eq_none h]
  rfl

end

/-- A sign behind a side is where a condition is cut. -/
theorem cutAt_sign {l : Text} (hl : IsSide l) {m : Char} (hm : IsSign m) (sign rest : Text)
    (op : Connective) : cutAt (m :: sign) op (l ++ ' ' :: (m :: (sign ++ rest))) =
      some ⟨l ++ [' '], rest, op, false⟩ := by
  have hspace : m ≠ ' ' := hm.ne_space
  have hvisible : m ∉ Nesting.State.start.visible (l ++ [' ']) := by
    rw [Nesting.State.visible_append, hl.run, List.mem_append, not_or]
    exact ⟨hl.unsigned m hm, fun h => hspace (List.mem_singleton.1 h)⟩
  have hrun : Nesting.State.start.run (l ++ [' ']) = Nesting.State.start := by
    rw [Nesting.State.run_append, hl.run]
    rfl
  have hfound : Nesting.breakAt (m :: sign) (l ++ [' '] ++ m :: (sign ++ rest)) =
      some (l ++ [' '], rest) := by
    rw [Nesting.breakAt, Nesting.State.breakAt_append hvisible, hrun, Nesting.breakAt_start,
      Option.map_some, List.append_nil]
  rw [List.append_assoc, List.singleton_append] at hfound
  rw [cutAt, hfound]
  rfl

/-- There is no cut at an `in` that is not found. -/
theorem cutMember_eq_none {t : Text} (h : Nesting.breakWord "in".toList t = none) :
    cutMember t = none := by
  rw [cutMember, h]
  rfl

/-!
### Comparisons
-/

/-- A comparison of two texts as it is written. -/
def Comparison.write (c : Comparison) (l r : Text) : Text :=
  Nesting.unwords (l :: (c.words ++ [r]))

/-- Where a comparison is cut. -/
def Comparison.cut (left right : Text) : Comparison → Cut
  | .equal => ⟨left ++ [' '], ' ' :: right, .equal, false⟩
  | .unequal => ⟨left ++ [' '], ' ' :: right, .unequal, false⟩
  | .member => ⟨left ++ [' '], ' ' :: right, .member, false⟩
  | .notMember => ⟨left ++ [' '], ' ' :: right, .member, true⟩

/-- The words of a comparison are keywords. -/
theorem Comparison.isKeyword_of_mem_words (c : Comparison) :
    ∀ w ∈ c.words, Nesting.IsKeyword w := by
  cases c <;> decide

theorem Comparison.isWord_of_mem_words (c : Comparison) : ∀ w ∈ c.words, Nesting.IsWord w :=
  fun w hw => (c.isKeyword_of_mem_words w hw).isWord

theorem Comparison.words_ne_nil (c : Comparison) : c.words ≠ [] := by
  cases c <;> exact List.cons_ne_nil _ _

/-- A comparison is its sides around its words. -/
theorem Comparison.write_eq (c : Comparison) (l r : Text) :
    c.write l r = l ++ ' ' :: (Nesting.unwords c.words ++ ' ' :: r) := by
  rw [write, Nesting.unwords_cons (List.append_ne_nil_of_right_ne_nil _ (List.cons_ne_nil r [])),
    Nesting.unwords_append c.words_ne_nil (List.cons_ne_nil r []), Nesting.unwords_singleton]

/-- The text of a comparison of operands by one word. -/
theorem text_compare (left right : Operand) {c : Comparison} {w : Text} (hc : c.words = [w]) :
    (Spelling.compare c left right).text = left.text ++ ' ' :: (w ++ ' ' :: right.text) := by
  have htext := c.write_eq left.text right.text
  rw [hc, Nesting.unwords_singleton] at htext
  exact htext

section

variable {l r : Text} (hl : IsSide l) (hr : IsSide r)

include hl hr

/-- The cut of a comparison gives the condition that it stands for. -/
theorem ofCut_cut (c : Comparison) (t : Text) : ofCut t (c.cut l r) = .ok (c.condition l r) := by
  have hleft : Text.trim (l ++ [' ']) = l := (Text.trim_append_of_blank rfl _).trans hl.trim
  have hright : Text.trim (' ' :: r) = r := (Text.trim_cons_of_blank rfl _).trans hr.trim
  have hne : ¬ (l = [] ∨ r = []) := by
    rintro (h | h)
    · exact hl.ne_nil h
    · exact hr.ne_nil h
  cases c <;> simp only [ofCut, Comparison.cut, hleft, hright, if_neg hne] <;> rfl

omit hr in
/-- A comparison shows what its sides and its words show, and the spaces between them. -/
theorem visible_write (c : Comparison) : Nesting.State.start.visible (c.write l r) =
    Nesting.State.start.visible l ++
      ' ' :: (Nesting.State.start.visible (Nesting.unwords c.words) ++
        ' ' :: Nesting.State.start.visible r) := by
  have hspace : Nesting.State.start.step ' ' = Nesting.State.start := rfl
  have hwords := Nesting.State.run_of_closes (Nesting.isBalanced_unwords c.isWord_of_mem_words)
  rw [c.write_eq, Nesting.State.visible_append, hl.run,
    Nesting.State.visible_cons_of_top (Nesting.isTop_start ' '), hspace,
    Nesting.State.visible_append, hwords,
    Nesting.State.visible_cons_of_top (Nesting.isTop_start ' '), hspace]

/-- A comparison is balanced. -/
theorem isBalanced_write (c : Comparison) : Nesting.isBalanced (c.write l r) = true := by
  have hspace : Nesting.isBalanced [' '] = true := by decide
  have hwords := Nesting.isBalanced_unwords c.isWord_of_mem_words
  have hright : Nesting.isBalanced (' ' :: r) = true :=
    Nesting.isBalanced_append (t := [' ']) hspace hr.balanced
  have hbehind := Nesting.isBalanced_append hwords hright
  rw [c.write_eq]
  exact Nesting.isBalanced_append hl.balanced
    (Nesting.isBalanced_append (t := [' ']) hspace hbehind)

/-- A comparison is not cut at the sign of another one. -/
theorem cutAt_write {c : Comparison} {m : Char} (hm : IsSign m)
    (hc : m ∉ Nesting.State.start.visible (Nesting.unwords c.words)) (sign : Text)
    (op : Connective) : cutAt (m :: sign) op (c.write l r) = none := by
  have hspace : m ≠ ' ' := hm.ne_space
  refine cutAt_eq_none ?_ sign op
  rw [visible_write hl]
  simp only [List.mem_append, List.mem_cons, not_or]
  exact ⟨hl.unsigned m hm, hspace, hc, hspace, hr.unsigned m hm⟩

/-- In a comparison no word is found that is not among its own. -/
theorem breakWord_write {c : Comparison} {kw : Text} (hkw : kw ∈ cutWords) (hc : kw ∉ c.words) :
    Nesting.breakWord kw (c.write l r) = none := by
  have hkeyword := isKeyword_of_mem_cutWords kw hkw
  have hright : Nesting.State.start.breakWord (some ' ') kw r = none := by
    have hpassed := hr.passed kw hkw (some ' ') [] (.inl rfl)
    rwa [List.append_nil] at hpassed
  rw [Nesting.breakWord, c.write_eq, hl.passed kw hkw none _ (.inr ⟨_, rfl⟩),
    Nesting.breakWord_blank hkeyword,
    Nesting.breakWord_unwords hkeyword c.words_ne_nil c.isWord_of_mem_words hc (.inr ⟨_, rfl⟩),
    Nesting.breakWord_blank hkeyword, hright]
  rfl

/-- The second character of `!=` is not the first of `==`. -/
theorem cutAt_equal_unequal :
    cutAt "==".toList .equal (Comparison.write .unequal l r) = none := by
  have hrun : Nesting.State.start.run (l ++ [' ', '!']) = Nesting.State.start := by
    rw [Nesting.State.run_append, hl.run]
    rfl
  have hbefore : '=' ∉ Nesting.State.start.visible (l ++ [' ', '!']) := by
    rw [Nesting.State.visible_append, hl.run, List.mem_append, not_or]
    exact ⟨hl.unsigned '=' (.inl rfl), by decide⟩
  have hbehind : '=' ∉ Nesting.State.start.visible (' ' :: r) := by
    rw [Nesting.State.visible_cons_of_top (Nesting.isTop_start ' '), List.mem_cons, not_or]
    exact ⟨by decide, hr.unsigned '=' (.inl rfl)⟩
  have hnone : Nesting.State.start.breakAt ['=', '='] ('=' :: ' ' :: r) = none := by
    have hrest := Nesting.State.breakAt_eq_none hbehind ['=']
    have hstep : Nesting.State.start.step '=' = Nesting.State.start := rfl
    rw [Nesting.State.breakAt, Nesting.isTop_start, if_pos rfl, Text.isPrefixOf?_cons_self,
      Text.isPrefixOf?_cons_of_ne (by decide), hstep, hrest]
    rfl
  have hbreak : Nesting.breakAt ['=', '='] (l ++ [' ', '!'] ++ '=' :: ' ' :: r) = none := by
    rw [Nesting.breakAt, Nesting.State.breakAt_append hbefore, hrun, hnone]
    rfl
  have htext : Comparison.write .unequal l r = l ++ [' ', '!'] ++ '=' :: ' ' :: r := by
    rw [Comparison.write_eq, List.append_assoc]
    rfl
  rw [htext, cutAt]
  exact congrArg (Option.map _) hbreak

omit hr in
/-- A membership is cut at its `in`. -/
theorem cutMember_member :
    cutMember (Comparison.write .member l r) = some (Comparison.cut l r .member) := by
  have hbreak : Nesting.breakWord "in".toList (Comparison.write .member l r) =
      some (l ++ [' '], ' ' :: r) := by
    have hwords : Nesting.unwords Comparison.member.words = "in".toList :=
      Nesting.unwords_singleton _
    rw [Nesting.breakWord, Comparison.write_eq, hwords,
      hl.passed _ (by decide) none _ (.inr ⟨_, rfl⟩), Nesting.breakWord_blank isKeyword_in,
      Nesting.breakWord_here isKeyword_in]
    rfl
  have hend : Text.trimEnd (l ++ [' ']) = l := by
    rw [Text.trimEnd_append_of_blank rfl, Text.trimEnd_eq_self hl.trim]
  rw [cutMember, hbreak, Option.map_some]
  simp only [hend]
  cases hs : "not".toList.isSuffixOf? l with
  | none => rfl
  | some before =>
    -- the side may end with these letters, but not behind a blank
    simp only [hl.final before hs]
    rfl

omit hr in
/-- A negated membership is cut at its `not`. -/
theorem cutMember_notMember :
    cutMember (Comparison.write .notMember l r) = some (Comparison.cut l r .notMember) := by
  have hwords : Nesting.unwords Comparison.notMember.words =
      "not".toList ++ ' ' :: "in".toList := by decide
  have hbreak : Nesting.breakWord "in".toList (Comparison.write .notMember l r) =
      some (l ++ [' '] ++ "not".toList ++ [' '], ' ' :: r) := by
    have hnot : "not".toList ≠ "in".toList := by decide
    rw [Nesting.breakWord, Comparison.write_eq, hwords, List.append_assoc, List.cons_append,
      hl.passed _ (by decide) none _ (.inr ⟨_, rfl⟩), Nesting.breakWord_blank isKeyword_in,
      isKeyword_not.isWord.breakWord isKeyword_in hnot (.inr ⟨_, rfl⟩),
      Nesting.breakWord_blank isKeyword_in, Nesting.breakWord_here isKeyword_in]
    simp
  have hend : Text.trimEnd (l ++ [' '] ++ "not".toList ++ [' ']) = l ++ [' '] ++ "not".toList := by
    have hlast : l ++ [' '] ++ "not".toList = l ++ [' ', 'n', 'o'] ++ ['t'] := by
      rw [List.append_assoc, List.append_assoc]
      rfl
    rw [Text.trimEnd_append_of_blank rfl, hlast, Text.trimEnd_append_of_not_blank rfl]
  rw [cutMember, hbreak, Option.map_some]
  simp only [hend, List.isSuffixOf?_eq_some_iff_append_eq.2 rfl, List.getLast?_concat]
  rfl

/-- A comparison is cut at its own words. -/
theorem cut?_write (c : Comparison) : cut? (c.write l r) = some (c.cut l r) := by
  have hequal (h : '=' ∉ Nesting.State.start.visible (Nesting.unwords c.words)) :
      cutAt "==".toList .equal (c.write l r) = none := cutAt_write hl hr (.inl rfl) h ['='] .equal
  have hunequal (h : '!' ∉ Nesting.State.start.visible (Nesting.unwords c.words)) :
      cutAt "!=".toList .unequal (c.write l r) = none :=
    cutAt_write hl hr (.inr rfl) h ['='] .unequal
  have hmember (h : "in".toList ∉ c.words) : cutMember (c.write l r) = none :=
    cutMember_eq_none (breakWord_write hl hr (by decide) h)
  cases c with
  | equal =>
    have hcut : cutAt "==".toList .equal (Comparison.write .equal l r) =
        some (Comparison.cut l r .equal) := by
      rw [Comparison.write_eq]
      exact cutAt_sign hl (.inl rfl) ['='] (' ' :: r) .equal
    rw [cut?, hcut, hunequal (by decide), hmember (by decide)]
    rfl
  | unequal =>
    have hcut : cutAt "!=".toList .unequal (Comparison.write .unequal l r) =
        some (Comparison.cut l r .unequal) := by
      rw [Comparison.write_eq]
      exact cutAt_sign hl (.inr rfl) ['='] (' ' :: r) .unequal
    rw [cut?, cutAt_equal_unequal hl hr, hcut, hmember (by decide)]
    rfl
  | member =>
    rw [cut?, hequal (by decide), hunequal (by decide), cutMember_member hl]
    rfl
  | notMember =>
    rw [cut?, hequal (by decide), hunequal (by decide), cutMember_notMember hl]
    rfl

end

/-!
### Tests and operands
-/

/-- A text that shows no sign and has no `in` has no cut. -/
theorem cut?_of_unsigned {t : Text}
    (hsign : ∀ m : Char, IsSign m → m ∉ Nesting.State.start.visible t)
    (hin : Nesting.breakWord "in".toList t = none) : cut? t = none := by
  have hequal : cutAt "==".toList .equal t = none :=
    cutAt_eq_none (hsign '=' (.inl rfl)) ['='] .equal
  have hunequal : cutAt "!=".toList .unequal t = none :=
    cutAt_eq_none (hsign '!' (.inr rfl)) ['='] .unequal
  rw [cut?, hequal, hunequal, cutMember_eq_none hin]
  rfl

/-- A condition that is neither a comparison nor negated or joined has no cut. -/
theorem cut?_eq_none {s : Spelling}
    (hsign : ∀ m : Char, IsSign m →
      ∀ w ∈ s.words, m ∉ Nesting.State.start.visible w)
    (hin : "in".toList ∉ s.words) : cut? s.text = none :=
  cut?_of_unsigned
    (fun m hm => not_mem_visible_unwords s.isWord_of_mem_words hm.ne_space (hsign m hm))
    (Nesting.breakWord_eq_none isKeyword_in s.words_ne_nil s.isWord_of_mem_words hin none)

/-- A test behind a text is found. -/
theorem ofTest_append (t : Test) (name : Text) :
    ofTest (name ++ ' ' :: Nesting.unwords t.words) = t.condition (Text.trim name) := by
  cases t with
  | isDefined =>
    have hwords : ' ' :: Nesting.unwords Test.isDefined.words = " is defined".toList := by decide
    have hnot : " is not defined".toList.isSuffixOf? (name ++ " is defined".toList) = none :=
      Text.isSuffixOf?_append_eq_none (by decide) (by decide) name
    rw [hwords, ofTest, hnot, List.isSuffixOf?_eq_some_iff_append_eq.2 rfl]
    rfl
  | isNotDefined =>
    have hwords : ' ' :: Nesting.unwords Test.isNotDefined.words = " is not defined".toList := by
      decide
    rw [hwords, ofTest, List.isSuffixOf?_eq_some_iff_append_eq.2 rfl]
    rfl
  | isNotNone =>
    have hwords : ' ' :: Nesting.unwords Test.isNotNone.words = " is not none".toList := by decide
    have hnot : " is not defined".toList.isSuffixOf? (name ++ " is not none".toList) = none :=
      Text.isSuffixOf?_append_eq_none (by decide) (by decide) name
    have hdefined : " is defined".toList.isSuffixOf? (name ++ " is not none".toList) = none :=
      Text.isSuffixOf?_append_eq_none (by decide) (by decide) name
    rw [hwords, ofTest, hnot, hdefined, List.isSuffixOf?_eq_some_iff_append_eq.2 rfl]
    rfl
  | isNone =>
    have hwords : ' ' :: Nesting.unwords Test.isNone.words = " is none".toList := by decide
    have hnot : " is not defined".toList.isSuffixOf? (name ++ " is none".toList) = none :=
      Text.isSuffixOf?_append_eq_none (by decide) (by decide) name
    have hdefined : " is defined".toList.isSuffixOf? (name ++ " is none".toList) = none :=
      Text.isSuffixOf?_append_eq_none (by decide) (by decide) name
    have hnotNone : " is not none".toList.isSuffixOf? (name ++ " is none".toList) = none :=
      Text.isSuffixOf?_append_eq_none (by decide) (by decide) name
    rw [hwords, ofTest, hnot, hdefined, hnotNone, List.isSuffixOf?_eq_some_iff_append_eq.2 rfl]
    rfl

/-- An operand is no test. -/
theorem ofTest_operand (o : Operand) : ofTest o.text = .literal o.text := by
  have hnotDefined : " is not defined".toList.isSuffixOf? o.text = none :=
    o.isSuffixOf?_text (c := 'd') (by decide) rfl rfl
  have hdefined : " is defined".toList.isSuffixOf? o.text = none :=
    o.isSuffixOf?_text (c := 'd') (by decide) rfl rfl
  have hnotNone : " is not none".toList.isSuffixOf? o.text = none :=
    o.isSuffixOf?_text (c := 'e') (by decide) rfl rfl
  have hnone : " is none".toList.isSuffixOf? o.text = none :=
    o.isSuffixOf?_text (c := 'e') (by decide) rfl rfl
  rw [ofTest, hnotDefined, hdefined, hnotNone, hnone]

end Condition

end PromptTemplate
