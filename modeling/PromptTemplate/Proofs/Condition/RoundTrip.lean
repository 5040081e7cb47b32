import PromptTemplate.Proofs.Condition.Cuts

/-!
# Reading what was spelled

A spelling is read back as the condition that it spells. The words decide which
branch of the reader is taken: a group, the connectives, a leading `not`, and
last a comparison, a test or a bare operand. A connective is cut into all the
parts that it joins from the left, so a spelling is read if its parts are.
-/

namespace PromptTemplate

namespace Condition

/-- The equation of reading, without the bounds that make it end. -/
theorem read_eq (t : Text) : read t =
    if Text.trim t = [] ∨ Nesting.isBalanced (Text.trim t) = false then
      .error (.invalidCondition t)
    else match Nesting.stripParens? (Text.trim t) with
    | some inside => read inside
    | none =>
      if 2 ≤ (Nesting.splitWord "or".toList (Text.trim t)).length then
        ((Nesting.splitWord "or".toList (Text.trim t)).mapM fun part =>
          read (Text.trim part)).map (joinLeft .or)
      else if 2 ≤ (Nesting.splitWord "and".toList (Text.trim t)).length then
        ((Nesting.splitWord "and".toList (Text.trim t)).mapM fun part =>
          read (Text.trim part)).map (joinLeft .and)
      else match behindNot? (Text.trim t) with
      | some rest => (read rest).map .not
      | none => (cut? (Text.trim t)).elim (.ok (ofTest (Text.trim t))) (ofCut (Text.trim t)) := by
  rw [read]
  split
  · rfl
  · split
    · next h => rw [h]
    · next h =>
      rw [h]
      simp only [dite_eq_ite, List.mapM_subtype, List.unattach_attach]
      congr 2
      split
      · next h => rw [h]
      · next h => rw [h]

/-- A text that the reader does not refuse at once and need not trim. -/
structure Readable (t : Text) : Prop where
  trimmed : Text.trim t = t
  ne_nil : t ≠ []
  balanced : Nesting.isBalanced t = true

/-!
### The branches of the reader
-/

namespace Readable

variable {t : Text}

/-- Nothing refuses a readable text at once. -/
theorem not_refused (h : Readable t) : ¬ (t = [] ∨ Nesting.isBalanced t = false) := by
  rintro (he | hb)
  · exact h.ne_nil he
  · rw [h.balanced] at hb
    cases hb

/-- A group is read as its inside. -/
theorem read_group (h : Readable t) {inside : Text} (hs : Nesting.stripParens? t = some inside) :
    read t = read inside := by
  rw [read_eq, h.trimmed, if_neg h.not_refused, hs]

/-- A text with a connective, and with none that binds more loosely, is read part by part. -/
theorem read_join (h : Readable t) (hs : Nesting.stripParens? t = none) (j : Joiner)
    (hlooser : ∀ k : Joiner, k.level < j.level → (Nesting.splitWord k.text t).length < 2)
    (two : 2 ≤ (Nesting.splitWord j.text t).length) :
    read t = ((Nesting.splitWord j.text t).mapM fun part => read (Text.trim part)).map
      (joinLeft j.connective) := by
  rw [read_eq, h.trimmed, if_neg h.not_refused, hs]
  cases j with
  | or => exact if_pos two
  | and =>
    have hor : ¬ 2 ≤ (Nesting.splitWord "or".toList t).length :=
      Nat.not_le_of_lt (hlooser .or (by decide))
    exact (if_neg hor).trans (if_pos two)

/-- A text without connectives is read by its first word. -/
theorem read_rest (h : Readable t) (hs : Nesting.stripParens? t = none)
    (hone : ∀ j : Joiner, (Nesting.splitWord j.text t).length < 2) :
    read t = match behindNot? t with
      | some rest => (read rest).map .not
      | none => (cut? t).elim (.ok (ofTest t)) (ofCut t) := by
  have hor : ¬ 2 ≤ (Nesting.splitWord "or".toList t).length := Nat.not_le_of_lt (hone .or)
  have hand : ¬ 2 ≤ (Nesting.splitWord "and".toList t).length := Nat.not_le_of_lt (hone .and)
  rw [read_eq, h.trimmed, if_neg h.not_refused, hs]
  exact (if_neg hor).trans (if_neg hand)

end Readable

/-!
### Comparisons
-/

/-- A comparison of two sides is read as the condition that it stands for. -/
theorem read_write {l r : Text} (hl : IsSide l) (hr : IsSide r) (c : Comparison) :
    read (c.write l r) = .ok (c.condition l r) := by
  have hreadable : Readable (c.write l r) := by
    obtain ⟨a, ha, hfirst⟩ := hl.first
    obtain ⟨b, hb, hlast⟩ := hr.last
    have hhead : (c.write l r).head? = some a := by
      rw [c.write_eq, List.head?_append, ha, Option.some_or]
    have hend : (c.write l r).getLast? = some b := by
      rw [c.write_eq, List.getLast?_append, List.getLast?_cons, List.getLast?_append,
        List.getLast?_cons, hb]
      rfl
    refine ⟨Text.trim_eq_self hhead hfirst hend hlast, ?_, isBalanced_write hl hr c⟩
    rintro he
    rw [he] at hhead
    cases hhead
  have hgroup : Nesting.stripParens? (c.write l r) = none := by
    have hleft := Nesting.length_visible_pos hl.ne_nil
    have hright := Nesting.length_visible_pos hr.ne_nil
    refine Nesting.stripParens?_eq_none ?_
    rw [visible_write hl]
    simp only [List.length_append, List.length_cons]
    omega
  have hone : ∀ j : Joiner, (Nesting.splitWord j.text (c.write l r)).length < 2 := by
    intro j
    have hcut : j.text ∈ cutWords := by cases j <;> decide
    have hword : j.text ∉ c.words := by cases j <;> cases c <;> decide
    exact Nesting.length_splitWord_of_eq_none (breakWord_write hl hr hcut hword)
  have hnot : behindNot? (c.write l r) = none := by
    rw [behindNot?, c.write_eq, hl.unnegated _ (.inr ⟨_, rfl⟩)]
    rfl
  rw [hreadable.read_rest hgroup hone, hnot, cut?_write hl hr]
  exact ofCut_cut hl hr c _

/-!
### Parts of a connective
-/

/-- Joining one more condition puts it on the right of all the others. -/
theorem joinLeft_concat (op : Connective) {cs : List Condition} (h : cs ≠ []) (c : Condition) :
    joinLeft op (cs ++ [c]) = .binary op (joinLeft op cs) c := by
  obtain ⟨d, cs, rfl⟩ := List.exists_cons_of_ne_nil h
  simp [joinLeft, List.foldl_append]

namespace Spelling

/-- The parts that a connective joins from the left. -/
def parts (j : Joiner) : Spelling → List Spelling
  | join k left right =>
    if k = j then parts j left ++ [right.within (j.level + 1)]
    else [(join k left right).within j.level]
  | s => [s]

theorem parts_join (j : Joiner) (left right : Spelling) :
    parts j (join j left right) = parts j left ++ [right.within (j.level + 1)] := if_pos rfl

theorem parts_join_of_ne {j k : Joiner} (h : k ≠ j) (left right : Spelling) :
    parts j (join k left right) = [(join k left right).within j.level] := if_neg h

/-- What is not joined binds at least as tightly as a negation. -/
theorem two_le_level {s : Spelling} (h : ∀ k left right, s = join k left right → False) :
    2 ≤ s.level := by
  cases s with
  | join k left right => exact (h k left right rfl).elim
  | not child => exact Nat.le_refl 2
  | literal o => exact Nat.le_succ 2
  | compare c left right => exact Nat.le_succ 2
  | test t p => exact Nat.le_succ 2
  | group inner => exact Nat.le_succ 2

theorem parts_ne_nil (j : Joiner) (s : Spelling) : parts j s ≠ [] := by
  fun_cases parts j s with
  | case1 left right => exact List.append_ne_nil_of_right_ne_nil _ (List.cons_ne_nil _ _)
  | case2 k left right hk => exact List.cons_ne_nil _ _
  | case3 s hs => exact List.cons_ne_nil _ _

/-- The words of the parts, joined by the connective, are the words of the whole. -/
theorem words_parts (j : Joiner) (s : Spelling) :
    [j.text].intercalate ((parts j s).map words) = guarded j.level s.level s.words := by
  fun_induction parts j s with
  | case1 left right ih =>
    have hne : (parts j left).map words ≠ [] := by
      rw [ne_eq, List.map_eq_nil_iff]
      exact parts_ne_nil j left
    have hwhole : guarded j.level (join j left right).level (join j left right).words =
        (join j left right).words := if_neg (Nat.lt_irrefl j.level)
    rw [List.map_append, List.map_singleton, Text.intercalate_concat hne, ih, words_within, hwhole]
    rfl
  | case2 k left right hk =>
    rw [List.map_singleton, List.intercalate_singleton, words_within]
  | case3 s hs =>
    have hlevel := two_le_level hs
    have hj := j.level_le
    rw [List.map_singleton, List.intercalate_singleton, guarded, if_neg (by omega)]

/-- The parts bind more tightly than the connective. -/
theorem lt_level_of_mem_parts {j : Joiner} {s d : Spelling} (h : d ∈ parts j s) :
    j.level < d.level := by
  have hj := j.level_le
  fun_induction parts j s with
  | case1 left right ih =>
    rcases List.mem_append.1 h with h | h
    · exact ih h
    · rw [List.mem_singleton.1 h]
      exact le_level_within (by omega) right
  | case2 k left right hk =>
    rw [List.mem_singleton.1 h]
    have hne : k.level ≠ j.level := by cases j <;> cases k <;> first | decide | exact absurd rfl hk
    by_cases hlevel : k.level < j.level
    · have hgroup : (join k left right).within j.level = group (join k left right) := if_pos hlevel
      rw [hgroup]
      change j.level < 3
      omega
    · have hsame : (join k left right).within j.level = join k left right := if_neg hlevel
      rw [hsame]
      change j.level < k.level
      omega
  | case3 s hs =>
    have hlevel := two_le_level hs
    rw [List.mem_singleton.1 h]
    omega

/-- Joining the conditions of the parts gives the condition of the whole. -/
theorem condition_parts (j : Joiner) (s : Spelling) :
    joinLeft j.connective ((parts j s).map condition) = s.condition := by
  fun_induction parts j s with
  | case1 left right ih =>
    have hne : (parts j left).map condition ≠ [] := by
      rw [ne_eq, List.map_eq_nil_iff]
      exact parts_ne_nil j left
    rw [List.map_append, List.map_singleton, joinLeft_concat _ hne, ih, condition_within]
    rfl
  | case2 k left right hk => exact condition_within j.level (join k left right)
  | case3 s hs => rfl

/-!
### Groups, connectives and negations
-/

/-- The text of a spelling is read as its condition. -/
def Reads (s : Spelling) : Prop := read s.text = .ok s.condition

/-- The text of a spelling is readable. -/
theorem readable_text (s : Spelling) : Readable s.text where
  trimmed := Nesting.trim_unwords s.isWord_of_mem_words
  ne_nil := Nesting.unwords_ne_nil s.words_ne_nil s.isWord_of_mem_words
  balanced := Nesting.isBalanced_unwords s.isWord_of_mem_words

/-- A condition of several words is not one group. -/
theorem stripParens?_text {s : Spelling} (two : 2 ≤ s.words.length) :
    Nesting.stripParens? s.text = none :=
  Nesting.stripParens?_unwords s.isWord_of_mem_words two

/-- A condition is not cut at a connective that binds more loosely. -/
theorem length_splitWord_text {j : Joiner} {s : Spelling} (h : j.level < s.level) :
    (Nesting.splitWord j.text s.text).length < 2 := by
  have hnone : Nesting.breakWord j.text s.text = none :=
    Nesting.breakWord_eq_none (isKeyword_joiner j) s.words_ne_nil s.isWord_of_mem_words
      (joiner_not_mem_words j s h) none
  exact Nesting.length_splitWord_of_eq_none hnone

/-- Parentheses that nothing demands are dropped. -/
theorem reads_group {inner : Spelling} (h : Reads inner) : Reads (group inner) := by
  have htext : (group inner).text = parens inner.words := Nesting.unwords_singleton _
  have hstrip : Nesting.stripParens? (group inner).text = some inner.text := by
    rw [htext]
    exact Nesting.stripParens?_group (Nesting.isBalanced_unwords inner.isWord_of_mem_words)
  have hread := (readable_text (group inner)).read_group hstrip
  exact hread.trans h

/-- Parentheses where they are needed do not change what is read. -/
theorem reads_within {s : Spelling} (h : Reads s) (needed : Nat) : Reads (s.within needed) := by
  unfold within
  split
  · exact reads_group h
  · exact h

/-- Reading spellings one after the other gives their conditions. -/
theorem mapM_read {ds : List Spelling} (h : ∀ d ∈ ds, Reads d) :
    (ds.map text).mapM read = .ok (ds.map condition) := by
  induction ds with
  | nil => rfl
  | cons d ds ih =>
    have hd : read d.text = .ok d.condition := h d List.mem_cons_self
    have hds := ih fun e he => h e (List.mem_cons_of_mem d he)
    rw [List.map_cons, List.mapM_cons, hd, hds]
    rfl

theorem guarded_ne_nil {ws : List Text} (h : ws ≠ []) (needed level : Nat) :
    guarded needed level ws ≠ [] := by
  unfold guarded
  split
  · exact List.cons_ne_nil _ _
  · exact h

/-- Cutting at a connective gives the texts of its parts. -/
theorem trim_splitWord_join (j : Joiner) (left right : Spelling) :
    (Nesting.splitWord j.text (join j left right).text).map Text.trim =
      (parts j (join j left right)).map text := by
  have htext : (join j left right).text =
      Nesting.unwords ([j.text].intercalate ((parts j (join j left right)).map words)) := by
    have hwhole : guarded j.level (join j left right).level (join j left right).words =
        (join j left right).words := if_neg (Nat.lt_irrefl j.level)
    rw [words_parts, hwhole]
    rfl
  have hne : (parts j (join j left right)).map words ≠ [] := by
    rw [ne_eq, List.map_eq_nil_iff]
    exact parts_ne_nil j _
  have hwords : ∀ ws ∈ (parts j (join j left right)).map words,
      ws ≠ [] ∧ (∀ w ∈ ws, Nesting.IsWord w) ∧ j.text ∉ ws := by
    intro ws hws
    obtain ⟨d, hd, rfl⟩ := List.mem_map.1 hws
    exact ⟨d.words_ne_nil, d.isWord_of_mem_words,
      joiner_not_mem_words j d (lt_level_of_mem_parts hd)⟩
  have hparts := Nesting.trim_splitWord (isKeyword_joiner j) hne hwords (.inl rfl)
  rw [List.nil_append, ← htext, List.map_map] at hparts
  exact hparts

/-- A connective is read by its parts. -/
theorem reads_join {j : Joiner} {left right : Spelling}
    (h : ∀ d ∈ parts j (join j left right), Reads d) : Reads (join j left right) := by
  have hsplit := trim_splitWord_join j left right
  have htwo : 2 ≤ (Nesting.splitWord j.text (join j left right).text).length := by
    have hlength := congrArg List.length hsplit
    have hleft := List.length_pos_iff.2 (parts_ne_nil j left)
    rw [List.length_map, List.length_map, parts_join, List.length_append,
      List.length_singleton] at hlength
    omega
  have hstrip : Nesting.stripParens? (join j left right).text = none := by
    have hleft := List.length_pos_iff.2 (guarded_ne_nil left.words_ne_nil j.level left.level)
    refine stripParens?_text ?_
    rw [words, List.length_append, List.length_cons]
    omega
  have hlooser : ∀ k : Joiner, k.level < j.level →
      (Nesting.splitWord k.text (join j left right).text).length < 2 := by
    intro k hk
    exact length_splitWord_text hk
  have hread := (readable_text (join j left right)).read_join hstrip j hlooser htwo
  have hmap : ((Nesting.splitWord j.text (join j left right).text).mapM fun part =>
      read (Text.trim part)) = .ok ((parts j (join j left right)).map condition) := by
    rw [← mapM_read h, ← hsplit, List.mapM_map]
    rfl
  rw [Reads, hread, hmap]
  exact congrArg Except.ok (condition_parts j (join j left right))

/-- A leading `not` is taken off. -/
theorem behindNot?_unwords {ws : List Text} (hne : ws ≠ []) (h : ∀ w ∈ ws, Nesting.IsWord w) :
    behindNot? (Nesting.unwords ("not".toList :: ws)) = some (Nesting.unwords ws) := by
  have hprefix := Nesting.IsKeyword.prefix_filter "not".toList (Nesting.unwords ws)
  have htrim := Text.trimStart_eq_self (Nesting.trim_unwords h)
  rw [behindNot?, Nesting.unwords_cons hne, hprefix, Option.map_some,
    Text.trimStart_cons_of_blank rfl, htrim]

/-- A negation is read by what is negated. -/
theorem reads_not {child : Spelling} (h : Reads (child.within 2)) : Reads (not child) := by
  have hwords : (not child).words = "not".toList :: (child.within 2).words := by
    rw [words_within]
    rfl
  have hnot : behindNot? (not child).text = some (child.within 2).text := by
    rw [text, hwords]
    exact behindNot?_unwords (child.within 2).words_ne_nil (child.within 2).isWord_of_mem_words
  have hstrip : Nesting.stripParens? (not child).text = none := by
    have hchild := List.length_pos_iff.2 (child.within 2).words_ne_nil
    refine stripParens?_text ?_
    rw [hwords, List.length_cons]
    omega
  have hone : ∀ j : Joiner, (Nesting.splitWord j.text (not child).text).length < 2 := by
    intro j
    have hlevel : j.level < (not child).level := Nat.lt_succ_of_le j.level_le
    exact length_splitWord_text hlevel
  have hread := (readable_text (not child)).read_rest hstrip hone
  have hchild : read (child.within 2).text = .ok (child.within 2).condition := h
  rw [hnot] at hread
  simp only at hread
  rw [Reads, hread, hchild, condition_within]
  rfl

/-!
### Conditions without operators
-/

/-- A condition that begins with an operand and holds no connective is read by its cut. -/
theorem read_leaf {s : Spelling} {o : Operand} {ws : List Text} (hwords : s.words = o.text :: ws)
    (hlevel : s.level = 3) : read s.text = (cut? s.text).elim (.ok (ofTest s.text))
      (ofCut s.text) := by
  have hstrip : Nesting.stripParens? s.text = none := by
    cases ws with
    | nil =>
      rw [text, hwords, Nesting.unwords_singleton]
      exact o.stripParens?_text
    | cons w ws =>
      refine stripParens?_text ?_
      rw [hwords, List.length_cons, List.length_cons]
      omega
  have hone : ∀ j : Joiner, (Nesting.splitWord j.text s.text).length < 2 := by
    intro j
    have hj := j.level_le
    exact length_splitWord_text (by omega)
  have hnot : behindNot? s.text = none := by
    have hne : o.text ≠ "not".toList := by
      intro he
      exact o.text_not_reserved (he ▸ by decide)
    have hends : ∃ u, Nesting.BehindWord u ∧ s.text = o.text ++ u := by
      rw [text, hwords]
      by_cases hws : ws = []
      · rw [hws, Nesting.unwords_singleton]
        exact ⟨[], .inl rfl, (List.append_nil o.text).symm⟩
      · exact ⟨_, .inr ⟨_, rfl⟩, Nesting.unwords_cons hws o.text⟩
    obtain ⟨u, hu, htext⟩ := hends
    rw [behindNot?, htext, o.isWord.prefix_filter isKeyword_not hne hu]
    rfl
  rw [(readable_text s).read_rest hstrip hone, hnot]

/-- A bare operand is read as an expression. -/
theorem reads_literal (o : Operand) : Reads (literal o) := by
  have htext : (literal o).text = o.text := Nesting.unwords_singleton o.text
  have hcut : cut? (literal o).text = none := by
    refine cut?_eq_none ?_ ?_
    · intro m hm w hw
      rw [List.mem_singleton.1 hw]
      exact o.not_mem_visible hm
    · intro hin
      exact o.text_not_reserved (List.mem_singleton.1 hin ▸ by decide)
  rw [Reads, read_leaf rfl rfl, hcut, htext]
  exact congrArg Except.ok (ofTest_operand o)

/-- A comparison of operands is read. -/
theorem reads_compare (c : Comparison) (left right : Operand) :
    Reads (compare c left right) := read_write left.isSide right.isSide c

/-- A test is read. -/
theorem reads_test (t : Test) (p : DottedName) : Reads (test t p) := by
  have hne : t.words ≠ [] := by cases t <;> exact List.cons_ne_nil _ _
  have htext : (test t p).text = p.text ++ ' ' :: Nesting.unwords t.words :=
    Nesting.unwords_cons hne p.text
  have hcut : cut? (test t p).text = none := by
    refine cut?_eq_none ?_ ?_
    · intro m hm w hw
      have htest : ∀ w ∈ t.words, m ∉ Nesting.State.start.visible w := by
        rcases hm with rfl | rfl <;> cases t <;> decide
      rcases List.mem_cons.1 hw with rfl | hw
      · exact (Operand.name p).not_mem_visible hm
      · exact htest w hw
    · intro hin
      rcases List.mem_cons.1 hin with hin | hin
      · exact p.text_not_reserved (hin ▸ by decide)
      · cases t <;> exact absurd hin (by decide)
  have hcondition : ofTest (test t p).text = t.condition p.text := by
    have htrim : Text.trim p.text = p.text := (Operand.name p).trim_text
    rw [htext, ofTest_append, htrim]
  rw [Reads, read_leaf (o := .name p) rfl rfl, hcut]
  exact congrArg Except.ok hcondition

/-- A spelling is read, and so is every part that a connective in it joins. -/
theorem reads_parts (s : Spelling) : Reads s ∧ ∀ j, ∀ d ∈ parts j s, Reads d := by
  induction s with
  | literal o =>
    have h := reads_literal o
    exact ⟨h, fun j => List.forall_mem_singleton.2 h⟩
  | compare c left right =>
    have h := reads_compare c left right
    exact ⟨h, fun j => List.forall_mem_singleton.2 h⟩
  | test t p =>
    have h := reads_test t p
    exact ⟨h, fun j => List.forall_mem_singleton.2 h⟩
  | not child ih =>
    have h := reads_not (reads_within ih.1 2)
    exact ⟨h, fun j => List.forall_mem_singleton.2 h⟩
  | group inner ih =>
    have h := reads_group ih.1
    exact ⟨h, fun j => List.forall_mem_singleton.2 h⟩
  | join k left right ihl ihr =>
    have hparts : ∀ d ∈ parts k (join k left right), Reads d := by
      intro d hd
      rw [parts_join, List.mem_append] at hd
      rcases hd with hd | hd
      · exact ihl.2 k d hd
      · rw [List.mem_singleton.1 hd]
        exact reads_within ihr.1 (k.level + 1)
    have h : Reads (join k left right) := reads_join hparts
    refine ⟨h, fun j => ?_⟩
    by_cases hjk : k = j
    · rw [← hjk]
      exact hparts
    · rw [parts_join_of_ne hjk]
      exact List.forall_mem_singleton.2 (reads_within h j.level)

end Spelling

/-- Reading the text of a spelling gives exactly the condition that it spells. -/
theorem read_text (s : Spelling) : read s.text = .ok s.condition := (Spelling.reads_parts s).1

end Condition

end PromptTemplate
