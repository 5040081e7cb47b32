import PromptTemplate.Proofs.Condition.RoundTrip
import PromptTemplate.Proofs.Expression.Joining

/-!
# Operands in parentheses

Parentheses around a condition are dropped when it is read. The sides of a
comparison are not conditions but expressions, and they stay text until they are
evaluated; a text in parentheses is no expression. So a comparison is read whether
its sides stand in parentheses or not, and a side in parentheses stands for null.
-/

namespace PromptTemplate

namespace Condition

open Nesting

/-!
### Operands
-/

/-- A dotted path that is none of the words that a condition is cut at. -/
structure DottedPath where
  names : List Text
  ne_nil : names ≠ []
  isName : ∀ name ∈ names, Text.isIdentifier name = true
  notCut : ['.'].intercalate names ∉ "not".toList :: cutWords

/-- The names with dots between them. -/
def DottedPath.text (p : DottedPath) : Text := ['.'].intercalate p.names

/-- A filter, with arguments if there is a text for them. -/
structure FilterText where
  name : Text
  arguments : Option Text
  isName : Text.isIdentifier name = true
  notCut : name ∉ "not".toList :: cutWords
  balanced : ∀ inside ∈ arguments, isBalanced inside = true

/-- A text in parentheses, if there is one. -/
def group? : Option Text → Text
  | none => []
  | some inside => '(' :: (inside ++ [')'])

/-- The name and the arguments of a filter. -/
def FilterText.text (f : FilterText) : Text := f.name ++ group? f.arguments

/-- What is compared: a path, a literal without escapes, or a path that goes through a filter,
with any number of spaces on the two sides of the bar. -/
inductive Comparand where
  | path (p : DottedPath)
  | quoted (q : QuotedText)
  | piped (p : DottedPath) (before after : Nat) (f : FilterText)

/-- The text of what is compared. -/
def Comparand.text : Comparand → Text
  | .path p => p.text
  | .quoted q => q.text
  | .piped p before after f =>
    p.text ++ (List.replicate before ' ' ++ '|' :: (List.replicate after ' ' ++ f.text))

/-- A text that may stand in parentheses. -/
def grouped (inParentheses : Bool) (t : Text) : Text :=
  if inParentheses then '(' :: (t ++ [')']) else t

/-- Whether a comparison of two values holds. -/
def Comparison.truth (c : Comparison) (v w : Value) : Bool :=
  match c with
  | .equal => v.equals w
  | .unequal => !v.equals w
  | .member => w.contains v
  | .notMember => !w.contains v

/-!
### Stems
-/

/-- Plain characters that are no word to cut a condition at, without the signs of comparisons
and of joined operands. -/
structure IsStem (t : Text) : Prop where
  keyword : IsKeyword t
  notCut : t ∉ "not".toList :: cutWords
  unsigned : ∀ c ∈ t, c ∉ ['=', '!', '+']

/-- Names, dots and bars make a stem. -/
theorem IsStem.of_chars {t : Text} (hne : t ≠ [])
    (hchars : ∀ c ∈ t, Text.isNameChar c = true ∨ c = '.' ∨ c = '|')
    (hcut : t ∉ "not".toList :: cutWords) : IsStem t := by
  refine ⟨⟨hne, List.all_eq_true.2 fun c hc => ?_⟩, hcut, fun c hc hsign => ?_⟩
  · rcases hchars c hc with hname | rfl | rfl
    · exact isPlain_of_isNameChar hname
    · decide
    · decide
  · simp only [List.mem_cons, List.not_mem_nil, or_false] at hsign
    rcases hsign with rfl | rfl | rfl <;> exact absurd (hchars _ hc) (by decide)

/-- With a bar in it a text is no word to cut a condition at. -/
theorem not_mem_cutWords_of_bar {t : Text} (h : '|' ∈ t) : t ∉ "not".toList :: cutWords := by
  have hbar : ∀ w ∈ "not".toList :: cutWords, '|' ∉ w := by decide
  exact fun hmem => hbar t hmem h

/-- Stems with spaces between them, and a text in parentheses behind the last of them if there
is one. -/
inductive Stems : Text → Prop
  | last {x : Text} {inside : Option Text} : IsStem x →
      (∀ t ∈ inside, isBalanced t = true) → Stems (x ++ group? inside)
  | more {x t : Text} (n : Nat) : IsStem x → Stems t →
      Stems (x ++ ' ' :: (List.replicate n ' ' ++ t))

/-- A stem with a text in parentheses behind it is balanced and shows its own characters and
the parentheses. -/
theorem scan_last {x : Text} (hx : IsStem x) {inside : Option Text}
    (h : ∀ t ∈ inside, isBalanced t = true) :
    isBalanced (x ++ group? inside) = true ∧
      ∀ c ∈ State.start.visible (x ++ group? inside), c ∈ x ∨ c = '(' ∨ c = ')' := by
  obtain ⟨hbalanced, hvisible⟩ := scan_plain hx.keyword.plain
  cases inside with
  | none =>
    rw [group?, List.append_nil, hvisible]
    exact ⟨hbalanced, fun c hc => .inl hc⟩
  | some t =>
    have hgroup := isWord_group (h t rfl)
    refine ⟨isBalanced_append hbalanced hgroup.balanced, fun c hc => ?_⟩
    rw [group?, State.visible_append, State.run_of_closes hbalanced, hvisible,
      visible_group (h t rfl)] at hc
    simpa using hc

/-- Spaces are balanced and show themselves. -/
theorem scan_spaces (n : Nat) : isBalanced (' ' :: List.replicate n ' ') = true ∧
    State.start.visible (' ' :: List.replicate n ' ') = ' ' :: List.replicate n ' ' := by
  refine scan_neutral fun c hc => ?_
  have hspace : c = ' ' := by
    rw [← List.replicate_succ] at hc
    exact List.eq_of_mem_replicate hc
  rw [hspace]
  decide

/-- The search for a keyword passes over spaces. -/
theorem breakWord_spaces {kw : Text} (hkw : IsKeyword kw) (n : Nat) (previous : Option Char)
    (t : Text) : ∃ last, State.start.breakWord previous kw (List.replicate n ' ' ++ t) =
      (State.start.breakWord last kw t).map fun found =>
        (List.replicate n ' ' ++ found.1, found.2) := by
  induction n generalizing previous with
  | zero => exact ⟨previous, by simp⟩
  | succ n ih =>
    obtain ⟨last, hlast⟩ := ih (some ' ')
    refine ⟨last, ?_⟩
    rw [List.replicate_succ, List.cons_append, breakWord_blank hkw, hlast, Option.map_map]
    rfl

namespace Stems

variable {t : Text}

/-- Stems are balanced and show no sign. -/
theorem scan (h : Stems t) :
    isBalanced t = true ∧ ∀ c ∈ State.start.visible t, c ∉ ['=', '!', '+'] := by
  induction h with
  | @last x inside hx hinside =>
    obtain ⟨hbalanced, hvisible⟩ := scan_last hx hinside
    refine ⟨hbalanced, fun c hc => ?_⟩
    rcases hvisible c hc with hc | rfl | rfl
    · exact hx.unsigned c hc
    · decide
    · decide
  | @more x t n hx _ ih =>
    obtain ⟨hbalanced, hvisible⟩ := scan_plain hx.keyword.plain
    obtain ⟨hspaces, hspacesVisible⟩ := scan_spaces n
    obtain ⟨hlater, hunsigned⟩ := ih
    rw [← List.cons_append]
    refine ⟨isBalanced_append hbalanced (isBalanced_append hspaces hlater), fun c hc => ?_⟩
    rw [State.visible_append, State.run_of_closes hbalanced, hvisible, State.visible_append,
      State.run_of_closes hspaces, hspacesVisible, List.mem_append, List.mem_append] at hc
    rcases hc with hc | hc | hc
    · exact hx.unsigned c hc
    · rw [← List.replicate_succ] at hc
      rw [List.eq_of_mem_replicate hc]
      decide
    · exact hunsigned c hc

/-- Stems begin with a plain character. -/
theorem first (h : Stems t) : ∃ c, t.head? = some c ∧ Text.isBlank c = false := by
  have hstem {x : Text} (hx : IsStem x) (u : Text) :
      ∃ c, (x ++ u).head? = some c ∧ Text.isBlank c = false := by
    obtain ⟨c, hc, hblank⟩ := hx.keyword.isWord.first
    exact ⟨c, by rw [List.head?_append, hc, Option.some_or], hblank⟩
  cases h with
  | last hx _ => exact hstem hx _
  | more n hx _ => exact hstem hx _

/-- Stems end with a plain character or a parenthesis. -/
theorem final_char (h : Stems t) : ∃ c, t.getLast? = some c ∧ Text.isBlank c = false := by
  induction h with
  | @last x inside hx _ =>
    cases inside with
    | none =>
      rw [group?, List.append_nil]
      exact hx.keyword.isWord.last
    | some t =>
      refine ⟨')', ?_, by decide⟩
      rw [group?, ← List.cons_append, ← List.append_assoc, List.getLast?_concat]
  | more n hx _ ih =>
    obtain ⟨c, hc, hblank⟩ := ih
    refine ⟨c, ?_, hblank⟩
    rw [List.getLast?_append, List.getLast?_cons, List.getLast?_append, hc]
    rfl

/-- Stems do not begin with a word to cut a condition at, nor with a `not`. -/
theorem unbegun (h : Stems t) {kw : Text} (hkw : kw ∈ "not".toList :: cutWords) {u : Text}
    (hu : BehindWord u) : (kw.isPrefixOf? (t ++ u)).filter endsWord = none := by
  have hkeyword : IsKeyword kw := by
    have hall : ∀ w ∈ "not".toList :: cutWords, IsKeyword w := by decide
    exact hall kw hkw
  have hstem {x : Text} (hx : IsStem x) {v : Text} (hv : ∀ c ∈ v.head?, isPlain c = false) :
      (kw.isPrefixOf? (x ++ v)).filter endsWord = none :=
    prefix_filter_plain hx.keyword.plain hkeyword (fun he => hx.notCut (he ▸ hkw)) hv
  cases h with
  | @last x inside hx _ =>
    rw [List.append_assoc]
    refine hstem hx ?_
    cases inside with
    | none => exact hu.head
    | some t =>
      intro c hc
      cases hc
      decide
  | @more x t n hx _ =>
    rw [List.append_assoc]
    refine hstem hx fun c hc => ?_
    cases hc
    decide

/-- The search for a word to cut a condition at passes over stems. -/
theorem passed (h : Stems t) {kw : Text} (hkw : kw ∈ cutWords) (previous : Option Char) {u : Text}
    (hu : BehindWord u) : State.start.breakWord previous kw (t ++ u) =
      (State.start.breakWord none kw u).map fun found => (t ++ found.1, found.2) := by
  have hkeyword := isKeyword_of_mem_cutWords kw hkw
  have hcut : kw ∈ "not".toList :: cutWords := List.mem_cons_of_mem _ hkw
  induction h generalizing previous with
  | @last x inside hx hinside =>
    obtain ⟨hbalanced, hvisible⟩ := scan_last hx hinside
    have hne : x ++ group? inside ≠ [] := List.append_ne_nil_of_left_ne_nil hx.keyword.ne_nil _
    have hsolid : ∀ c ∈ State.start.visible (x ++ group? inside), Text.isBlank c = false := by
      intro c hc
      rcases hvisible c hc with hc | rfl | rfl
      · exact not_blank_of_isPlain (hx.keyword.plain c hc)
      · decide
      · decide
    exact breakWord_solid hkeyword hne (State.run_of_closes hbalanced) hsolid hu
      ((last hx hinside).unbegun hcut hu) previous
  | @more x t n hx _ ih =>
    have hword : x ≠ kw := fun he => hx.notCut (he ▸ hcut)
    obtain ⟨last, hspaces⟩ := breakWord_spaces hkeyword n (some ' ') (t ++ u)
    rw [List.append_assoc, List.cons_append, List.append_assoc,
      hx.keyword.isWord.breakWord hkeyword hword (.inr ⟨_, rfl⟩), breakWord_blank hkeyword, hspaces,
      ih last]
    simp only [Option.map_map, Function.comp_def, List.append_assoc, List.cons_append]

/-- Stems do not end with a blank and a `not`. -/
theorem final (h : Stems t) {before : Text} (hs : "not".toList.isSuffixOf? t = some before) :
    before.getLast?.any Text.isBlank = false := by
  induction h generalizing before with
  | @last x inside hx _ =>
    cases inside with
    | none =>
      rw [group?, List.append_nil] at hs
      exact hx.keyword.getLast?_of_isSuffixOf? hs
    | some t =>
      have hend : (x ++ group? (some t)).getLast? ≠ some 't' := by
        rw [group?, ← List.cons_append, ← List.append_assoc, List.getLast?_concat]
        decide
      rw [Text.isSuffixOf?_eq_none (c := 't') rfl hend] at hs
      cases hs
  | @more x t n hx ht ih =>
    -- the last stem is not the whole of the word, and the word has no space in it
    have hwhole : t ≠ "not".toList := by
      rintro rfl
      have hnone := ht.unbegun List.mem_cons_self (u := [' ']) (.inr ⟨[], rfl⟩)
      rw [IsKeyword.prefix_filter] at hnone
      cases hnone
    have hspaces : (x ++ List.replicate (n + 1) ' ') ++ t = before ++ "not".toList := by
      rw [List.append_eq_of_isSuffixOf?_eq_some hs, List.append_assoc, List.replicate_succ,
        List.cons_append]
    rcases List.append_eq_append_iff.1 hspaces with ⟨v, hbefore, hnot⟩ | ⟨v, hfront, hword⟩
    · have hne : v ≠ [] := by
        rintro rfl
        exact hwhole hnot
      have hends : "not".toList.isSuffixOf? t = some v :=
        List.isSuffixOf?_eq_some_iff_append_eq.2 hnot.symm
      have hlater := ih hends
      rw [List.getLast?_eq_some_getLast hne] at hlater
      rw [hbefore, List.getLast?_append, List.getLast?_eq_some_getLast hne, Option.some_or]
      exact hlater
    · have hne : v ≠ [] := by
        rintro rfl
        exact hwhole hword.symm
      have hend := congrArg List.getLast? hfront
      rw [List.replicate_succ', ← List.append_assoc, List.getLast?_concat, List.getLast?_append,
        List.getLast?_eq_some_getLast hne, Option.some_or] at hend
      have hspace : ' ' ∈ "not".toList := by
        rw [hword, Option.some.inj hend]
        exact List.mem_append_left t (List.getLast_mem hne)
      exact absurd hspace (by decide)

/-- Stems may stand on a side of a comparison. -/
theorem isSide (h : Stems t) : IsSide t := by
  refine ⟨h.first, h.final_char, h.scan.1, fun m hm hmem => ?_,
    fun kw hkw previous u hu => h.passed hkw previous hu,
    fun u hu => h.unbegun List.mem_cons_self hu, fun before => h.final⟩
  have hsign : m ∈ ['=', '!', '+'] := by
    rcases hm with rfl | rfl
    · decide
    · decide
  exact h.scan.2 m hmem hsign

end Stems

/-!
### Sides of comparisons
-/

/-- A path is a stem. -/
theorem DottedPath.isStem (p : DottedPath) : IsStem p.text := by
  obtain ⟨name, names, hnames⟩ := List.exists_cons_of_ne_nil p.ne_nil
  have hname := p.isName name (by rw [hnames]; exact List.mem_cons_self)
  have hne : p.text ≠ [] := by
    rw [text, hnames]
    exact Text.intercalate_ne_nil (Text.ne_nil_of_isIdentifier hname) _ _
  exact .of_chars hne (fun c hc => (char_of_mem_dotted p.isName hc).imp_right .inl) p.notCut

/-- The name of a filter is a stem. -/
theorem FilterText.isStem (f : FilterText) : IsStem f.name :=
  .of_chars (Text.ne_nil_of_isIdentifier f.isName)
    (fun c hc => .inl (Text.isNameChar_of_isIdentifier f.isName c hc)) f.notCut

/-- A bar and a filter behind characters of paths make stems. -/
theorem Stems.behind_bar {x : Text} (hx : ∀ c ∈ x, Text.isNameChar c = true ∨ c = '.')
    (after : Nat) (f : FilterText) :
    Stems (x ++ '|' :: (List.replicate after ' ' ++ f.text)) := by
  have hfront : ∀ c ∈ x, Text.isNameChar c = true ∨ c = '.' ∨ c = '|' :=
    fun c hc => (hx c hc).imp_right .inl
  cases after with
  | zero =>
    have hchars : ∀ c ∈ x ++ '|' :: f.name, Text.isNameChar c = true ∨ c = '.' ∨ c = '|' := by
      intro c hc
      rcases List.mem_append.1 hc with hc | hc
      · exact hfront c hc
      · rcases List.mem_cons.1 hc with rfl | hc
        · exact .inr (.inr rfl)
        · exact .inl (Text.isNameChar_of_isIdentifier f.isName c hc)
    have hstem : IsStem (x ++ '|' :: f.name) :=
      .of_chars (by simp) hchars (not_mem_cutWords_of_bar (by simp))
    have hstems := Stems.last hstem f.balanced
    rwa [List.append_assoc] at hstems
  | succ n =>
    have hchars : ∀ c ∈ x ++ ['|'], Text.isNameChar c = true ∨ c = '.' ∨ c = '|' := by
      intro c hc
      rcases List.mem_append.1 hc with hc | hc
      · exact hfront c hc
      · exact .inr (.inr (List.mem_singleton.1 hc))
    have hstem : IsStem (x ++ ['|']) := .of_chars (by simp) hchars (not_mem_cutWords_of_bar (by simp))
    have hstems := Stems.more n hstem (.last f.isStem f.balanced)
    rwa [List.append_assoc] at hstems

/-- A path through a filter is made of stems. -/
theorem Stems.piped (p : DottedPath) (before after : Nat) (f : FilterText) :
    Stems (Comparand.piped p before after f).text := by
  cases before with
  | zero => exact behind_bar (fun c hc => char_of_mem_dotted p.isName hc) after f
  | succ n => exact .more n p.isStem (behind_bar (x := []) nofun after f)

/-- What is compared may stand on a side and shows no plus sign. -/
theorem Comparand.side (c : Comparand) :
    IsSide c.text ∧ '+' ∉ State.start.visible c.text := by
  have hstems {t : Text} (h : Stems t) : IsSide t ∧ '+' ∉ State.start.visible t :=
    ⟨h.isSide, fun hplus => h.scan.2 '+' hplus (by decide)⟩
  cases c with
  | path p =>
    have hlast : Stems (p.text ++ group? none) := .last p.isStem nofun
    rw [group?, List.append_nil] at hlast
    exact hstems hlast
  | quoted q =>
    refine ⟨(Operand.quoted q).isSide, fun hplus => ?_⟩
    exact absurd ((Operand.quoted q).char_of_mem_visible hplus) (by decide)
  | piped p before after f => exact hstems (.piped p before after f)

section

variable {t : Text} (h : isBalanced t = true)

include h

/-- A balanced text in parentheses may stand on a side. -/
theorem isSide_group : IsSide ('(' :: (t ++ [')'])) := by
  have hword : '(' :: (t ++ [')']) ∉ "not".toList :: cutWords := by
    have hfirst : ∀ w ∈ "not".toList :: cutWords, w.head? ≠ some '(' := by decide
    exact fun hmem => hfirst _ hmem rfl
  refine .of_word (isWord_group h) hword (fun m hm hmem => ?_) fun before hbefore => ?_
  · rw [visible_group h] at hmem
    rcases hm with rfl | rfl
    · exact absurd hmem (by decide)
    · exact absurd hmem (by decide)
  · have hlast : ('(' :: (t ++ [')'])).getLast? ≠ some 't' := by
      rw [← List.cons_append, List.getLast?_concat]
      decide
    rw [Text.isSuffixOf?_eq_none (c := 't') rfl hlast] at hbefore
    cases hbefore

/-- A balanced text in parentheses is no expression. -/
theorem evaluateJoined_group (s : Scope) : evaluateJoined s ('(' :: (t ++ [')'])) = .null := by
  have hvisible := visible_group h
  have hsolid := (isWord_group h).solid
  have htrim := (isWord_group h).trim
  generalize hgroup : '(' :: (t ++ [')']) = group at hvisible hsolid htrim ⊢
  have hopen : '(' ∈ State.start.visible group := by
    rw [hvisible]
    exact List.mem_cons_self
  have hplus : '+' ∉ State.start.visible group := by
    rw [hvisible]
    decide
  have hbar : '|' ∉ State.start.visible group := by
    rw [hvisible]
    decide
  have hcall : Call.read? group = none := by
    rw [← hgroup]
    rfl
  have hform : Form.ofText group = .unknown := by
    rw [Form.ofText_of_separator (c := '(') (by decide) (by rwa [htrim]), htrim, Form.ofCompound,
      split, State.split_eq_singleton hbar]
    simp only [breakWord_of_solid isKeyword_in hsolid, hcall,
      Path.read?_of_visible (c := '(') (by decide) hopen]
    rfl
  rw [evaluateJoined_of_single hplus, PromptTemplate.evaluate_eq, hform]
  rfl

end

/-!
### Comparisons of sides in parentheses
-/

/-- A comparison compares the joined values of its sides. -/
theorem holds_condition (c : Comparison) (s : Scope) (l r : Text) :
    (c.condition l r).holds s = c.truth (evaluateJoined s l) (evaluateJoined s r) := by
  cases c <;> rfl

/-- What is compared may stand on a side with or without parentheses. It has its value without
them and is null with them. -/
theorem grouped_side (inParentheses : Bool) (c : Comparand) :
    IsSide (grouped inParentheses c.text) ∧ ∀ s : Scope,
      evaluateJoined s (grouped inParentheses c.text) =
        if inParentheses then .null else evaluate s c.text := by
  obtain ⟨hside, hplus⟩ := c.side
  cases inParentheses with
  | false => exact ⟨hside, evaluateJoined_of_single hplus⟩
  | true => exact ⟨isSide_group hside.balanced, evaluateJoined_group hside.balanced⟩

/-- **Comparing groups.** A comparison is read whichever of its sides stand in parentheses. A side
without them stands for its value and a side with them for null, whatever is in them. -/
theorem comparison_of_groups (s : Scope) (c : Comparison) (l r : Comparand)
    (groupLeft groupRight : Bool) :
    ∃ condition, read (c.write (grouped groupLeft l.text) (grouped groupRight r.text)) =
        .ok condition ∧
      condition.holds s = c.truth (if groupLeft then .null else evaluate s l.text)
        (if groupRight then .null else evaluate s r.text) := by
  obtain ⟨hleft, hleftValue⟩ := grouped_side groupLeft l
  obtain ⟨hright, hrightValue⟩ := grouped_side groupRight r
  refine ⟨_, read_write hleft hright c, ?_⟩
  rw [holds_condition, hleftValue, hrightValue]

/-- A path through a filter, with a bar and a connective in its argument, and a literal. -/
theorem comparison_of_groups_of_piped :
    let s : Scope := ⟨[("a".toList, .string "x".toList)], Registry.empty⟩
    (∃ condition, read "a |f('b or |c') == 'x'".toList = .ok condition ∧
      condition.holds s = true) ∧
    ∃ condition, read "(a |f('b or |c')) == 'x'".toList = .ok condition ∧
      condition.holds s = false := by
  intro s
  let l : Comparand := .piped ⟨["a".toList], by decide, by decide, by decide⟩ 1 0
    ⟨"f".toList, some "'b or |c'".toList, by decide, by decide, by decide⟩
  let r : Comparand := .quoted ⟨'\'', ['x'], rfl, List.forall_mem_singleton.2 (by decide)⟩
  have htext : Comparison.equal.write (grouped false l.text) (grouped false r.text) =
      "a |f('b or |c') == 'x'".toList := by decide
  have htextGroup : Comparison.equal.write (grouped true l.text) (grouped false r.text) =
      "(a |f('b or |c')) == 'x'".toList := by decide
  have hleft : evaluate s l.text = .string "x".toList := by with_unfolding_all rfl
  have hright : evaluate s r.text = .string "x".toList := by with_unfolding_all rfl
  obtain ⟨plain, hplain, hholds⟩ := comparison_of_groups s .equal l r false false
  obtain ⟨inGroup, hinGroup, hnull⟩ := comparison_of_groups s .equal l r true false
  rw [htext] at hplain
  rw [htextGroup] at hinGroup
  simp only [Bool.false_eq_true, if_false, if_true, hleft, hright] at hholds hnull
  exact ⟨⟨plain, hplain, hholds.trans rfl⟩, inGroup, hinGroup, hnull.trans rfl⟩

/-- A path that is equal to a literal is not equal to it in parentheses. -/
theorem not_forall_comparison_of_groups :
    ¬ ∀ (s : Scope) (c : Comparison) (l r : Comparand) (groupLeft groupRight : Bool),
      ∃ plain inGroups, read (c.write l.text r.text) = .ok plain ∧
        read (c.write (grouped groupLeft l.text) (grouped groupRight r.text)) = .ok inGroups ∧
        inGroups.holds s = plain.holds s := by
  intro h
  let s : Scope := ⟨[("a".toList, .string "x".toList)], Registry.empty⟩
  let l : Comparand := .path ⟨["a".toList], by decide, by decide, by decide⟩
  let r : Comparand := .quoted ⟨'\'', ['x'], rfl, List.forall_mem_singleton.2 (by decide)⟩
  obtain ⟨plain, inGroups, hplain, hgroups, hsame⟩ := h s .equal l r true false
  have hleft := grouped_side true l
  have hread : read (Comparison.equal.write l.text r.text) =
      .ok (Comparison.equal.condition l.text r.text) := read_write l.side.1 r.side.1 .equal
  have hreadGroups : read (Comparison.equal.write (grouped true l.text) (grouped false r.text)) =
      .ok (Comparison.equal.condition (grouped true l.text) (grouped false r.text)) :=
    read_write hleft.1 r.side.1 .equal
  rw [hread] at hplain
  rw [hreadGroups] at hgroups
  obtain rfl := Except.ok.inj hplain
  obtain rfl := Except.ok.inj hgroups
  have htrue : (Comparison.equal.condition l.text r.text).holds s = true := by
    with_unfolding_all rfl
  have hfalse : (Comparison.equal.condition (grouped true l.text) (grouped false r.text)).holds s =
      false := by
    with_unfolding_all rfl
  rw [htrue, hfalse] at hsame
  cases hsame

end Condition

end PromptTemplate
