import PromptTemplate.Nesting.Group
import PromptTemplate.Proofs.Nesting.Escaping

/-!
# Words

A text may be written as words with single spaces between them, where a literal
or a group counts as one word whatever stands in it. A keyword is found in such
a text exactly where it is one of the words, so cutting at a keyword gives back
the words on its two sides.
-/

namespace PromptTemplate

namespace Nesting

/-- Neither blank nor part of a literal or a group. -/
def isPlain (c : Char) : Bool :=
  !Text.isBlank c && !isQuote c && !isOpener c && !isCloser c

theorem not_blank_of_isPlain {c : Char} (h : isPlain c = true) : Text.isBlank c = false := by
  cases hb : Text.isBlank c with
  | false => rfl
  | true => simp [isPlain, hb] at h

/-- A plain character neither opens, closes nor quotes. -/
theorem nesting_of_isPlain {c : Char} (h : isPlain c = true) :
    isQuote c = false ∧ isOpener c = false ∧ isCloser c = false := by
  simp only [isPlain, Bool.and_eq_true, Bool.not_eq_true'] at h
  exact ⟨h.1.1.2, h.1.2, h.2⟩

/-- The characters of names are plain. -/
theorem isPlain_of_isNameChar {c : Char} (h : Text.isNameChar c = true) :
    isPlain c = true := by
  have hcode := Text.toNat_of_isNameChar h
  have hblank : Text.isBlank c = false := by
    rw [← Bool.not_eq_true]
    intro hb
    simp only [Text.isBlank, Text.blankRanges, List.any_cons, List.any_nil, Bool.or_false,
      Bool.or_eq_true, Bool.and_eq_true, decide_eq_true_eq] at hb
    omega
  -- the quotes and the brackets lie between the ranges
  have hnesting : ∀ d : Char, d.toNat ∈ [39, 34, 40, 41, 91, 93, 123, 125] → c ≠ d := by
    rintro d hd rfl
    simp only [List.mem_cons, List.not_mem_nil, or_false] at hd
    omega
  simp only [isPlain, isQuote, isOpener, isCloser, hblank]
  simp [hnesting]

/-- Quotes are not plain and not blank. -/
theorem isPlain_of_isQuote {q : Char} (h : isQuote q = true) :
    isPlain q = false ∧ Text.isBlank q = false := by
  rcases eq_of_isQuote h with rfl | rfl
  · decide
  · decide

/-- A blank neither opens, closes nor quotes. -/
theorem nesting_of_isBlank {c : Char} (h : Text.isBlank c = true) :
    isQuote c = false ∧ isOpener c = false ∧ isCloser c = false := by
  refine ⟨?_, ?_, ?_⟩
  · rw [← Bool.not_eq_true]
    intro hq
    rw [(isPlain_of_isQuote hq).2] at h
    cases h
  · rw [← Bool.not_eq_true]
    intro ho
    simp only [isOpener, Bool.or_eq_true, beq_iff_eq] at ho
    rcases ho with (rfl | rfl) | rfl <;> exact absurd h (by decide)
  · rw [← Bool.not_eq_true]
    intro hc
    simp only [isCloser, Bool.or_eq_true, beq_iff_eq] at hc
    rcases hc with (rfl | rfl) | rfl <;> exact absurd h (by decide)

/-- A keyword is made of plain characters. -/
structure IsKeyword (kw : Text) : Prop where
  ne_nil : kw ≠ []
  all_plain : kw.all isPlain = true

theorem IsKeyword.plain {kw : Text} (h : IsKeyword kw) : ∀ c ∈ kw, isPlain c = true :=
  List.all_eq_true.1 h.all_plain

/-- No blank stands before the end of a keyword. -/
theorem IsKeyword.getLast?_of_isSuffixOf? {kw last before : Text} (h : IsKeyword kw)
    (hs : last.isSuffixOf? kw = some before) : before.getLast?.any Text.isBlank = false := by
  cases hbefore : before.getLast? with
  | none => rfl
  | some c =>
    have hmem : c ∈ kw := by
      rw [← List.append_eq_of_isSuffixOf?_eq_some hs]
      exact List.mem_append_left last (List.mem_of_getLast? hbefore)
    exact not_blank_of_isPlain (h.plain c hmem)

instance (kw : Text) : Decidable (IsKeyword kw) :=
  decidable_of_iff (kw ≠ [] ∧ kw.all isPlain = true)
    ⟨fun ⟨hn, hp⟩ => ⟨hn, hp⟩, fun ⟨hn, hp⟩ => ⟨hn, hp⟩⟩

/-- A word is balanced and shows no blank. It is made of plain characters throughout or
does not begin with one. -/
structure IsWord (w : Text) : Prop where
  balanced : isBalanced w = true
  solid : ∀ c ∈ State.start.visible w, Text.isBlank c = false
  last : ∃ c, w.getLast? = some c ∧ Text.isBlank c = false
  shape : (∀ c ∈ w, isPlain c = true) ∨ ∃ c ∈ w.head?, isPlain c = false

/-- A word does not begin with a blank. -/
theorem IsWord.first {w : Text} (h : IsWord w) :
    ∃ c, w.head? = some c ∧ Text.isBlank c = false := by
  obtain ⟨b, hb, -⟩ := h.last
  cases w with
  | nil => cases hb
  | cons c w =>
    refine ⟨c, rfl, h.solid c ?_⟩
    rw [State.visible_cons_of_top (isTop_start c)]
    exact List.mem_cons_self

/-- A word is not empty. -/
theorem IsWord.ne_nil {w : Text} (h : IsWord w) : w ≠ [] := by
  obtain ⟨c, hc, -⟩ := h.first
  rintro rfl
  cases hc

/-- A word is trimmed. -/
theorem IsWord.trim {w : Text} (h : IsWord w) : Text.trim w = w := by
  obtain ⟨a, ha, hfirst⟩ := h.first
  obtain ⟨b, hb, hlast⟩ := h.last
  exact Text.trim_eq_self ha hfirst hb hlast

/-- A scan is at the start again behind a word. -/
theorem IsWord.run {w : Text} (h : IsWord w) : State.start.run w = State.start :=
  State.run_of_closes h.balanced

/-!
### Kinds of words
-/

/-- Characters that neither open, close nor quote are balanced, and a scan shows all of
them. -/
theorem scan_neutral {w : Text}
    (h : ∀ c ∈ w, isQuote c = false ∧ isOpener c = false ∧ isCloser c = false) :
    isBalanced w = true ∧ State.start.visible w = w := by
  induction w with
  | nil => exact ⟨rfl, rfl⟩
  | cons c w ih =>
    obtain ⟨hquote, hopener, hcloser⟩ := h c List.mem_cons_self
    obtain ⟨hbalanced, hvisible⟩ := ih fun d hd => h d (List.mem_cons_of_mem c hd)
    have hstep : State.start.step c = State.start :=
      State.step_of_plain rfl hquote hopener hcloser
    constructor
    · rw [isBalanced, State.closes, if_neg (by simp [hcloser]), hstep]
      exact hbalanced
    · rw [State.visible_cons_of_top (isTop_start c), hstep, hvisible]

/-- Plain characters are balanced, and a scan shows all of them. -/
theorem scan_plain {w : Text} (h : ∀ c ∈ w, isPlain c = true) :
    isBalanced w = true ∧ State.start.visible w = w :=
  scan_neutral fun c hc => nesting_of_isPlain (h c hc)

/-- Blanks are balanced. -/
theorem isBalanced_blanks {t : Text} (h : ∀ c ∈ t, Text.isBlank c = true) :
    isBalanced t = true :=
  (scan_neutral fun c hc => nesting_of_isBlank (h c hc)).1

/-- A balanced text stays balanced without the blanks at its start. -/
theorem isBalanced_trimStart {t : Text} (h : isBalanced t = true) :
    isBalanced (Text.trimStart t) = true := by
  obtain ⟨before, hblank, ht⟩ := Text.exists_trimStart t
  rw [ht, isBalanced, State.closes_append (isBalanced_blanks hblank)] at h
  exact h

/-- Blanks show only blanks. -/
theorem State.not_mem_visible_blanks {m : Char} (hm : Text.isBlank m = false) {t : Text}
    (h : ∀ c ∈ t, Text.isBlank c = true) (s : State) : m ∉ s.visible t := by
  intro hmem
  rw [h m (mem_of_mem_visible hmem)] at hm
  cases hm

/-- A keyword is a word. -/
theorem IsKeyword.isWord {kw : Text} (h : IsKeyword kw) : IsWord kw := by
  obtain ⟨hbalanced, hvisible⟩ := scan_plain h.plain
  refine ⟨hbalanced, ?_, ?_, .inl h.plain⟩
  · rw [hvisible]
    exact fun c hc => not_blank_of_isPlain (h.plain c hc)
  · exact ⟨kw.getLast h.ne_nil, List.getLast?_eq_some_getLast h.ne_nil,
      not_blank_of_isPlain (h.plain _ (List.getLast_mem h.ne_nil))⟩

/-- A literal is a word, whatever the text holds. -/
theorem isWord_write {q : Char} (hq : isQuote q = true) (t : Text) :
    IsWord (Literal.write q t) := by
  obtain ⟨hplain, hblank⟩ := isPlain_of_isQuote hq
  refine ⟨isBalanced_write hq t, ?_, ⟨q, Literal.getLast?_write q t, hblank⟩, .inr ⟨q, rfl, hplain⟩⟩
  intro c hc
  rw [visible_write hq, List.mem_singleton] at hc
  rwa [hc]

/-- A literal without escapes shows its first quote only. -/
theorem visible_literal {q : Char} (hq : isQuote q = true) {body : Text}
    (h : ∀ c ∈ body, c ≠ q ∧ c ≠ '\\') : State.start.visible (q :: (body ++ [q])) = [q] := by
  rw [← Literal.write_of_plain h, visible_write hq]

/-- A literal without escapes is a word. -/
theorem isWord_literal {q : Char} (hq : isQuote q = true) {body : Text}
    (h : ∀ c ∈ body, c ≠ q ∧ c ≠ '\\') : IsWord (q :: (body ++ [q])) := by
  rw [← Literal.write_of_plain h]
  exact isWord_write hq body

/-- A group shows its two parentheses only. -/
theorem visible_group {t : Text} (h : isBalanced t = true) :
    State.start.visible ('(' :: (t ++ [')'])) = ['(', ')'] := by
  have hinner : State.start.deeper.visible (t ++ [')']) = [')'] := by
    rw [State.visible_append, State.visible_deeper h, State.run_deeper h]
    rfl
  rw [State.visible_cons_of_top (isTop_start '(')]
  exact congrArg ('(' :: ·) hinner

/-- A balanced text in parentheses is a word. -/
theorem isWord_group {t : Text} (h : isBalanced t = true) : IsWord ('(' :: (t ++ [')'])) := by
  refine ⟨?_, ?_, ⟨')', ?_, rfl⟩, .inr ⟨'(', rfl, rfl⟩⟩
  · have hinner : State.start.deeper.closes (t ++ [')']) = true := by
      rw [State.closes_deeper h]
      rfl
    exact hinner
  · intro c hc
    rw [visible_group h] at hc
    simp only [List.mem_cons, List.not_mem_nil, or_false] at hc
    rcases hc with rfl | rfl
    · rfl
    · rfl
  · rw [← List.cons_append, List.getLast?_concat]

/-- The parentheses around a balanced text enclose it. -/
theorem stripParens?_group {t : Text} (h : isBalanced t = true) :
    stripParens? ('(' :: (t ++ [')'])) = some t := by
  have hnone : State.start.deeper.topOffsets 1 t = [] := by
    have hlength := State.length_topOffsets State.start.deeper 1 t
    rw [State.visible_deeper h] at hlength
    exact List.length_eq_zero_iff.1 hlength
  have hinner : State.start.deeper.topOffsets 1 (t ++ [')']) = [(t ++ [')']).length] := by
    rw [State.topOffsets_append, hnone, State.run_deeper h, List.length_append, Nat.add_comm]
    rfl
  have houter : topOffsets ('(' :: (t ++ [')'])) = [0, (t ++ [')']).length] := by
    rw [topOffsets, State.topOffsets, if_pos (isTop_start '(')]
    exact congrArg (0 :: ·) hinner
  rw [stripParens?, if_pos ⟨rfl, List.getLast?_concat, houter⟩, List.dropLast_concat]

/-!
### Keywords at the start of a word
-/

/-- A text that is empty or goes on with a blank, so that a word may end before it. -/
def BehindWord (u : Text) : Prop := u = [] ∨ ∃ v, u = ' ' :: v

/-- Plain characters with none behind them are not taken for another keyword, also if they
begin with it. -/
theorem prefix_filter_plain {w kw : Text} (hw : ∀ c ∈ w, isPlain c = true) (hkw : IsKeyword kw)
    (hne : w ≠ kw) {u : Text} (hu : ∀ c ∈ u.head?, isPlain c = false) :
    (kw.isPrefixOf? (w ++ u)).filter endsWord = none := by
  cases hp : kw.isPrefixOf? (w ++ u) with
  | none => rfl
  | some after =>
    have hsplit : w ++ u = kw ++ after := (List.append_eq_of_isPrefixOf?_eq_some hp).symm
    have hends : endsWord after = false := by
      rcases List.append_eq_append_iff.1 hsplit with ⟨v, rfl, hv⟩ | ⟨v, rfl, rfl⟩
      · -- the keyword is longer, so it would hold what stands behind the characters
        cases v with
        | nil => exact absurd (List.append_nil w).symm hne
        | cons d v =>
          rw [hv] at hu
          have hd := hkw.plain d (List.mem_append_right w List.mem_cons_self)
          rw [hu d rfl] at hd
          cases hd
      · -- the characters are longer, so they go on with a plain one
        cases v with
        | nil => exact absurd (List.append_nil kw) hne
        | cons d v =>
          have hd : isPlain d = true := hw d (List.mem_append_right kw List.mem_cons_self)
          have hopen : d ≠ '(' := by
            rintro rfl
            exact absurd hd (by decide)
          simp [endsWord, not_blank_of_isPlain hd, hopen]
    rw [Option.filter_some, hends]
    rfl

/-- Behind a word stands no plain character. -/
theorem BehindWord.head {u : Text} (h : BehindWord u) : ∀ c ∈ u.head?, isPlain c = false := by
  rcases h with rfl | ⟨v, rfl⟩
  · exact nofun
  · rintro c hc
    cases hc
    decide

/-- A word is not taken for another keyword, also if it begins with it. -/
theorem IsWord.prefix_filter {w kw : Text} (hw : IsWord w) (hkw : IsKeyword kw) (hne : w ≠ kw)
    {u : Text} (hu : BehindWord u) : (kw.isPrefixOf? (w ++ u)).filter endsWord = none := by
  rcases hw.shape with hplain | ⟨c, hc, hplain⟩
  · exact prefix_filter_plain hplain hkw hne hu.head
  · obtain ⟨k, kw, rfl⟩ := List.exists_cons_of_ne_nil hkw.ne_nil
    obtain ⟨w, rfl⟩ := List.head?_eq_some_iff.1 hc
    have hk : k ≠ c := by
      rintro rfl
      rw [hkw.plain k List.mem_cons_self] at hplain
      cases hplain
    rw [List.cons_append, Text.isPrefixOf?_cons_of_ne hk]
    rfl

/-- A keyword is found where it stands as a word. -/
theorem IsKeyword.prefix_filter (kw rest : Text) :
    (kw.isPrefixOf? (kw ++ ' ' :: rest)).filter endsWord = some (' ' :: rest) := by
  rw [List.isPrefixOf?_eq_some_iff_append_eq.2 rfl]
  rfl

/-!
### Keywords among words
-/

/-- The literal in which a scan stands began with a quote. -/
def State.IsSound (s : State) : Prop :=
  match s.mode with
  | .code => True
  | .quoted q => isQuote q = true
  | .escaped q => isQuote q = true

theorem State.IsSound.step {s : State} (h : s.IsSound) (c : Char) : (s.step c).IsSound := by
  obtain ⟨depth, mode⟩ := s
  cases mode with
  | escaped q => exact h
  | quoted q =>
    simp only [State.step]
    split
    · exact h
    · split
      · trivial
      · exact h
  | code =>
    simp only [State.step]
    split
    · assumption
    · split
      · trivial
      · split <;> trivial

/-- A plain character is at the top level only outside literals and groups. -/
theorem State.isTop_of_isPlain {s : State} {k : Char} (hk : isPlain k = true) :
    s.isTop k = true ↔ s = State.start := isTop_iff_eq_start (nesting_of_isPlain hk).2.2

/-- A blank that does not stand at the top level does not lead there. -/
theorem State.step_blank_ne_start {s : State} (hs : s.IsSound) {c : Char}
    (hc : Text.isBlank c = true) (h : s.isTop c = false) : s.step c ≠ State.start := by
  obtain ⟨hquote, hopener, hcloser⟩ := nesting_of_isBlank hc
  obtain ⟨depth, mode⟩ := s
  cases mode with
  | code =>
    rw [step_of_plain rfl hquote hopener hcloser]
    rintro he
    obtain ⟨rfl, -⟩ := State.mk.inj he
    exact absurd (isTop_start c) (by rw [State.start, h]; decide)
  | escaped q => simp [step, State.start]
  | quoted q =>
    have hsound : isQuote q = true := hs
    have hq : c ≠ q := by
      rintro rfl
      rw [hquote] at hsound
      cases hsound
    have hb : c ≠ '\\' := by
      rintro rfl
      exact absurd hc (by decide)
    simp [step, State.start, hq, hb]

/-- No keyword is found in a text that shows no blank, once the scan is inside it. -/
theorem State.breakWord_within {kw : Text} (hkw : IsKeyword kw) {s : State} (hs : s.IsSound)
    {previous : Option Char} (hprevious : previous.any Text.isBlank = true → s ≠ State.start)
    {t : Text} (ht : ∀ c ∈ s.visible t, Text.isBlank c = false) (u : Text) :
    ∃ last, s.breakWord previous kw (t ++ u) =
      ((s.run t).breakWord last kw u).map fun found => (t ++ found.1, found.2) := by
  induction t generalizing s previous with
  | nil => exact ⟨previous, by simp⟩
  | cons c t ih =>
    obtain ⟨k, kw, rfl⟩ := List.exists_cons_of_ne_nil hkw.ne_nil
    have hk : isPlain k = true := hkw.plain k List.mem_cons_self
    have hnone : (if s.isTop c && previous.any Text.isBlank then
        ((k :: kw).isPrefixOf? (c :: (t ++ u))).filter endsWord else none) = none := by
      split
      · next hc =>
        rw [Bool.and_eq_true] at hc
        -- only a closing bracket is at the top level here, and no keyword begins with one
        have hkc : k ≠ c := by
          rintro rfl
          exact hprevious hc.2 ((isTop_of_isPlain hk).1 hc.1)
        rw [Text.isPrefixOf?_cons_of_ne hkc]
        rfl
      · rfl
    have hnext : (some c).any Text.isBlank = true → s.step c ≠ State.start := by
      intro hc
      refine step_blank_ne_start hs hc ?_
      cases htop : s.isTop c with
      | false => rfl
      | true =>
        have hvisible := ht c (by rw [visible_cons_of_top htop]; exact List.mem_cons_self)
        rw [Option.any_some, hvisible] at hc
        cases hc
    have hrest : ∀ d ∈ (s.step c).visible t, Text.isBlank d = false := by
      intro d hd
      refine ht d ?_
      cases htop : s.isTop c with
      | false => rwa [visible_cons_of_not_top htop]
      | true =>
        rw [visible_cons_of_top htop]
        exact List.mem_cons_of_mem c hd
    obtain ⟨last, hlast⟩ := ih (hs.step c) hnext hrest
    refine ⟨last, ?_⟩
    rw [List.cons_append, breakWord, hnone, hlast, run_cons, Option.map_map]
    rfl

/-- There is no keyword in a text that shows no blank. -/
theorem breakWord_of_solid {kw : Text} (hkw : IsKeyword kw) {t : Text}
    (ht : ∀ c ∈ State.start.visible t, Text.isBlank c = false) : breakWord kw t = none := by
  have hsound : State.start.IsSound := trivial
  have hfirst : (none : Option Char).any Text.isBlank = true → State.start ≠ State.start :=
    fun h => absurd h (by decide)
  obtain ⟨last, hbreak⟩ := State.breakWord_within hkw hsound hfirst ht []
  rwa [List.append_nil] at hbreak

/-- No keyword is found at a blank. -/
theorem breakWord_blank {kw : Text} (hkw : IsKeyword kw) (previous : Option Char) (t : Text) :
    State.start.breakWord previous kw (' ' :: t) =
      (State.start.breakWord (some ' ') kw t).map fun found => (' ' :: found.1, found.2) := by
  obtain ⟨k, kw, rfl⟩ := List.exists_cons_of_ne_nil hkw.ne_nil
  have hk : k ≠ ' ' := by
    rintro rfl
    exact absurd (hkw.plain ' ' List.mem_cons_self) (by decide)
  rw [State.breakWord, Text.isPrefixOf?_cons_of_ne hk, Option.filter_none, ite_self]
  rfl

/-- Behind a word the search for a keyword goes on as at the start of a text. -/
theorem breakWord_behindWord {kw : Text} (hkw : IsKeyword kw) {u : Text} (hu : BehindWord u)
    (previous : Option Char) :
    State.start.breakWord previous kw u = State.start.breakWord none kw u := by
  rcases hu with rfl | ⟨v, rfl⟩
  · rfl
  · rw [breakWord_blank hkw, breakWord_blank hkw]

/-- The search for a keyword passes over a text that shows no blank, if the keyword does not
stand at its start. -/
theorem breakWord_solid {w kw : Text} (hkw : IsKeyword kw) (hne : w ≠ [])
    (hrun : State.start.run w = State.start)
    (hsolid : ∀ c ∈ State.start.visible w, Text.isBlank c = false) {u : Text}
    (hu : BehindWord u) (hstart : (kw.isPrefixOf? (w ++ u)).filter endsWord = none)
    (previous : Option Char) :
    State.start.breakWord previous kw (w ++ u) =
      (State.start.breakWord none kw u).map fun found => (w ++ found.1, found.2) := by
  obtain ⟨c, t, rfl⟩ := List.exists_cons_of_ne_nil hne
  rw [State.visible_cons_of_top (isTop_start c)] at hsolid
  have hinside : ∀ d ∈ (State.start.step c).visible t, Text.isBlank d = false :=
    fun d hd => hsolid d (List.mem_cons_of_mem c hd)
  have hsound : (State.start.step c).IsSound :=
    State.IsSound.step (s := State.start) trivial c
  have hprevious : (some c).any Text.isBlank = true → State.start.step c ≠ State.start := by
    intro hb
    rw [Option.any_some, hsolid c List.mem_cons_self] at hb
    cases hb
  obtain ⟨last, hlast⟩ := State.breakWord_within hkw hsound hprevious hinside u
  rw [State.run_cons] at hrun
  rw [hrun, breakWord_behindWord hkw hu] at hlast
  rw [List.cons_append] at hstart ⊢
  rw [State.breakWord, hstart, ite_self, hlast, Option.map_map]
  rfl

/-- The search for a keyword passes over another word. -/
theorem IsWord.breakWord {w kw : Text} (hw : IsWord w) (hkw : IsKeyword kw) (hne : w ≠ kw)
    {u : Text} (hu : BehindWord u) (previous : Option Char) :
    State.start.breakWord previous kw (w ++ u) =
      (State.start.breakWord none kw u).map fun found => (w ++ found.1, found.2) := by
  exact breakWord_solid hkw hw.ne_nil hw.run hw.solid hu (hw.prefix_filter hkw hne hu) previous

/-!
### Texts of words
-/

/-- Words with single spaces between them. -/
def unwords (ws : List Text) : Text := [' '].intercalate ws

@[simp] theorem unwords_singleton (w : Text) : unwords [w] = w := List.intercalate_singleton

theorem unwords_cons {ws : List Text} (h : ws ≠ []) (w : Text) :
    unwords (w :: ws) = w ++ ' ' :: unwords ws := by
  obtain ⟨v, ws, rfl⟩ := List.exists_cons_of_ne_nil h
  rw [unwords, List.intercalate_cons_cons, List.append_assoc]
  rfl

/-- Two lists of words in a row have one more space between them. -/
theorem unwords_append {ws vs : List Text} (hw : ws ≠ []) (hv : vs ≠ []) :
    unwords (ws ++ vs) = unwords ws ++ ' ' :: unwords vs := by
  induction ws with
  | nil => exact absurd rfl hw
  | cons w ws ih =>
    cases ws with
    | nil =>
      rw [unwords_singleton]
      exact unwords_cons hv w
    | cons x ws =>
      rw [List.cons_append, unwords_cons (by simp), unwords_cons (by simp), ih (by simp),
        List.append_assoc, List.cons_append]

section

variable {ws : List Text}

/-- Words in a row are balanced. -/
theorem isBalanced_unwords (h : ∀ w ∈ ws, IsWord w) : isBalanced (unwords ws) = true :=
  isBalanced_intercalate rfl fun w hw => (h w hw).balanced

/-- What a text of words shows is what its words show, and the spaces between them. -/
theorem visible_unwords (h : ∀ w ∈ ws, IsWord w) :
    State.start.visible (unwords ws) = unwords (ws.map State.start.visible) := by
  induction ws with
  | nil => rfl
  | cons w ws ih =>
    have hw : IsWord w := h w List.mem_cons_self
    have hws := ih fun v hv => h v (List.mem_cons_of_mem w hv)
    by_cases hne : ws = []
    · rw [hne, List.map_singleton, unwords_singleton, unwords_singleton]
    · have hspace : State.start.step ' ' = State.start := rfl
      rw [List.map_cons, unwords_cons hne, unwords_cons (by simpa using hne),
        State.visible_append, hw.run, State.visible_cons_of_top (isTop_start ' '), hspace, hws]

/-- A text of words begins and ends with characters that are not blank. -/
theorem ends_unwords (hne : ws ≠ []) (h : ∀ w ∈ ws, IsWord w) :
    (∃ c, (unwords ws).head? = some c ∧ Text.isBlank c = false) ∧
      ∃ c, (unwords ws).getLast? = some c ∧ Text.isBlank c = false := by
  induction ws with
  | nil => exact absurd rfl hne
  | cons w ws ih =>
    have hw : IsWord w := h w List.mem_cons_self
    by_cases hws : ws = []
    · rw [hws, unwords_singleton]
      exact ⟨hw.first, hw.last⟩
    · obtain ⟨-, d, hd, hblank⟩ := ih hws fun v hv => h v (List.mem_cons_of_mem w hv)
      obtain ⟨c, hc, hfirst⟩ := hw.first
      rw [unwords_cons hws]
      constructor
      · refine ⟨c, ?_, hfirst⟩
        rw [List.head?_append, hc, Option.some_or]
      · refine ⟨d, ?_, hblank⟩
        rw [List.getLast?_append, List.getLast?_cons, hd, Option.getD_some, Option.some_or]

/-- A text of words is trimmed. -/
theorem trim_unwords (h : ∀ w ∈ ws, IsWord w) : Text.trim (unwords ws) = unwords ws := by
  by_cases hne : ws = []
  · rw [hne]
    rfl
  · obtain ⟨⟨c, hc, hfirst⟩, d, hd, hlast⟩ := ends_unwords hne h
    exact Text.trim_eq_self hc hfirst hd hlast

/-- A text of words is not empty. -/
theorem unwords_ne_nil (hne : ws ≠ []) (h : ∀ w ∈ ws, IsWord w) : unwords ws ≠ [] := by
  obtain ⟨⟨c, hc, -⟩, -⟩ := ends_unwords hne h
  rintro he
  rw [he] at hc
  cases hc

/-- Every text shows its first character. -/
theorem length_visible_pos {t : Text} (h : t ≠ []) : 0 < (State.start.visible t).length := by
  obtain ⟨c, t, rfl⟩ := List.exists_cons_of_ne_nil h
  rw [State.visible_cons_of_top (isTop_start c), List.length_cons]
  omega

/-- A text that shows more than two characters is not one group. -/
theorem stripParens?_eq_none {t : Text} (h : 2 < (State.start.visible t).length) :
    stripParens? t = none := by
  cases t with
  | nil => rfl
  | cons c t =>
    have hoffsets : topOffsets (c :: t) ≠ [0, t.length] := by
      intro he
      have hlength := State.length_topOffsets State.start 0 (c :: t)
      rw [← topOffsets, he, List.length_cons, List.length_singleton] at hlength
      omega
    rw [stripParens?, if_neg fun hc => hoffsets hc.2.2]

/-- A text of several words is not one group. -/
theorem stripParens?_unwords (h : ∀ w ∈ ws, IsWord w) (two : 2 ≤ ws.length) :
    stripParens? (unwords ws) = none := by
  cases ws with
  | nil => exact absurd two (by decide)
  | cons w ws =>
    have hne : ws ≠ [] := by
      rintro rfl
      rw [List.length_singleton] at two
      omega
    have hw : IsWord w := h w List.mem_cons_self
    have hws : unwords ws ≠ [] := unwords_ne_nil hne fun v hv => h v (List.mem_cons_of_mem w hv)
    have hfirst := length_visible_pos hw.ne_nil
    have hlater := length_visible_pos hws
    have hspace : State.start.step ' ' = State.start := rfl
    refine stripParens?_eq_none ?_
    rw [unwords_cons hne, State.visible_append, hw.run,
      State.visible_cons_of_top (isTop_start ' '), hspace, List.length_append, List.length_cons]
    omega

/-!
### Cutting at keywords
-/

variable {kw : Text}

/-- The search for a keyword passes over words other than it. -/
theorem breakWord_unwords (hkw : IsKeyword kw) (hne : ws ≠ [])
    (h : ∀ w ∈ ws, IsWord w) (hmem : kw ∉ ws) {u : Text} (hu : BehindWord u)
    (previous : Option Char) :
    State.start.breakWord previous kw (unwords ws ++ u) =
      (State.start.breakWord none kw u).map fun found => (unwords ws ++ found.1, found.2) := by
  induction ws generalizing previous with
  | nil => exact absurd rfl hne
  | cons w ws ih =>
    have hw : IsWord w := h w List.mem_cons_self
    have hwk : w ≠ kw := fun he => hmem (by rw [he]; exact List.mem_cons_self)
    by_cases hws : ws = []
    · rw [hws, unwords_singleton]
      exact hw.breakWord hkw hwk hu previous
    · have hrest := ih hws (fun v hv => h v (List.mem_cons_of_mem w hv))
        (fun hk => hmem (List.mem_cons_of_mem w hk)) (some ' ')
      have hspace : BehindWord (' ' :: (unwords ws ++ u)) := .inr ⟨_, rfl⟩
      rw [unwords_cons hws, List.append_assoc, List.cons_append,
        hw.breakWord hkw hwk hspace previous, breakWord_blank hkw, hrest, Option.map_map,
        Option.map_map]
      simp [Function.comp_def]

/-- A keyword is not found in words other than it. -/
theorem breakWord_eq_none (hkw : IsKeyword kw) (hne : ws ≠ []) (h : ∀ w ∈ ws, IsWord w)
    (hmem : kw ∉ ws) (previous : Option Char) :
    State.start.breakWord previous kw (unwords ws) = none := by
  have hall := breakWord_unwords hkw hne h hmem (.inl rfl) previous
  rwa [List.append_nil] at hall

/-- Behind a space a keyword is found where it stands. -/
theorem breakWord_here (hkw : IsKeyword kw) (rest : Text) :
    State.start.breakWord (some ' ') kw (kw ++ ' ' :: rest) = some ([], ' ' :: rest) := by
  have hprefix := IsKeyword.prefix_filter kw rest
  obtain ⟨k, kw, rfl⟩ := List.exists_cons_of_ne_nil hkw.ne_nil
  rw [List.cons_append] at hprefix ⊢
  rw [State.breakWord, isTop_start, hprefix]
  rfl

/-- The first keyword among words is found where it stands. -/
theorem breakWord_eq_some (hkw : IsKeyword kw) (hne : ws ≠ []) (h : ∀ w ∈ ws, IsWord w)
    (hmem : kw ∉ ws) (previous : Option Char) (rest : Text) :
    State.start.breakWord previous kw (unwords ws ++ ' ' :: (kw ++ ' ' :: rest)) =
      some (unwords ws ++ [' '], ' ' :: rest) := by
  rw [breakWord_unwords hkw hne h hmem (.inr ⟨_, rfl⟩), breakWord_blank hkw, breakWord_here hkw]
  rfl

/-- A text without the keyword is one part. -/
theorem splitWord_of_eq_none {t : Text} (h : breakWord kw t = none) : splitWord kw t = [t] := by
  unfold splitWord
  split
  · rfl
  · split
    · rfl
    · next hb =>
      rw [h] at hb
      cases hb

/-- A text without the keyword is not split. -/
theorem length_splitWord_of_eq_none {t : Text} (h : breakWord kw t = none) :
    (splitWord kw t).length < 2 := by
  rw [splitWord_of_eq_none h, List.length_singleton]
  exact Nat.lt_succ_self 1

/-- A text with the keyword is what stands before it and the parts behind it. -/
theorem splitWord_of_eq_some {t before after : Text} (hkw : IsKeyword kw)
    (h : breakWord kw t = some (before, after)) :
    splitWord kw t = before :: splitWord kw after := by
  rw [splitWord, dif_neg hkw.ne_nil]
  split
  · next hb =>
    rw [h] at hb
    cases hb
  · next hb =>
    rw [h] at hb
    cases hb
    rfl

/-- The search for a keyword passes over a space before the first word. -/
theorem breakWord_lead (hkw : IsKeyword kw) {lead : Text} (hlead : lead = [] ∨ lead = [' '])
    (t : Text) : breakWord kw (lead ++ t) = (State.start.breakWord lead.getLast? kw t).map
      fun found => (lead ++ found.1, found.2) := by
  rcases hlead with rfl | rfl
  · simp [breakWord]
  · exact breakWord_blank hkw none t

/-- Words joined by a keyword begin with the words before the first keyword. -/
theorem unwords_intercalate {p : List Text} {ps : List (List Text)} (hp : p ≠ [])
    (hps : ps ≠ []) (hne : ∀ q ∈ ps, q ≠ []) : unwords ([kw].intercalate (p :: ps)) =
      unwords p ++ ' ' :: (kw ++ ' ' :: unwords ([kw].intercalate ps)) := by
  obtain ⟨q, ps, rfl⟩ := List.exists_cons_of_ne_nil hps
  have hq : q ≠ [] := hne q List.mem_cons_self
  have hlater : [kw].intercalate (q :: ps) ≠ [] := by
    cases ps with
    | nil => rwa [List.intercalate_singleton]
    | cons r ps =>
      rw [List.intercalate_cons_cons]
      simp
  rw [List.intercalate_cons_cons, List.append_assoc, unwords_append hp (by simp)]
  exact congrArg (unwords p ++ ' ' :: ·) (unwords_cons hlater kw)

/-- Cutting lists of words that are joined by a keyword gives back the lists. A space may
stand before the first word, as it does behind a keyword. -/
theorem trim_splitWord (hkw : IsKeyword kw) {ps : List (List Text)} (hps : ps ≠ [])
    (h : ∀ p ∈ ps, p ≠ [] ∧ (∀ w ∈ p, IsWord w) ∧ kw ∉ p) {lead : Text}
    (hlead : lead = [] ∨ lead = [' ']) :
    (splitWord kw (lead ++ unwords ([kw].intercalate ps))).map Text.trim = ps.map unwords := by
  induction ps generalizing lead with
  | nil => exact absurd rfl hps
  | cons p ps ih =>
    obtain ⟨hne, hwords, hmem⟩ := h p List.mem_cons_self
    have hlater := fun q hq => h q (List.mem_cons_of_mem p hq)
    have htrim : Text.trim (lead ++ unwords p) = unwords p := by
      rcases hlead with rfl | rfl
      · exact trim_unwords hwords
      · exact (Text.trim_cons_of_blank rfl _).trans (trim_unwords hwords)
    by_cases hlast : ps = []
    · have hnone : breakWord kw (lead ++ unwords p) = none := by
        rw [breakWord_lead hkw hlead, breakWord_eq_none hkw hne hwords hmem]
        rfl
      rw [hlast, List.intercalate_singleton, splitWord_of_eq_none hnone, List.map_singleton,
        htrim, List.map_singleton]
    · have hsome : breakWord kw (lead ++ unwords ([kw].intercalate (p :: ps))) =
          some (lead ++ unwords p ++ [' '], ' ' :: unwords ([kw].intercalate ps)) := by
        rw [unwords_intercalate hne hlast fun q hq => (hlater q hq).1, breakWord_lead hkw hlead,
          breakWord_eq_some hkw hne hwords hmem, Option.map_some, List.append_assoc]
      have hrest : (splitWord kw ([' '] ++ unwords ([kw].intercalate ps))).map Text.trim =
          ps.map unwords := ih hlast hlater (.inr rfl)
      rw [splitWord_of_eq_some hkw hsome, List.map_cons, List.map_cons,
        Text.trim_append_of_blank rfl, htrim]
      exact congrArg (unwords p :: ·) hrest

end

end Nesting

end PromptTemplate
