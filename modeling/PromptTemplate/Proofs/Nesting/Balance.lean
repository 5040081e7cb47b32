import PromptTemplate.Proofs.Nesting.Splitting
import PromptTemplate.Proofs.Nesting.Words

/-!
# What it means to be balanced

Four readers look for closed groups and literals, each in its own way: one never
falls below depth zero, one refuses a text that would, one refuses a group that
closes with the wrong bracket first, and one knows quotes only. Balance is what
they have in common. A text is a group in parentheses, up to a closing bracket, or
a literal, for each of these readers exactly if the scan of balanced texts says
so; and cutting a balanced text where a scan is at the start leaves balanced parts.
-/

namespace PromptTemplate

namespace Nesting

/-!
### Groups
-/

/-- Positions at the top level lie in the text. -/
theorem State.lt_of_mem_topOffsets {s : State} {position i : Nat} {t : Text}
    (h : i ∈ s.topOffsets position t) : i < position + t.length := by
  induction t generalizing s position with
  | nil => cases h
  | cons c t ih =>
    have hlater (h : i ∈ (s.step c).topOffsets (position + 1) t) :
        i < position + (c :: t).length := by
      have := ih h
      rw [List.length_cons]
      omega
    rw [topOffsets] at h
    split at h
    · rcases List.mem_cons.1 h with rfl | h
      · rw [List.length_cons]
        omega
      · exact hlater h
    · exact hlater h

/-- A text shows nothing exactly if it has no positions at the top level. -/
theorem State.topOffsets_eq_nil_iff {s : State} {position : Nat} {t : Text} :
    s.topOffsets position t = [] ↔ s.visible t = [] := by
  rw [← List.length_eq_zero_iff, length_topOffsets, List.length_eq_zero_iff]

/-- A bracket that alone is visible behind a text inside one more group closes that group, and
the text is balanced. -/
theorem isBalanced_of_topOffsets {t : Text} {c : Char}
    (h : State.start.deeper.topOffsets 1 (t ++ [c]) = [t.length + 1]) : isBalanced t = true := by
  rw [State.topOffsets_append] at h
  have hnone : State.start.deeper.topOffsets 1 t = [] := by
    cases hfirst : State.start.deeper.topOffsets 1 t with
    | nil => rfl
    | cons i later =>
      have hlt : i < 1 + t.length := State.lt_of_mem_topOffsets (by rw [hfirst]; simp)
      rw [hfirst, List.cons_append] at h
      have hi : i = t.length + 1 := (List.cons.inj h).1
      omega
  have hhidden : State.start.deeper.visible t = [] := State.topOffsets_eq_nil_iff.1 hnone
  have htop : (State.start.run t).deeper.isTop c = true := by
    cases htop : (State.start.run t).deeper.isTop c with
    | true => rfl
    | false =>
      rw [hnone, State.run_deeper_of_hidden hhidden, State.topOffsets, if_neg (by simp [htop])] at h
      cases h
  obtain ⟨hmode, hdepth, -⟩ := (State.isTop_deeper _ c).1 htop
  refine State.closes_iff_hidden.2 ⟨hhidden, ?_⟩
  rw [State.start, State.mk.injEq]
  exact ⟨hdepth, hmode⟩

/-- Parentheses enclose a text exactly if it is balanced. -/
theorem stripParens?_eq_some_iff {t inner : Text} :
    stripParens? t = some inner ↔ t = '(' :: (inner ++ [')']) ∧ isBalanced inner = true := by
  refine ⟨fun h => ?_, fun ⟨ht, hinner⟩ => ht ▸ stripParens?_group hinner⟩
  cases t with
  | nil => cases h
  | cons c rest =>
    rw [stripParens?] at h
    split at h
    next hgroup =>
      obtain ⟨rfl, hlast, hoffsets⟩ := hgroup
      obtain ⟨body, rfl⟩ := List.getLast?_eq_some_iff.1 hlast
      obtain rfl : body = inner := by simpa using h
      refine ⟨rfl, isBalanced_of_topOffsets (c := ')') ?_⟩
      rw [List.length_append, List.length_singleton] at hoffsets
      exact (List.cons.inj hoffsets).2
    next => cases h

/-- A bracket closes the group that stands open before a text exactly if the text is balanced,
and there is no other such bracket. -/
theorem closeIndex_eq_some_iff {t inside after : Text} :
    closeIndex t = some (inside, after) ↔ t = inside ++ ']' :: after ∧ isBalanced inside = true := by
  constructor
  · exact fun h => ⟨eq_of_closeIndex h, State.closes_of_closeIndex h⟩
  · rintro ⟨rfl, hinside⟩
    exact State.closeIndex_of_closes hinside after

/-- The group that a text opens with closes at a position exactly if a closing bracket stands
there behind a balanced text. -/
theorem closeIndex_position_iff {t : Text} {i : Nat} :
    (closeIndex t).map (fun found => found.1.length + 1) = some i ↔
      ('[' :: t)[i]? = some ']' ∧ isBalanced ((('[' :: t).take i).drop 1) = true := by
  constructor
  · intro h
    obtain ⟨⟨inside, after⟩, hclose, rfl⟩ := Option.map_eq_some_iff.1 h
    obtain ⟨rfl, hinside⟩ := closeIndex_eq_some_iff.1 hclose
    have htake : (inside ++ ']' :: after).take inside.length = inside := List.take_left
    refine ⟨by simp, ?_⟩
    rwa [List.take_succ_cons, List.drop_one, List.tail_cons, htake]
  · rintro ⟨hbracket, hinside⟩
    cases i with
    | zero => cases hbracket
    | succ i =>
      rw [List.getElem?_cons_succ] at hbracket
      rw [List.take_succ_cons, List.drop_one, List.tail_cons] at hinside
      obtain ⟨hlt, hat⟩ := List.getElem?_eq_some_iff.1 hbracket
      have htext : t = t.take i ++ ']' :: t.drop (i + 1) := by
        rw [← hat, List.getElem_cons_drop, List.take_append_drop]
      have hclose := closeIndex_eq_some_iff.2 ⟨htext, hinside⟩
      rw [hclose, Option.map_some, List.length_take, Nat.min_eq_left (Nat.le_of_lt hlt)]

/-!
### Literals
-/

/-- A text that closes a literal and shows nothing ends with the first quote that is not
escaped. -/
theorem exists_close_of_closes {q : Char} {t : Text}
    (hcloses : (State.mk 0 (.quoted q)).closes t = true)
    (hhidden : (State.mk 0 (.quoted q)).visible t = []) :
    ∃ body, Literal.close q t = some (body, []) := by
  fun_induction Literal.close q t with
  | case1 => cases hcloses
  | case2 c rest ih =>
    -- a backslash takes the next character with it
    rw [State.visible_cons_of_not_top rfl, State.visible_cons_of_not_top rfl] at hhidden
    obtain ⟨body, hbody⟩ := ih (State.closes_cons (State.closes_cons hcloses).2).2 hhidden
    exact ⟨'\\' :: c :: body, by rw [hbody]; rfl⟩
  | case3 rest hpair =>
    have hbackslash : q ≠ '\\' := by
      rintro rfl
      cases rest with
      | nil => cases hcloses
      | cons d rest => exact hpair d rest rfl rfl
    have hstep : (State.mk 0 (.quoted q)).step q = State.start := by
      simp [State.step, State.start, hbackslash]
    rw [State.visible_cons_of_not_top rfl, hstep] at hhidden
    cases rest with
    | nil => exact ⟨[], rfl⟩
    | cons d rest =>
      rw [State.visible_cons_of_top (isTop_start d)] at hhidden
      cases hhidden
  | case4 c rest hpair hc ih =>
    have hbackslash : c ≠ '\\' := by
      rintro rfl
      cases rest with
      | nil => cases hcloses
      | cons d rest => exact hpair d rest rfl rfl
    have hstep : (State.mk 0 (.quoted q)).step c = ⟨0, .quoted q⟩ := by
      simp [State.step, hbackslash, hc]
    have hlater := (State.closes_cons hcloses).2
    rw [State.visible_cons_of_not_top rfl] at hhidden
    rw [hstep] at hlater hhidden
    obtain ⟨body, hbody⟩ := ih hlater hhidden
    exact ⟨c :: body, by rw [hbody]; rfl⟩

/-- The first character of a text is at its top level. -/
theorem topOffsets_cons (c : Char) (t : Text) :
    topOffsets (c :: t) = 0 :: (State.start.step c).topOffsets 1 t := if_pos (isTop_start c)

/-- A text that begins with a quote is a literal from end to end exactly if it is balanced and
shows nothing but that quote. -/
theorem isSome_read?_iff {q : Char} (hq : isQuote q = true) {t : Text} :
    (Literal.read? (q :: t)).isSome = true ↔
      isBalanced (q :: t) = true ∧ topOffsets (q :: t) = [0] := by
  have honly : topOffsets (q :: t) = [0] ↔ (State.mk 0 (.quoted q)).visible t = [] := by
    rw [topOffsets_cons, step_start_quote hq, List.cons_eq_cons, and_iff_right rfl,
      State.topOffsets_eq_nil_iff]
  rw [honly]
  constructor
  · intro h
    obtain ⟨⟨quote, value⟩, hread⟩ := Option.isSome_iff_exists.1 h
    obtain ⟨hbalanced, hvisible⟩ := scan_of_read? hread
    rw [State.visible_cons_of_top (isTop_start q), step_start_quote hq] at hvisible
    exact ⟨hbalanced, (List.cons.inj hvisible).2⟩
  · rintro ⟨hbalanced, hhidden⟩
    have hcloses := (State.closes_cons hbalanced).2
    rw [step_start_quote hq] at hcloses
    obtain ⟨body, hbody⟩ := exists_close_of_closes hcloses hhidden
    rw [Literal.read?, if_pos hq, hbody]
    rfl

/-!
### Parts between keywords
-/

variable {kw : Text}

/-- A keyword is found where a scan is at the start. -/
theorem State.run_of_breakWord (hkw : IsKeyword kw) {s : State} {previous : Option Char}
    {t : Text} {found : Text × Text} (h : s.breakWord previous kw t = some found) :
    s.run found.1 = State.start := by
  induction t generalizing s previous found with
  | nil => cases h
  | cons c t ih =>
    rw [breakWord] at h
    split at h
    next after hword =>
      cases h
      split at hword
      next hplace =>
        obtain ⟨k, kw, rfl⟩ := List.exists_cons_of_ne_nil hkw.ne_nil
        have hk : isPlain k = true := hkw.plain k List.mem_cons_self
        have hwhole : k :: kw ++ after = c :: t :=
          List.append_eq_of_isPrefixOf?_eq_some (Option.filter_eq_some_iff.1 hword).1
        obtain rfl : k = c := (List.cons.inj hwhole).1
        exact (isTop_of_isPlain hk).1 (Bool.and_eq_true_iff.1 hplace).1
      next => cases hword
    next =>
      obtain ⟨later, hlater, rfl⟩ := Option.map_eq_some_iff.1 h
      have hrun : (s.step c).run later.1 = State.start := ih hlater
      exact hrun

/-- The parts of a balanced text between keywords are balanced. -/
theorem isBalanced_of_mem_splitWord (hkw : IsKeyword kw) {t part : Text}
    (ht : isBalanced t = true) (h : part ∈ splitWord kw t) : isBalanced part = true := by
  fun_induction splitWord kw t with
  | case1 t => rwa [List.mem_singleton.1 h]
  | case2 t => rwa [List.mem_singleton.1 h]
  | case3 t hne before after hbreak ih =>
    have hwhole := eq_of_breakWord hbreak
    rw [hwhole, List.append_assoc] at ht
    obtain ⟨hbefore, hrest⟩ := State.closes_of_append ht (State.run_of_breakWord hkw hbreak)
    rcases List.mem_cons.1 h with rfl | h
    · exact hbefore
    · exact ih (State.closes_of_append hrest hkw.isWord.run).2 h

/-- Blanks do not lead a scan to the start. -/
theorem State.eq_start_of_run_blanks {s : State} (hs : s.IsSound) {t : Text}
    (ht : ∀ c ∈ t, Text.isBlank c = true) (h : s.run t = State.start) : s = State.start := by
  induction t generalizing s with
  | nil => exact h
  | cons c t ih =>
    obtain ⟨hc, ht⟩ := List.forall_mem_cons.1 ht
    have hstep : s.step c = State.start := ih (hs.step c) ht h
    cases htop : s.isTop c with
    | false => exact absurd hstep (step_blank_ne_start hs hc htop)
    | true => exact (isTop_iff_eq_start (nesting_of_isBlank hc).2.2).1 htop

/-- The literal in which a scan stands began with a quote, whatever was read. -/
theorem State.IsSound.run {s : State} (hs : s.IsSound) (t : Text) : (s.run t).IsSound := by
  induction t generalizing s with
  | nil => exact hs
  | cons c t ih => exact ih (hs.step c)

/-- A balanced text stays balanced without the blanks at its ends. -/
theorem isBalanced_trim {t : Text} (h : isBalanced t = true) : isBalanced (Text.trim t) = true := by
  obtain ⟨after, hafter, hend⟩ := Text.exists_trimEnd (Text.trimStart t)
  have hstart := isBalanced_trimStart h
  rw [hend] at hstart
  have hsound : (State.start.run (Text.trim t)).IsSound :=
    State.IsSound.run (s := State.start) trivial _
  have hrun := State.run_of_closes hstart
  rw [State.run_append] at hrun
  exact (State.closes_of_append hstart (State.eq_start_of_run_blanks hsound hafter hrun)).1

/-!
### All readers
-/

/-- All readers of groups and literals go by balance. Parentheses enclose a text if it is
balanced. A bracket closes the group that a text opens with if what stands between them is
balanced, so only one bracket does. A text that begins with a quote is a literal if it is
balanced and nothing else in it is at the top level. And the parts of a balanced text, between
separators or trimmed between keywords, are balanced again. -/
theorem readers_agree_on_balance (t : Text) :
    (∀ inner, stripParens? t = some inner ↔
      t = '(' :: (inner ++ [')']) ∧ isBalanced inner = true) ∧
    (∀ rest, t = '[' :: rest →
      (∀ i, (closeIndex rest).map (fun found => found.1.length + 1) = some i ↔
        t[i]? = some ']' ∧ isBalanced ((t.take i).drop 1) = true) ∧
      ∀ i j, t[i]? = some ']' ∧ isBalanced ((t.take i).drop 1) = true →
        t[j]? = some ']' ∧ isBalanced ((t.take j).drop 1) = true → i = j) ∧
    (∀ q rest, t = q :: rest → isQuote q = true →
      ((Literal.read? t).isSome = true ↔ isBalanced t = true ∧ topOffsets t = [0])) ∧
    (isBalanced t = true →
      (∀ sep ∈ ['+', '|', ','], ∀ part ∈ split sep t, isBalanced part = true) ∧
      ∀ word ∈ ["and".toList, "or".toList], ∀ part ∈ (splitWord word t).map Text.trim,
        isBalanced part = true) := by
  refine ⟨fun inner => stripParens?_eq_some_iff, ?_, ?_, fun ht => ⟨?_, ?_⟩⟩
  · rintro rest rfl
    refine ⟨fun i => closeIndex_position_iff, fun i j hi hj => ?_⟩
    have hfirst := closeIndex_position_iff.2 hi
    exact Option.some.inj (hfirst.symm.trans (closeIndex_position_iff.2 hj))
  · rintro q rest rfl hq
    exact isSome_read?_iff hq
  · intro sep hsep part hpart
    have hneutral : IsNeutral sep := by
      simp only [List.mem_cons, List.not_mem_nil, or_false] at hsep
      rcases hsep with rfl | rfl | rfl <;> exact ⟨rfl, rfl, rfl⟩
    exact isBalanced_of_mem_split hneutral ht hpart
  · intro word hword part hpart
    have hkeyword : ∀ word ∈ ["and".toList, "or".toList], IsKeyword word := by decide
    obtain ⟨piece, hpiece, rfl⟩ := List.mem_map.1 hpart
    exact isBalanced_trim (isBalanced_of_mem_splitWord (hkeyword word hword) ht hpiece)

/-- Brackets in literals inside a group, an index and a literal, and separators and keywords in
all of them. -/
theorem readers_agree_on_balance_of_hidden_brackets :
    let group := "(a[')'] or b)".toList
    let index := "[f(']')]['x']".toList
    let literal := "'it\\'s)'".toList
    let joined := "f('+') + x[' and '] and (y or z)".toList
    stripParens? group = some "a[')'] or b".toList ∧
      (closeIndex index.tail).map (fun found => found.1.length + 1) = some 7 ∧
      (isQuote '\'' = true ∧ (Literal.read? literal).isSome = true) ∧
      isBalanced joined = true ∧
      (∀ part ∈ split '+' joined, isBalanced part = true) ∧
      ∀ part ∈ (splitWord "and".toList joined).map Text.trim, isBalanced part = true := by
  intro group index literal joined
  have hquote : isQuote '\'' = true := rfl
  have hjoined : isBalanced joined = true := by decide
  obtain ⟨hgroup, -⟩ := readers_agree_on_balance group
  obtain ⟨-, hindex, -⟩ := readers_agree_on_balance index
  obtain ⟨-, -, hliteral, -⟩ := readers_agree_on_balance literal
  obtain ⟨hseparators, hkeywords⟩ := (readers_agree_on_balance joined).2.2.2 hjoined
  refine ⟨(hgroup _).2 ⟨rfl, by decide⟩, ((hindex _ rfl).1 7).2 ⟨rfl, by decide⟩,
    ⟨hquote, (hliteral _ _ rfl hquote).2 ⟨by decide, by decide⟩⟩, hjoined,
    hseparators '+' (by decide), hkeywords _ (by decide)⟩

end Nesting

end PromptTemplate
