import PromptTemplate.Nesting.Group
import PromptTemplate.Nesting.Split
import PromptTemplate.Proofs.Text.Affix

/-!
# Scans of composed texts

A scan of two texts in a row is a scan of the first and then, from where that
ends, of the second. A text that closes what is open ends at the start again, so
behind it a mark is found where it stands; inside one more group it shows
nothing at the top level.
-/

namespace PromptTemplate

namespace Nesting

/-- The characters at the top level of a text. -/
def State.visible (s : State) : Text → List Char
  | [] => []
  | c :: rest => if s.isTop c then c :: (s.step c).visible rest else (s.step c).visible rest

/-- At the start every character is at the top level. -/
@[simp] theorem isTop_start (c : Char) : State.start.isTop c = true := by
  by_cases h : isCloser c = true <;> simp [State.isTop, State.start, h]

/-- There are two quotes. -/
theorem eq_of_isQuote {q : Char} (h : isQuote q = true) : q = '\'' ∨ q = '"' := by
  simpa [isQuote] using h

/-- A quote opens a literal. -/
theorem step_start_quote {q : Char} (hq : isQuote q = true) :
    State.start.step q = ⟨0, .quoted q⟩ := by
  simp [State.step, State.start, hq]

/-- A character that neither opens, closes nor quotes leaves a scan outside literals as
it is. -/
theorem State.step_of_plain {s : State} {c : Char} (hs : s.mode = .code)
    (hq : isQuote c = false) (ho : isOpener c = false) (hc : isCloser c = false) :
    s.step c = s := by
  simp [State.step, hs, hq, ho, hc]

/-- A closer never leaves more groups open than before. -/
theorem State.step_of_closer {s : State} {c : Char} (hs : s.mode = .code)
    (hc : isCloser c = true) : s.step c = ⟨s.depth - 1, .code⟩ := by
  have hq : isQuote c = false := by
    simp only [isCloser, isQuote, Bool.or_eq_true, beq_iff_eq] at *
    rcases hc with (rfl | rfl) | rfl <;> rfl
  have ho : isOpener c = false := by
    simp only [isCloser, isOpener, Bool.or_eq_true, beq_iff_eq] at *
    rcases hc with (rfl | rfl) | rfl <;> rfl
  simp [State.step, hs, hq, ho, hc]

/-- Outside closers, a character is at the top level only where every scan starts. -/
theorem State.isTop_iff_eq_start {s : State} {c : Char} (hc : isCloser c = false) :
    s.isTop c = true ↔ s = State.start := by
  obtain ⟨depth, mode⟩ := s
  cases mode with
  | code => simp [isTop, State.start, hc]
  | quoted q => simp [isTop, State.start]
  | escaped q => simp [isTop, State.start]

/-- Behind a character at the top level that neither opens nor quotes a scan is at the
start. -/
theorem State.step_of_top {s : State} {c : Char} (hq : isQuote c = false)
    (ho : isOpener c = false) (h : s.isTop c = true) : s.step c = State.start := by
  cases hc : isCloser c with
  | false =>
    rw [(isTop_iff_eq_start hc).1 h]
    exact step_of_plain rfl hq ho hc
  | true =>
    obtain ⟨depth, mode⟩ := s
    cases mode with
    | escaped q => cases h
    | quoted q => cases h
    | code =>
      have hdepth : depth ≤ 1 := by simpa [isTop, hc] using h
      rw [step_of_closer rfl hc]
      simp only [State.start, State.mk.injEq, and_true]
      omega

theorem State.visible_cons_of_top {s : State} {c : Char} (h : s.isTop c = true) (t : Text) :
    s.visible (c :: t) = c :: (s.step c).visible t := by
  rw [visible, if_pos h]

theorem State.visible_cons_of_not_top {s : State} {c : Char} (h : s.isTop c = false) (t : Text) :
    s.visible (c :: t) = (s.step c).visible t := by
  rw [visible, if_neg (by rw [h]; decide)]

/-- What is visible of a text stands in it. -/
theorem State.mem_of_mem_visible {s : State} {t : Text} {c : Char} (h : c ∈ s.visible t) :
    c ∈ t := by
  induction t generalizing s with
  | nil => cases h
  | cons d t ih =>
    cases htop : s.isTop d with
    | false =>
      rw [visible_cons_of_not_top htop] at h
      exact List.mem_cons_of_mem d (ih h)
    | true =>
      rw [visible_cons_of_top htop] at h
      rcases List.mem_cons.1 h with rfl | h
      · exact List.mem_cons_self
      · exact List.mem_cons_of_mem d (ih h)

/-- What is visible of two texts in a row. -/
theorem State.visible_append (s : State) (t u : Text) :
    s.visible (t ++ u) = s.visible t ++ (s.run t).visible u := by
  induction t generalizing s with
  | nil => rfl
  | cons c t ih =>
    cases h : s.isTop c with
    | true => rw [List.cons_append, visible_cons_of_top h, visible_cons_of_top h, ih]; rfl
    | false => rw [List.cons_append, visible_cons_of_not_top h, visible_cons_of_not_top h, ih]; rfl

/-- The top-level positions of two texts in a row. -/
theorem State.topOffsets_append (s : State) (position : Nat) (t u : Text) :
    s.topOffsets position (t ++ u) =
      s.topOffsets position t ++ (s.run t).topOffsets (position + t.length) u := by
  induction t generalizing s position with
  | nil => rfl
  | cons c t ih =>
    have hposition : position + 1 + t.length = position + (c :: t).length := by
      rw [List.length_cons]
      omega
    simp only [List.cons_append, topOffsets, ih, hposition, run_cons]
    split <;> rfl

/-- Every visible character has one position. -/
theorem State.length_topOffsets (s : State) (position : Nat) (t : Text) :
    (s.topOffsets position t).length = (s.visible t).length := by
  induction t generalizing s position with
  | nil => rfl
  | cons c t ih =>
    simp only [topOffsets, visible]
    split <;> simp [ih]

/-!
### Texts that close what is open
-/

theorem State.closes_cons {s : State} {c : Char} {t : Text} (h : s.closes (c :: t) = true) :
    ¬ (s.mode = .code ∧ s.depth = 0 ∧ isCloser c) ∧ (s.step c).closes t = true := by
  rw [closes] at h
  split at h
  · cases h
  · next hc => exact ⟨hc, h⟩

/-- Behind a text that closes what is open a scan is where it started. -/
theorem State.run_of_closes {s : State} {t : Text} (h : s.closes t = true) :
    s.run t = State.start := by
  induction t generalizing s with
  | nil => simpa [closes] using h
  | cons c t ih => exact ih (closes_cons h).2

/-- Behind a text that closes what is open the rest has to be balanced. -/
theorem State.closes_append {s : State} {t : Text} (h : s.closes t = true) (u : Text) :
    s.closes (t ++ u) = State.start.closes u := by
  induction t generalizing s with
  | nil =>
    have hs : s = State.start := by simpa [closes] using h
    rw [hs, List.nil_append]
  | cons c t ih =>
    obtain ⟨hc, ht⟩ := closes_cons h
    rw [List.cons_append, closes, if_neg hc, ih ht]

/-- Where a scan is at the start, a text that closes what is open falls into two that do. -/
theorem State.closes_of_append {s : State} {t u : Text} (h : s.closes (t ++ u) = true)
    (hrun : s.run t = State.start) : s.closes t = true ∧ State.start.closes u = true := by
  induction t generalizing s with
  | nil =>
    obtain rfl : s = State.start := hrun
    exact ⟨rfl, h⟩
  | cons c t ih =>
    obtain ⟨hc, ht⟩ := closes_cons h
    obtain ⟨hfirst, hlater⟩ := ih ht hrun
    exact ⟨(if_neg hc).trans hfirst, hlater⟩

/-- Two balanced texts in a row are balanced. -/
theorem isBalanced_append {t u : Text} (ht : isBalanced t = true) (hu : isBalanced u = true) :
    isBalanced (t ++ u) = true := by
  rw [isBalanced, State.closes_append ht]
  exact hu

/-- Balanced texts with a balanced text between them are balanced. -/
theorem isBalanced_intercalate {sep : Text} (hsep : isBalanced sep = true)
    {ts : List Text} (h : ∀ t ∈ ts, isBalanced t = true) :
    isBalanced (sep.intercalate ts) = true := by
  induction ts with
  | nil => rfl
  | cons t ts ih =>
    obtain ⟨ht, hts⟩ := List.forall_mem_cons.1 h
    cases ts with
    | nil => rwa [List.intercalate_singleton]
    | cons u ts =>
      rw [List.intercalate_cons_cons, List.append_assoc]
      exact isBalanced_append ht (isBalanced_append hsep (ih hts))

/-- A character that neither opens, closes nor quotes is balanced. -/
theorem isBalanced_singleton {c : Char} (hq : isQuote c = false) (ho : isOpener c = false)
    (hc : isCloser c = false) : isBalanced [c] = true := by
  have hstep := State.step_of_plain (s := State.start) rfl hq ho hc
  rw [isBalanced, State.closes, if_neg (by simp [hc]), hstep]
  rfl

/-- The scan inside one more group. -/
def State.deeper (s : State) : State := { s with depth := s.depth + 1 }

/-- One more group around a text does not change what its characters do, as long as the
text does not close it. -/
theorem State.deeper_step {s : State} {c : Char}
    (h : ¬ (s.mode = .code ∧ s.depth = 0 ∧ isCloser c)) : s.deeper.step c = (s.step c).deeper := by
  obtain ⟨depth, mode⟩ := s
  cases mode with
  | escaped q => rfl
  | quoted q =>
    simp only [step, deeper]
    split
    · rfl
    · split <;> rfl
  | code =>
    cases hc : isCloser c with
    | true =>
      have hdepth : depth ≠ 0 := fun hz => h ⟨rfl, hz, hc⟩
      rw [step_of_closer rfl hc, step_of_closer rfl hc]
      simp only [deeper, State.mk.injEq, and_true]
      omega
    | false =>
      simp only [step, deeper, hc, Bool.false_eq_true, if_false]
      split
      · rfl
      · split <;> rfl

/-- Inside one more group nothing is at the top level but what closes too much outside it. -/
theorem State.isTop_deeper (s : State) (c : Char) :
    s.deeper.isTop c = true ↔ s.mode = .code ∧ s.depth = 0 ∧ isCloser c = true := by
  obtain ⟨depth, mode⟩ := s
  cases mode with
  | escaped q => simp [isTop, deeper]
  | quoted q => simp [isTop, deeper]
  | code => cases hc : isCloser c <;> simp [isTop, deeper, hc]

/-- One more group stays open behind a text that shows nothing in it. -/
theorem State.run_deeper_of_hidden {s : State} {t : Text} (h : s.deeper.visible t = []) :
    s.deeper.run t = (s.run t).deeper := by
  induction t generalizing s with
  | nil => rfl
  | cons c t ih =>
    cases htop : s.deeper.isTop c with
    | true =>
      rw [visible_cons_of_top htop] at h
      cases h
    | false =>
      have hstep : s.deeper.step c = (s.step c).deeper :=
        deeper_step (mt (isTop_deeper s c).2 (Bool.not_eq_true _ ▸ htop))
      rw [visible_cons_of_not_top htop, hstep] at h
      rw [run_cons, hstep, ih h, run_cons]

/-- A text closes what is open exactly if it shows nothing inside one more group and ends at
the start. -/
theorem State.closes_iff_hidden {s : State} {t : Text} :
    s.closes t = true ↔ s.deeper.visible t = [] ∧ s.run t = State.start := by
  induction t generalizing s with
  | nil => simp [closes, visible]
  | cons c t ih =>
    rw [closes, run_cons]
    cases htop : s.deeper.isTop c with
    | true =>
      rw [if_pos ((isTop_deeper s c).1 htop), visible_cons_of_top htop]
      simp
    | false =>
      have hc := mt (isTop_deeper s c).2 (Bool.not_eq_true _ ▸ htop)
      rw [if_neg hc, visible_cons_of_not_top htop, deeper_step hc, ih]

/-- Inside one more group a text that closes what is open shows nothing. -/
theorem State.visible_deeper {s : State} {t : Text} (h : s.closes t = true) :
    s.deeper.visible t = [] := (closes_iff_hidden.1 h).1

/-- Behind a text that closes what is open inside one more group, only that group is open. -/
theorem State.run_deeper {s : State} {t : Text} (h : s.closes t = true) :
    s.deeper.run t = State.start.deeper := by
  obtain ⟨hhidden, hrun⟩ := closes_iff_hidden.1 h
  rw [run_deeper_of_hidden hhidden, hrun]

/-- Behind a text that closes what is open inside one more group, only that group has to be
closed. -/
theorem State.closes_deeper {s : State} {t : Text} (h : s.closes t = true) (u : Text) :
    s.deeper.closes (t ++ u) = State.start.deeper.closes u := by
  induction t generalizing s with
  | nil =>
    have hs : s = State.start := by simpa [closes] using h
    rw [hs, List.nil_append]
  | cons c t ih =>
    obtain ⟨hc, ht⟩ := closes_cons h
    have hopen : ¬ (s.deeper.mode = .code ∧ s.deeper.depth = 0 ∧ isCloser c) :=
      fun hd => Nat.succ_ne_zero s.depth hd.2.1
    rw [List.cons_append, closes, if_neg hopen, deeper_step hc, ih ht]

/-!
### Around marks and keywords
-/

/-- The parts around a mark make the text whole again. -/
theorem State.eq_of_breakAt {s : State} {mark t : Text} {found : Text × Text}
    (h : s.breakAt mark t = some found) : t = found.1 ++ mark ++ found.2 := by
  obtain ⟨behind, rfl, hbehind⟩ := exists_of_breakAt h
  rw [List.append_assoc, List.append_eq_of_isPrefixOf?_eq_some hbehind]

/-- The parts around a mark make the text whole again. -/
theorem eq_of_breakAt {mark t : Text} {found : Text × Text} (h : breakAt mark t = some found) :
    t = found.1 ++ mark ++ found.2 := State.eq_of_breakAt h

/-- The parts around a keyword make the text whole again. -/
theorem eq_of_breakWord {word t : Text} {found : Text × Text}
    (h : breakWord word t = some found) : t = found.1 ++ word ++ found.2 := by
  obtain ⟨behind, rfl, hbehind⟩ := State.exists_of_breakWord h
  rw [List.append_assoc, List.append_eq_of_isPrefixOf?_eq_some hbehind]

/-!
### Marks behind a text
-/

/-- A mark is not found in a text that does not show its first character. -/
theorem State.breakAt_append {s : State} {m : Char} {t : Text} (h : m ∉ s.visible t)
    (mark u : Text) : s.breakAt (m :: mark) (t ++ u) =
      ((s.run t).breakAt (m :: mark) u).map fun found => (t ++ found.1, found.2) := by
  induction t generalizing s with
  | nil => simp
  | cons c t ih =>
    have hnone : (if s.isTop c then (m :: mark).isPrefixOf? (c :: (t ++ u)) else none) = none := by
      cases htop : s.isTop c with
      | false => rfl
      | true =>
        rw [visible_cons_of_top htop, List.mem_cons, not_or] at h
        rw [if_pos rfl, Text.isPrefixOf?_cons_of_ne h.1]
    have hrest : m ∉ (s.step c).visible t := by
      cases htop : s.isTop c with
      | false => rwa [visible_cons_of_not_top htop] at h
      | true =>
        rw [visible_cons_of_top htop, List.mem_cons, not_or] at h
        exact h.2
    rw [List.cons_append, breakAt, hnone]
    simp only [ih hrest, run_cons, Option.map_map]
    rfl

/-- Without its first character at the top level a mark is not found. -/
theorem State.breakAt_eq_none {s : State} {m : Char} {t : Text} (h : m ∉ s.visible t)
    (mark : Text) : s.breakAt (m :: mark) t = none := by
  have hall := State.breakAt_append h mark []
  rwa [List.append_nil] at hall

/-- A mark is found at the same place whatever stands behind it. -/
theorem State.breakAt_before {s : State} {mark t a b : Text} (hmark : mark ≠ [])
    (h : s.breakAt mark t = some (a, b)) (other : Text) :
    s.breakAt mark (a ++ mark ++ other) = some (a, other) := by
  induction t generalizing s a with
  | nil => cases h
  | cons c rest ih =>
    have hwhole := eq_of_breakAt h
    rw [breakAt] at h
    split at h
    next after hfound =>
      obtain ⟨rfl, rfl⟩ := Prod.mk.inj (Option.some.inj h)
      obtain ⟨m, mark, rfl⟩ := List.exists_cons_of_ne_nil hmark
      have htop : s.isTop m = true := by
        obtain rfl : c = m := (List.cons.inj hwhole).1
        split at hfound
        next htop => exact htop
        next => cases hfound
      have hhere : (m :: mark).isPrefixOf? (m :: (mark ++ other)) = some other :=
        List.isPrefixOf?_eq_some_iff_append_eq.2 rfl
      rw [List.nil_append, List.cons_append, breakAt, if_pos htop, hhere]
    next hnone =>
      obtain ⟨found, hfound, he⟩ := Option.map_eq_some_iff.1 h
      obtain ⟨rfl, rfl⟩ := Prod.mk.inj he
      have hfirst : (if s.isTop c then
          mark.isPrefixOf? (c :: found.1 ++ mark ++ other) else none) = none := by
        rw [hwhole] at hnone
        split at hnone
        · next htop => rw [if_pos htop, Text.isPrefixOf?_eq_none_before hnone]
        · next htop => rw [if_neg htop]
      rw [List.cons_append, List.cons_append] at hfirst ⊢
      rw [breakAt, hfirst, ih hfound]
      rfl

/-- A mark that is not found in a text is not found in what it begins with. -/
theorem State.breakAt_eq_none_before {s : State} {mark t u : Text} (hmark : mark ≠ [])
    (h : s.breakAt mark (t ++ u) = none) : s.breakAt mark t = none := by
  cases hbreak : s.breakAt mark t with
  | none => rfl
  | some found =>
    have hlonger := breakAt_before hmark hbreak (found.2 ++ u)
    rw [← List.append_assoc, ← eq_of_breakAt hbreak, h] at hlonger
    cases hlonger

/-- A mark that is not found stands nowhere at the top level. -/
theorem State.isTop_of_breakAt_eq_none {s : State} {m : Char} {mark t u : Text}
    (h : s.breakAt (m :: mark) (t ++ m :: (mark ++ u)) = none) : (s.run t).isTop m = false := by
  induction t generalizing s with
  | nil =>
    cases htop : s.isTop m with
    | false => exact htop
    | true =>
      have hhere : (m :: mark).isPrefixOf? (m :: (mark ++ u)) = some u :=
        List.isPrefixOf?_eq_some_iff_append_eq.2 rfl
      rw [List.nil_append, breakAt, if_pos htop, hhere] at h
      cases h
  | cons c t ih =>
    rw [List.cons_append, breakAt] at h
    split at h
    · cases h
    · exact ih (Option.map_eq_none_iff.1 h)

/-- A text that does not show a separator is one part. -/
theorem State.split_eq_singleton {s : State} {sep : Char} {t : Text} (h : sep ∉ s.visible t) :
    s.split sep t = [t] := by
  induction t generalizing s with
  | nil => rfl
  | cons c t ih =>
    cases htop : s.isTop c with
    | false =>
      rw [visible_cons_of_not_top htop] at h
      simp [split, htop, ih h]
    | true =>
      rw [visible_cons_of_top htop, List.mem_cons, not_or] at h
      simp [split, htop, Ne.symm h.1, ih h.2]

/-- A separator behind a text after which the scan is at the start ends a part, and the parts
behind it are those of the rest on its own. -/
theorem State.split_append {s : State} {sep : Char} (hsep : State.start.step sep = State.start)
    {t : Text} (h : s.run t = State.start) (u : Text) :
    s.split sep (t ++ sep :: u) = s.split sep t ++ State.start.split sep u := by
  induction t generalizing s with
  | nil =>
    obtain rfl : s = State.start := h
    have hcut : State.start.split sep (sep :: u) = [] :: (State.start.step sep).split sep u :=
      if_pos (by rw [isTop_start, beq_self_eq_true, Bool.and_self])
    rw [List.nil_append, hcut, hsep]
    rfl
  | cons c t ih =>
    rw [List.cons_append, split, split, ih h]
    split
    · rfl
    · obtain ⟨p, ps, hparts⟩ := List.exists_cons_of_ne_nil (split_ne_nil (s.step c) sep t)
      rw [hparts]
      rfl

/-- A text that does not show the separator goes on with the last part. -/
theorem State.split_append_last {s : State} {sep : Char} {t u : Text}
    (h : sep ∉ (s.run t).visible u) :
    ∃ ps p, s.split sep t = ps ++ [p] ∧ s.split sep (t ++ u) = ps ++ [p ++ u] := by
  induction t generalizing s with
  | nil => exact ⟨[], [], rfl, split_eq_singleton h⟩
  | cons c t ih =>
    obtain ⟨ps, p, hparts, happend⟩ := ih h
    rw [List.cons_append, split, split, hparts, happend]
    split
    · exact ⟨[] :: ps, p, rfl, rfl⟩
    · cases ps with
      | nil => exact ⟨[], c :: p, rfl, rfl⟩
      | cons q ps => exact ⟨(c :: q) :: ps, p, rfl, rfl⟩

/-- A mark is found where it stands, when a scan is at the start. -/
theorem breakAt_start (m : Char) (mark rest : Text) :
    State.start.breakAt (m :: mark) (m :: (mark ++ rest)) = some ([], rest) := by
  have hp : (m :: mark).isPrefixOf? (m :: (mark ++ rest)) = some rest :=
    List.isPrefixOf?_eq_some_iff_append_eq.2 rfl
  rw [State.breakAt, isTop_start, if_pos rfl, hp]

/-- A mark that ends in a closer is found behind a text that closes what is open: inside
the text its second character would close too much. -/
theorem State.breakAt_of_closes {s : State} {m k : Char} (hq : isQuote m = false)
    (ho : isOpener m = false) (hk : isCloser k = true) {t : Text} (h : s.closes t = true)
    (hlast : t.getLast? ≠ some m) (rest : Text) :
    s.breakAt [m, k] (t ++ m :: k :: rest) = some (t, rest) := by
  induction t generalizing s with
  | nil =>
    have hs : s = State.start := by simpa [closes] using h
    rw [hs]
    exact breakAt_start m [k] rest
  | cons c t ih =>
    obtain ⟨hc, ht⟩ := closes_cons h
    have hnone : (if s.isTop c then
        List.isPrefixOf? [m, k] (c :: (t ++ m :: k :: rest)) else none) = none := by
      cases htop : s.isTop c with
      | false => rfl
      | true =>
        rw [if_pos rfl]
        by_cases hcm : m = c
        · subst hcm
          rw [Text.isPrefixOf?_cons_self]
          cases t with
          | nil => simp at hlast
          | cons d t =>
            refine Text.isPrefixOf?_cons_of_ne ?_ _ _
            rintro rfl
            rw [step_of_top hq ho htop] at ht
            exact (closes_cons ht).1 ⟨rfl, rfl, hk⟩
        · exact Text.isPrefixOf?_cons_of_ne hcm _ _
    have hlast' : t.getLast? ≠ some m := by
      cases t with
      | nil => simp
      | cons d t => rwa [List.getLast?_cons_cons] at hlast
    rw [List.cons_append, breakAt, hnone, ih ht hlast']
    rfl

/-- The bracket that closes an index group stands behind a text that closes what is open. -/
theorem State.closeIndex_of_closes {s : State} {t : Text} (h : s.closes t = true) (rest : Text) :
    s.closeIndex (t ++ ']' :: rest) = some (t, rest) := by
  induction t generalizing s with
  | nil =>
    have hs : s = State.start := by simpa [closes] using h
    rw [hs]
    rfl
  | cons c t ih =>
    obtain ⟨hc, ht⟩ := closes_cons h
    rw [List.cons_append, closeIndex, if_neg hc, ih ht]
    rfl

/-- What stands inside a group closes what it opens. -/
theorem State.closes_of_closeIndex {s : State} {t : Text} {found : Text × Text}
    (h : s.closeIndex t = some found) : s.closes found.1 = true := by
  induction t generalizing s found with
  | nil => cases h
  | cons c t ih =>
    unfold closeIndex at h
    split at h
    · next hc =>
      split at h
      · cases h
        obtain ⟨depth, mode⟩ := s
        obtain ⟨rfl, rfl, -⟩ := hc
        rfl
      · cases h
    · next hc =>
      obtain ⟨later, hlater, rfl⟩ := Option.map_eq_some_iff.1 h
      rw [closes, if_neg hc]
      exact ih hlater

end Nesting

end PromptTemplate
