import PromptTemplate.Nesting.Literal
import PromptTemplate.Proofs.Nesting.Composition

/-!
# Literals of arbitrary texts

Every text has a literal in either kind of quotes: a backslash goes before each
backslash and before each quote of the kind. Such a literal is read back as the
text. Of any literal a scan sees nothing but its first quote, whatever it holds.
-/

namespace PromptTemplate

namespace Literal

/-- The body of the literal of a text. -/
def escape (quote : Char) (t : Text) : Text :=
  t.flatMap fun c => if c = '\\' ∨ c = quote then ['\\', c] else [c]

/-- The literal of a text. -/
def write (quote : Char) (t : Text) : Text := quote :: (escape quote t ++ [quote])

/-- A quote of the kind is escaped, and a backslash. -/
example : write '\'' "a\\'\"".toList = "'a\\\\\\'\"'".toList := by decide

variable {quote c : Char}

/-- A quote is no backslash. -/
theorem quote_ne_backslash (hq : Nesting.isQuote quote = true) : quote ≠ '\\' := by
  rintro rfl
  exact absurd hq (by decide)

theorem escape_cons_of_special (h : c = '\\' ∨ c = quote) (t : Text) :
    escape quote (c :: t) = '\\' :: c :: escape quote t := by
  rw [escape, List.flatMap_cons, if_pos h]
  rfl

theorem escape_cons_of_plain (h : ¬ (c = '\\' ∨ c = quote)) (t : Text) :
    escape quote (c :: t) = c :: escape quote t := by
  rw [escape, List.flatMap_cons, if_neg h]
  rfl

/-- Without backslashes and quotes of the kind a literal needs no escapes. -/
theorem write_of_plain {t : Text} (h : ∀ c ∈ t, c ≠ quote ∧ c ≠ '\\') :
    write quote t = quote :: (t ++ [quote]) := by
  have hescape : escape quote t = t := by
    induction t with
    | nil => rfl
    | cons c t ih =>
      obtain ⟨hq, hb⟩ := h c List.mem_cons_self
      rw [escape_cons_of_plain (not_or.2 ⟨hb, hq⟩), ih fun d hd => h d (List.mem_cons_of_mem c hd)]
  rw [write, hescape]

/-- A literal ends with its quote. -/
theorem getLast?_write (quote : Char) (t : Text) : (write quote t).getLast? = some quote := by
  rw [write, ← List.cons_append, List.getLast?_concat]

/-- A character that is no backslash stands for itself. -/
theorem unescape_cons (h : c ≠ '\\') (t : Text) : unescape (c :: t) = c :: unescape t := by
  rw [unescape]
  all_goals simp [h]

/-- A backslash and each quote are spelled with a backslash. -/
theorem unescape_special (hq : Nesting.isQuote quote = true) (h : c = '\\' ∨ c = quote)
    (t : Text) : unescape ('\\' :: c :: t) = c :: unescape t := by
  rcases h with rfl | rfl
  · rfl
  · rcases Nesting.eq_of_isQuote hq with rfl | rfl
    · rfl
    · rfl

/-- Escapes are undone. -/
theorem unescape_escape (hq : Nesting.isQuote quote = true) (t : Text) :
    unescape (escape quote t) = t := by
  induction t with
  | nil => rfl
  | cons c t ih =>
    by_cases h : c = '\\' ∨ c = quote
    · rw [escape_cons_of_special h, unescape_special hq h, ih]
    · rw [escape_cons_of_plain h, unescape_cons fun hc => h (.inl hc), ih]

/-- The first quote that is not escaped is the one behind the body. -/
theorem close_escape (hq : Nesting.isQuote quote = true) (t rest : Text) :
    close quote (escape quote t ++ quote :: rest) = some (escape quote t, rest) := by
  have hplain {c : Char} (hc : c ≠ '\\') (u : Text) : close quote (c :: u) =
      if c = quote then some ([], u)
      else (close quote u).map fun found => (c :: found.1, found.2) := by
    rw [close]
    simp [hc]
  induction t with
  | nil => exact (hplain (quote_ne_backslash hq) rest).trans (if_pos rfl)
  | cons c t ih =>
    by_cases h : c = '\\' ∨ c = quote
    · rw [escape_cons_of_special h, List.cons_append, List.cons_append, close, ih]
      rfl
    · rw [not_or] at h
      rw [escape_cons_of_plain (not_or.2 h), List.cons_append, hplain h.1, if_neg h.2, ih]
      rfl

/-- A literal is read as what it was written for. -/
theorem read?_write (hq : Nesting.isQuote quote = true) (t : Text) :
    read? (write quote t) = some (quote, t) := by
  rw [write, read?, if_pos hq, close_escape hq]
  exact congrArg (fun body => some (quote, body)) (unescape_escape hq t)

/-- A text that is read as a literal is a body between two quotes of its kind. -/
theorem eq_of_read? {t v : Text} (h : read? t = some (quote, v)) :
    Nesting.isQuote quote = true ∧
      ∃ body, close quote (body ++ [quote]) = some (body, []) ∧ t = quote :: (body ++ [quote]) := by
  cases t with
  | nil => cases h
  | cons c t =>
    rw [read?] at h
    split at h
    · next hq =>
      split at h
      · next body hclose =>
        obtain ⟨rfl, -⟩ := Prod.mk.inj (Option.some.inj h)
        have ht : t = body ++ [c] := eq_of_close hclose
        rw [ht] at hclose
        exact ⟨hq, body, hclose, congrArg (c :: ·) ht⟩
      · cases h
    · cases h

/-- A text that does not begin with a quote is no literal. -/
theorem read?_eq_none {t : Text} (h : ∀ c ∈ t.head?, Nesting.isQuote c = false) :
    read? t = none := by
  cases t with
  | nil => rfl
  | cons c t => rw [read?, h c rfl, if_neg Bool.false_ne_true]

end Literal

namespace Nesting

/-- The rest of a literal up to its last quote closes it and shows nothing, escaped quotes
and all. -/
theorem scan_of_close {q : Char} (hq : isQuote q = true) {t : Text} {found : Text × Text}
    (h : Literal.close q t = some found) :
    (State.mk 0 (.quoted q)).closes (found.1 ++ [q]) = true ∧
      (State.mk 0 (.quoted q)).visible (found.1 ++ [q]) = [] := by
  have hmode {m : Mode} (c : Char) (hm : m ≠ .code) :
      ¬ ((State.mk 0 m).mode = .code ∧ (State.mk 0 m).depth = 0 ∧ isCloser c) :=
    fun h => hm h.1
  have hquoted : Mode.quoted q ≠ .code := Mode.noConfusion
  have hescaped : Mode.escaped q ≠ .code := Mode.noConfusion
  fun_induction Literal.close q t generalizing found with
  | case1 => cases h
  | case2 c rest ih =>
    obtain ⟨later, hlater, rfl⟩ := Option.map_eq_some_iff.1 h
    -- a backslash takes the next character with it
    rw [List.cons_append, List.cons_append, State.closes, if_neg (hmode _ hquoted),
      State.visible_cons_of_not_top rfl]
    exact ⟨(if_neg (hmode c hescaped)).trans (ih hlater).1,
      (State.visible_cons_of_not_top rfl _).trans (ih hlater).2⟩
  | case3 rest =>
    cases h
    have hstep : (State.mk 0 (.quoted q)).step q = State.start := by
      simp [State.step, State.start, Literal.quote_ne_backslash hq]
    rw [List.nil_append, State.closes, if_neg (hmode q hquoted),
      State.visible_cons_of_not_top rfl, hstep]
    exact ⟨rfl, rfl⟩
  | case4 c rest hpair hc ih =>
    obtain ⟨later, hlater, rfl⟩ := Option.map_eq_some_iff.1 h
    have hbackslash : c ≠ '\\' := by
      rintro rfl
      cases rest with
      | nil => cases hlater
      | cons d rest => exact hpair d rest rfl rfl
    have hstep : (State.mk 0 (.quoted q)).step c = ⟨0, .quoted q⟩ := by
      simp [State.step, hbackslash, hc]
    rw [List.cons_append, State.closes, if_neg (hmode c hquoted),
      State.visible_cons_of_not_top rfl, hstep]
    exact ih hlater

/-- A literal from one end of a text to the other is balanced and shows its first quote only. -/
theorem scan_of_read? {t v : Text} {q : Char} (h : Literal.read? t = some (q, v)) :
    isBalanced t = true ∧ State.start.visible t = [q] := by
  obtain ⟨hq, body, hclose, rfl⟩ := Literal.eq_of_read? h
  have hcloser : isCloser q = false := by
    rcases eq_of_isQuote hq with rfl | rfl
    · rfl
    · rfl
  obtain ⟨hcloses, hvisible⟩ := scan_of_close hq hclose
  constructor
  · rw [isBalanced, State.closes, if_neg (by simp [hcloser]), step_start_quote hq]
    exact hcloses
  · rw [State.visible_cons_of_top (isTop_start q), step_start_quote hq, hvisible]

/-- A literal is balanced, whatever the text holds. -/
theorem isBalanced_write {q : Char} (hq : isQuote q = true) (t : Text) :
    isBalanced (Literal.write q t) = true := (scan_of_read? (Literal.read?_write hq t)).1

/-- A literal shows its first quote only. -/
theorem visible_write {q : Char} (hq : isQuote q = true) (t : Text) :
    State.start.visible (Literal.write q t) = [q] := (scan_of_read? (Literal.read?_write hq t)).2

end Nesting

end PromptTemplate
