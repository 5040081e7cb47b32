import Mathlib.Data.List.TakeDrop
import PromptTemplate.Json.Token
import PromptTemplate.Json.Writer
import PromptTemplate.Proofs.Json.Strings
import PromptTemplate.Proofs.Text.Affix
import PromptTemplate.Proofs.Text.Numeral

/-!
# JSON tokens written and read back

A mark, a word, a string and an integer of a machine word are each read as one
token, and the tokens of the text behind them follow. Only behind an integer it
matters how that text begins: no character of a numeral may stand there. Blanks
and line ends in front of a text do not change its tokens.
-/

namespace PromptTemplate

namespace Text

/-- The digits of a number begin with a zero only if the number is zero. -/
theorem eq_zero_of_head?_ofNat {n : Nat} (h : (ofNat n).head? = some '0') : n = 0 := by
  fun_induction ofNat n with
  | case1 n hlt =>
    have hdigit : ∀ n < 10, digitChar n = '0' → n = 0 := by decide
    exact hdigit n hlt (Option.some.inj h)
  | case2 n hge ih =>
    obtain ⟨c, rest, hdigits⟩ := List.exists_cons_of_ne_nil (ofNat_ne_nil (n / 10))
    rw [hdigits] at h ih
    have hdiv := ih h
    omega

/-- More digits make no smaller number. -/
theorem le_readDigits (acc : Nat) (t : Text) : acc ≤ readDigits acc t := by
  induction t generalizing acc with
  | nil => exact Nat.le_refl acc
  | cons c t ih =>
    have hstep : acc ≤ 10 * acc + digitValue c :=
      Nat.le_trans (Nat.le_mul_of_pos_left acc (by decide)) (Nat.le_add_right _ _)
    exact Nat.le_trans hstep (ih _)

end Text

namespace Json

namespace Numeral

/-- A number that fits a word is absorbed whole. -/
theorem absorb_eq {acc : Nat} {t : Text} (h : Text.readDigits acc t < wordBound) :
    absorb acc t = (Text.readDigits acc t, 0) := by
  induction t generalizing acc with
  | nil => rfl
  | cons c t ih =>
    have hnext : 10 * acc + Text.digitValue c < wordBound :=
      Nat.lt_of_le_of_lt (Text.le_readDigits _ t) h
    exact (if_pos hnext).trans (ih h)

/-- Digits alone, perhaps behind a minus sign, are the whole part of a numeral. -/
theorem parts?_ofInt (n : Int) :
    parts? (Text.ofInt n) = some ⟨n < 0, Text.ofNat n.natAbs, [], none⟩ := by
  have hdigits : ∀ c ∈ Text.ofNat n.natAbs, c.isDigit = true :=
    fun c hc => Text.isDigit_of_mem_ofNat hc
  have hspan : Number.spanDigits (Text.ofNat n.natAbs) = (Text.ofNat n.natAbs, []) := by
    obtain ⟨htake, hdrop⟩ :=
      Text.span_append hdigits (nofun : ∀ c ∈ ([] : Text).head?, c.isDigit = false)
    rw [List.append_nil] at htake hdrop
    rw [Number.spanDigits, List.span_eq_takeWhile_dropWhile, htake, hdrop]
  have hzero : ¬ (Text.ofNat n.natAbs = [] ∨
      ((Text.ofNat n.natAbs).head? = some '0' ∧ Text.ofNat n.natAbs ≠ ['0'])) := by
    rintro (hnil | ⟨hhead, hlong⟩)
    · exact Text.ofNat_ne_nil _ hnil
    · rw [Text.eq_zero_of_head?_ofNat hhead, Text.ofNat] at hlong
      exact hlong rfl
  unfold Text.ofInt
  split
  · next hneg =>
    simp only [parts?, hspan, if_neg hzero, decide_eq_true hneg]
    rfl
  · next hpos =>
    have hfirst : ∀ rest, Text.ofNat n.natAbs ≠ '-' :: rest := by
      intro rest heq
      exact absurd (hdigits '-' (heq ▸ List.mem_cons_self)) (by decide)
    unfold parts?
    split
    next hsign =>
    split at hsign
    · next hminus => exact absurd hminus (hfirst _)
    · cases hsign
      simp only [hspan, if_neg hzero, decide_eq_false hpos]
      rfl

/-- An integer of a machine word is read as what was written. -/
theorem read?_ofInt {n : Int} (h : Text.isWord n = true) :
    read? (Text.ofInt n) = some (.integer n) := by
  have hbounds : n.natAbs < 18446744073709551616 ∧ n.natAbs ≤ 9223372036854775808 := by
    rw [Text.isWord, Bool.and_eq_true, decide_eq_true_eq, decide_eq_true_eq] at h
    omega
  have hread := Text.readDigits_ofNat n.natAbs
  have habsorb : absorb 0 (Text.ofNat n.natAbs) = (n.natAbs, 0) := by
    have hword : Text.readDigits 0 (Text.ofNat n.natAbs) < wordBound := hread.symm ▸ hbounds.1
    rw [absorb_eq hword, hread]
  rw [read?, parts?_ofInt, Option.bind_some, Parts.value?]
  simp only [habsorb, absorb]
  by_cases hneg : n < 0
  · have hvalue : -(n.natAbs : Int) = n := by omega
    have hone : 1 ≤ n.natAbs := by omega
    rw [if_pos ⟨trivial, trivial⟩, if_pos (decide_eq_true hneg), if_pos ⟨hone, hbounds.2⟩, hvalue]
  · have hvalue : (n.natAbs : Int) = n := by omega
    rw [if_pos ⟨trivial, trivial⟩, if_neg (by rw [decide_eq_false hneg]; decide), hvalue]

/-- An integer is written with characters of numerals. -/
theorem isPart_of_mem_ofInt {n : Int} {c : Char} (h : c ∈ Text.ofInt n) : isPart c = true := by
  rcases Text.char_of_mem_ofInt h with hdigit | rfl
  · rw [isPart, hdigit]
    rfl
  · rfl

end Numeral

namespace Token

variable {t : Text} {tokens : List Token}

/-- The tokens of a text are its first token and those of the text behind it. -/
theorem lex_eq (t : Text) :
    lex t = match t.dropWhile isSpace with
      | [] => some []
      | c :: rest => (read? c rest).bind fun found => (lex found.2).map (found.1 :: ·) := by
  rw [lex]
  split
  · next hnil => rw [hnil]
  · next c rest hcons =>
    rw [hcons]
    split
    · next hnone => simp only [hnone, Option.bind_none]
    · next hsome => simp only [hsome, Option.bind_some]

/-- Nothing has no tokens. -/
theorem lex_nil : lex [] = some [] := lex_eq []

/-- Space in front of a text does not matter. -/
theorem lex_space {c : Char} (hc : isSpace c = true) (t : Text) : lex (c :: t) = lex t := by
  rw [lex_eq, List.dropWhile_cons_of_pos hc, ← lex_eq]

/-- A token in front of a text. -/
theorem lex_token {c : Char} {rest after : Text} {token : Token} (hc : isSpace c = false)
    (hread : read? c rest = some (token, after)) (h : lex after = some tokens) :
    lex (c :: rest) = some (token :: tokens) := by
  have hstay : ¬ isSpace c = true := by rw [hc]; decide
  rw [lex_eq, List.dropWhile_cons_of_neg hstay]
  simp only [hread, Option.bind_some, h, Option.map_some]

/-- Any amount of space in front of a text does not matter. -/
theorem lex_spaces {u : Text} (hu : ∀ c ∈ u, isSpace c = true) (t : Text) :
    lex (u ++ t) = lex t := by
  induction u with
  | nil => rfl
  | cons c u ih =>
    obtain ⟨hc, hu⟩ := List.forall_mem_cons.1 hu
    rw [List.cons_append, lex_space hc, ih hu]

/-- A new line is space. -/
theorem isSpace_of_mem_lineStart {width level : Nat} {c : Char} (h : c ∈ lineStart width level) :
    isSpace c = true := by
  rcases List.mem_cons.1 h with rfl | h
  · rfl
  · rw [List.eq_of_mem_replicate h]
    rfl

/-- A string in front of a text. -/
theorem lex_write (s : Text) (h : lex t = some tokens) :
    lex (Quoted.write s ++ t) = some (.string s :: tokens) := by
  rw [Quoted.write, List.append_assoc, List.cons_append]
  refine lex_token rfl ?_ h
  rw [List.singleton_append, read?, Quoted.close_encode]
  simp only [Option.bind_eq_bind, Option.bind_some, Quoted.decode_encode]
  rfl

/-- No character of a numeral is space. -/
theorem not_isSpace_of_isPart {c : Char} (h : Numeral.isPart c = true) : isSpace c = false := by
  rw [← Bool.not_eq_true]
  intro hspace
  simp only [isSpace, Bool.or_eq_true, beq_iff_eq] at hspace
  rcases hspace with ((rfl | rfl) | rfl) | rfl
  all_goals exact absurd h (by decide)

/-- A text may stand behind a numeral. -/
def Follows (t : Text) : Prop := ∀ c ∈ t.head?, Numeral.isPart c = false

/-- Nothing may stand behind a numeral. -/
theorem follows_nil : Follows [] := nofun

/-- Space may stand behind a numeral. -/
theorem follows_spaces {u : Text} (hu : ∀ c ∈ u, isSpace c = true) (ht : Follows t) :
    Follows (u ++ t) := by
  cases u with
  | nil => exact ht
  | cons c u =>
    intro d hd
    cases hd
    have hspace := hu c List.mem_cons_self
    rw [← Bool.not_eq_true]
    intro hpart
    rw [not_isSpace_of_isPart hpart] at hspace
    cases hspace

/-- An integer in front of a text. -/
theorem lex_ofInt {n : Int} (hn : Text.isWord n = true) (ht : Follows t)
    (h : lex t = some tokens) : lex (Text.ofInt n ++ t) = some (.atom (.integer n) :: tokens) := by
  obtain ⟨c, rest, hdigits⟩ := List.exists_cons_of_ne_nil (Text.ofInt_ne_nil n)
  have hparts : ∀ d ∈ c :: rest, Numeral.isPart d = true := by
    rw [← hdigits]
    exact fun d hd => Numeral.isPart_of_mem_ofInt hd
  obtain ⟨htake, hdrop⟩ := Text.span_append (fun d hd => hparts d (List.mem_cons_of_mem c hd)) ht
  rw [hdigits, List.cons_append]
  have hfirst := hparts c List.mem_cons_self
  refine lex_token (not_isSpace_of_isPart hfirst) ?_ h
  rw [read?]
  · rw [if_pos hfirst, htake, hdrop, ← hdigits, Numeral.read?_ofInt hn]
    rfl
  -- none of the signs that begin another token is part of a numeral
  all_goals exact fun hsign => absurd (hsign ▸ hfirst) (by decide)

end Token

end Json

end PromptTemplate
