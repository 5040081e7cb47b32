import PromptTemplate.Text.Integer

/-!
# Integers written and read

Writing an integer in decimal and reading it again gives the integer, if it lies
in the range that texts may name, its two ends included. What is written is made
of digits and perhaps a sign, and no text with another character is an integer.
-/

namespace PromptTemplate

namespace Text

/-- The digit of a number below ten is a digit, and has this value. -/
theorem digit_digitChar {n : Nat} (h : n < 10) :
    (digitChar n).isDigit = true ∧ digitValue (digitChar n) = n := by
  have hall : ∀ d ∈ List.range 10,
      (digitChar d).isDigit = true ∧ digitValue (digitChar d) = d := by decide
  exact hall n (List.mem_range.2 h)

/-- One more digit is one more place. -/
theorem readDigits_append (acc : Nat) (t : Text) (c : Char) :
    readDigits acc (t ++ [c]) = 10 * readDigits acc t + digitValue c := by
  induction t generalizing acc with
  | nil => rfl
  | cons d t ih => exact ih _

/-- The digits of a number are read as the number. -/
theorem readDigits_ofNat (n : Nat) : readDigits 0 (ofNat n) = n := by
  fun_induction ofNat n with
  | case1 n h => exact (Nat.zero_add _).trans (digit_digitChar h).2
  | case2 n h ih =>
    have hlast := (digit_digitChar (Nat.mod_lt n (by decide : 0 < 10))).2
    rw [readDigits_append, ih, hlast]
    omega

/-- A number is written with digits. -/
theorem isDigit_of_mem_ofNat {n : Nat} {c : Char} (h : c ∈ ofNat n) : c.isDigit = true := by
  fun_induction ofNat n with
  | case1 n hn =>
    rw [List.mem_singleton.1 h]
    exact (digit_digitChar hn).1
  | case2 n hn ih =>
    rcases List.mem_append.1 h with h | h
    · exact ih h
    · rw [List.mem_singleton.1 h]
      exact (digit_digitChar (Nat.mod_lt n (by decide))).1

/-- A number has a first digit. -/
theorem ofNat_ne_nil (n : Nat) : ofNat n ≠ [] := by
  fun_induction ofNat n with
  | case1 n h => exact List.cons_ne_nil _ _
  | case2 n h ih => exact List.append_ne_nil_of_left_ne_nil ih _

theorem readNat?_ofNat (n : Nat) : readNat? (ofNat n) = some n := by
  have hdigits : (ofNat n).all Char.isDigit = true :=
    List.all_eq_true.2 fun c hc => isDigit_of_mem_ofNat hc
  rw [readNat?, if_pos ⟨ofNat_ne_nil n, hdigits⟩, readDigits_ofNat]

/-- An integer is written with digits and perhaps a minus sign. -/
theorem char_of_mem_ofInt {n : Int} {c : Char} (h : c ∈ ofInt n) :
    c.isDigit = true ∨ c = '-' := by
  unfold ofInt at h
  split at h
  · rcases List.mem_cons.1 h with h | h
    · exact .inr h
    · exact .inl (isDigit_of_mem_ofNat h)
  · exact .inl (isDigit_of_mem_ofNat h)

theorem ofInt_ne_nil (n : Int) : ofInt n ≠ [] := by
  unfold ofInt
  split
  · exact List.cons_ne_nil _ _
  · exact ofNat_ne_nil _

/-- Behind a minus sign the digits are read as a negative integer. -/
theorem readInt?_minus {t : Text} {n : Nat} (h : readNat? t = some n)
    (hword : isWord (-(n : Int)) = true) : readInt? ('-' :: t) = some (-(n : Int)) := by
  rw [readInt?, h]
  exact Option.filter_eq_some_iff.2 ⟨rfl, hword⟩

/-- Digits alone are read as an integer that is not negative. -/
theorem readInt?_digits {t : Text} {n : Nat} (hdigits : ∀ c ∈ t, c.isDigit = true)
    (h : readNat? t = some n) (hword : isWord (n : Int) = true) :
    readInt? t = some (n : Int) := by
  unfold readInt?
  split
  · exact absurd (hdigits '-' List.mem_cons_self) (by decide)
  · exact absurd (hdigits '+' List.mem_cons_self) (by decide)
  · rw [h]
    exact Option.filter_eq_some_iff.2 ⟨rfl, hword⟩

/-- An integer of the range is read as what was written. -/
theorem readInt?_ofInt {n : Int} (h : isWord n = true) : readInt? (ofInt n) = some n := by
  have hread := readNat?_ofNat n.natAbs
  unfold ofInt
  split
  · have hneg : -(n.natAbs : Int) = n := by omega
    rw [readInt?_minus hread (hneg.symm ▸ h), hneg]
  · have hpos : (n.natAbs : Int) = n := by omega
    rw [readInt?_digits (fun c hc => isDigit_of_mem_ofNat hc) hread (hpos.symm ▸ h), hpos]

/-- A text with a character that is neither digit nor sign is no integer. -/
theorem readInt?_eq_none {t : Text} {c : Char} (hc : c ∈ t) (hdigit : c.isDigit = false)
    (hminus : c ≠ '-') (hplus : c ≠ '+') : readInt? t = none := by
  have hnat {u : Text} (hu : c ∈ u) : readNat? u = none := by
    refine if_neg fun h => ?_
    rw [List.all_eq_true.1 h.2 c hu] at hdigit
    cases hdigit
  unfold readInt?
  split
  · rw [hnat ((List.mem_cons.1 hc).resolve_left hminus)]
    rfl
  · rw [hnat ((List.mem_cons.1 hc).resolve_left hplus)]
    rfl
  · rw [hnat hc]
    rfl

/-- No digit begins a name. -/
theorem not_digit_of_isNameStart {c : Char} (h : isNameStart c = true) : c.isDigit = false := by
  rw [← Bool.not_eq_true]
  intro hdigit
  have hcode : 48 ≤ c.val.toNat ∧ c.val.toNat ≤ 57 := Char.isDigit_iff_toNat.1 hdigit
  -- the code points of the capital letters and of the small ones
  have hstart : (decide (c.val ≥ 65 ∧ c.val ≤ 90) ||
      (decide (c.val ≥ 97) && decide (c.val ≤ 122)) || c == '_') = true := h
  simp only [Bool.or_eq_true, Bool.and_eq_true, decide_eq_true_eq, beq_iff_eq,
    UInt32.le_iff_toNat_le, ge_iff_le] at hstart
  rcases hstart with (⟨h, -⟩ | ⟨h, -⟩) | rfl
  · have hletter : 65 ≤ c.val.toNat := h
    omega
  · have hletter : 97 ≤ c.val.toNat := h
    omega
  · exact absurd hdigit (by decide)

/-- What begins like a name is no integer. -/
theorem readInt?_of_isNameStart {c : Char} (h : isNameStart c = true) (t : Text) :
    readInt? (c :: t) = none := by
  refine readInt?_eq_none List.mem_cons_self (not_digit_of_isNameStart h) ?_ ?_
  · rintro rfl
    exact absurd h (by decide)
  · rintro rfl
    exact absurd h (by decide)

/-- No name is an integer. -/
theorem readInt?_of_isIdentifier {t : Text} (h : isIdentifier t = true) : readInt? t = none := by
  cases t with
  | nil => rfl
  | cons c t =>
    rw [isIdentifier, Bool.and_eq_true] at h
    exact readInt?_of_isNameStart h.1 t

end Text

end PromptTemplate
