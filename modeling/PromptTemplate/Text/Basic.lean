/-!
# Texts

A text is a list of characters, so that every scan over it is a recursion on
the list. This module keeps the character classes that names and numerals are
made of, the first occurrence of a separator, and the size of a text in bytes.
-/

namespace PromptTemplate

/-- A text is the list of its characters. -/
abbrev Text := List Char

namespace Text

/-- Names are made of ASCII letters, digits and underscores. -/
def isNameChar (c : Char) : Bool := c.isAlphanum || c == '_'

/-- A name starts with an ASCII letter or an underscore. -/
def isNameStart (c : Char) : Bool := c.isAlpha || c == '_'

/-- A name: a first letter or underscore, then name characters only. -/
def isIdentifier : Text → Bool
  | [] => false
  | c :: rest => isNameStart c && rest.all isNameChar

/-- A character that may start a name may also stand inside one. -/
theorem isNameChar_of_isNameStart {c : Char} (h : isNameStart c = true) :
    isNameChar c = true := by
  simp only [isNameStart, isNameChar, Char.isAlphanum, Bool.or_eq_true] at *
  rcases h with h | h <;> simp [h]

/-- The code points of the characters of names. -/
theorem toNat_of_isNameChar {c : Char} (h : isNameChar c = true) :
    (48 ≤ c.toNat ∧ c.toNat ≤ 57) ∨ (65 ≤ c.toNat ∧ c.toNat ≤ 90) ∨
      (97 ≤ c.toNat ∧ c.toNat ≤ 122) ∨ c.toNat = 95 := by
  have hletters : (c.isUpper = true ∨ c.isLower = true) ∨ c.isDigit = true ∨ c = '_' := by
    simp only [isNameChar, Char.isAlphanum, Bool.or_eq_true, beq_iff_eq] at h
    rcases h with (h | h) | h
    · exact .inl (Bool.or_eq_true _ _ ▸ h)
    · exact .inr (.inl h)
    · exact .inr (.inr h)
  rcases hletters with (h | h) | h | rfl
  · have hupper : c.val ≥ 65 ∧ c.val ≤ 90 := of_decide_eq_true h
    simp only [ge_iff_le, UInt32.le_iff_toNat_le] at hupper
    exact .inr (.inl hupper)
  · have hlower : (decide (c.val ≥ 97) && decide (c.val ≤ 122)) = true := h
    simp only [Bool.and_eq_true, decide_eq_true_eq, ge_iff_le, UInt32.le_iff_toNat_le] at hlower
    exact .inr (.inr (.inl hlower))
  · exact .inl (Char.isDigit_iff_toNat.1 h)
  · decide

/-- Every character of an identifier may stand in a name. -/
theorem isNameChar_of_isIdentifier {t : Text} (h : isIdentifier t = true) :
    ∀ c ∈ t, isNameChar c = true := by
  cases t with
  | nil => cases h
  | cons c t =>
    simp only [isIdentifier, Bool.and_eq_true] at h
    intro d hd
    rcases List.mem_cons.1 hd with rfl | hd
    · exact isNameChar_of_isNameStart h.1
    · exact List.all_eq_true.1 h.2 d hd

/-- An identifier is not empty. -/
theorem ne_nil_of_isIdentifier {t : Text} (h : isIdentifier t = true) : t ≠ [] := by
  rintro rfl
  cases h

/-- What stands before and after the first occurrence of `sep`. -/
def breakOn (sep : Text) : Text → Option (Text × Text)
  | [] => if sep = [] then some ([], []) else none
  | c :: rest =>
    match sep.isPrefixOf? (c :: rest) with
    | some after => some ([], after)
    | none => (breakOn sep rest).map fun found => (c :: found.1, found.2)

/-- A prefix and the remainder behind it are as long as the text. -/
theorem length_of_isPrefixOf? {sep t after : Text} (h : sep.isPrefixOf? t = some after) :
    t.length = sep.length + after.length := by
  induction sep generalizing t with
  | nil =>
    cases h
    exact (Nat.zero_add _).symm
  | cons c sep ih =>
    cases t with
    | nil => cases h
    | cons d t =>
      change (if c == d then sep.isPrefixOf? t else none) = some after at h
      split at h
      · rw [List.length_cons, List.length_cons, ih h]
        omega
      · cases h

/-- Behind the part before it a text begins with the separator that is found, and the other
part is the remainder. -/
theorem exists_of_breakOn {sep t : Text} {found : Text × Text} (h : breakOn sep t = some found) :
    ∃ behind, t = found.1 ++ behind ∧ sep.isPrefixOf? behind = some found.2 := by
  induction t generalizing found with
  | nil =>
    rw [breakOn] at h
    split at h
    · next hsep =>
      cases h
      subst hsep
      exact ⟨[], rfl, rfl⟩
    · cases h
  | cons c rest ih =>
    rw [breakOn] at h
    split at h
    · next hfirst =>
      cases h
      exact ⟨c :: rest, rfl, hfirst⟩
    · obtain ⟨later, hlater, rfl⟩ := Option.map_eq_some_iff.1 h
      obtain ⟨behind, rfl, hbehind⟩ := ih hlater
      exact ⟨behind, rfl, hbehind⟩

/-- The two parts and the separator between them are as long as the text. -/
theorem length_of_breakOn {sep t : Text} {found : Text × Text} (h : breakOn sep t = some found) :
    t.length = found.1.length + (sep.length + found.2.length) := by
  obtain ⟨behind, rfl, hbehind⟩ := exists_of_breakOn h
  rw [List.length_append, length_of_isPrefixOf? hbehind]

/-- Whether `part` occurs somewhere in the text. -/
def occursIn (part t : Text) : Bool := (breakOn part t).isSome

/-- A byte offset counts each character by its width in UTF-8. -/
def byteSize (t : Text) : Nat := t.foldl (fun n c => n + c.utf8Size) 0

/-- Raw text spells a line break as a backslash and an n. -/
def expandNewlines : Text → Text
  | '\\' :: 'n' :: rest => '\n' :: expandNewlines rest
  | c :: rest => c :: expandNewlines rest
  | [] => []

end Text

end PromptTemplate
