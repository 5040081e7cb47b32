import PromptTemplate.Json.Quoted

/-!
# JSON strings written and read back

A character of a string is spelt in one of three ways: as itself, by a letter
behind a backslash, or by its code. Each of them is passed over by the search for
the closing quote and decodes to the character, so a text that was written as a
string is read back from it, whatever stands behind the string.
-/

namespace PromptTemplate

namespace Json

namespace Quoted

/-- The ways to spell a character. -/
inductive Spelt : Char → Text → Prop
  | plain {c : Char} : c ≠ '"' → c ≠ '\\' → 0x20 ≤ c.toNat → Spelt c [c]
  | short {c letter : Char} : letter ≠ 'u' → escape? letter = some c → Spelt c ['\\', letter]
  | code {c : Char} : c.toNat < 0x20 →
      Spelt c ['\\', 'u', '0', '0', hexDigit (c.toNat / 16), hexDigit (c.toNat % 16)]

/-- Every character is spelt in one of the ways. -/
theorem spelt_encodeChar (c : Char) : Spelt c (encodeChar c) := by
  have hshort {letter d : Char} (hletter : letter ≠ 'u') (hescape : escape? letter = some d)
      (h : c = d) : Spelt c ['\\', letter] := h ▸ .short hletter hescape
  unfold encodeChar
  split
  · next h => exact hshort (by decide) rfl h
  next hquote =>
  split
  · next h => exact hshort (by decide) rfl h
  next hbackslash =>
  split
  · next h => exact hshort (by decide) rfl h
  split
  · next h => exact hshort (by decide) rfl h
  split
  · next h => exact hshort (by decide) rfl h
  split
  · next h => exact hshort (by decide) rfl h
  split
  · next h => exact hshort (by decide) rfl h
  split
  · next h => exact .code h
  · next h => exact .plain hquote hbackslash (Nat.le_of_not_lt h)

/-- A hexadecimal digit is read as its value, and it is no sign of a string. -/
theorem hexDigit_spec {n : Nat} (h : n < 16) :
    hexValue? (hexDigit n) = some n ∧ hexDigit n ≠ '"' ∧ hexDigit n ≠ '\\' := by
  have hall : ∀ n < 16, hexValue? (hexDigit n) = some n ∧ hexDigit n ≠ '"' ∧ hexDigit n ≠ '\\' := by
    decide
  exact hall n h

end Quoted

end Json

/-- A character that is neither a backslash nor the quote is passed over. -/
theorem Literal.close_cons {quote c : Char} (hescape : c ≠ '\\') (hquote : c ≠ quote) (t : Text) :
    close quote (c :: t) = (close quote t).map fun found => (c :: found.1, found.2) := by
  rw [close]
  · exact if_neg hquote
  · exact fun _ _ h => absurd h hescape

namespace Json

namespace Quoted

/-- The search for the closing quote passes over a spelt character. -/
theorem Spelt.close {c : Char} {t : Text} (h : Spelt c t) (rest : Text) :
    Literal.close '"' (t ++ rest) =
      (Literal.close '"' rest).map fun found => (t ++ found.1, found.2) := by
  cases h with
  | plain hquote hbackslash hcode => exact Literal.close_cons hbackslash hquote rest
  | short hletter hescape => exact Literal.close.eq_2 '"' _ rest
  | code hcode =>
    obtain ⟨-, hfirst, hfirst'⟩ := hexDigit_spec (by omega : c.toNat / 16 < 16)
    obtain ⟨-, hsecond, hsecond'⟩ := hexDigit_spec (by omega : c.toNat % 16 < 16)
    have hzero := Literal.close_cons (by decide : '0' ≠ '\\') (by decide : '0' ≠ '"')
    simp only [List.cons_append, List.nil_append, Literal.close, hzero,
      Literal.close_cons hfirst' hfirst, Literal.close_cons hsecond' hsecond, Option.map_map]
    rfl

/-- The first quote that is not escaped is the one behind the string. -/
theorem close_encode (t rest : Text) :
    Literal.close '"' (encode t ++ '"' :: rest) = some (encode t, rest) := by
  induction t with
  | nil => rfl
  | cons c t ih =>
    rw [encode, List.flatMap_cons, List.append_assoc, (spelt_encodeChar c).close]
    exact congrArg (Option.map _) ih

/-- A code below the halves of pairs is a character of its own. -/
theorem join_unit {n : Nat} (h : n < 0xD800) (ps : List Piece) :
    join (.unit n :: ps) = (join ps).map (Char.ofNat n :: ·) := by
  have hhigh : isHighHalf n = false := by
    simp only [isHighHalf, Bool.and_eq_false_imp, decide_eq_true_eq]
    omega
  have hlow : isLowHalf n = false := by
    simp only [isLowHalf, Bool.and_eq_false_imp, decide_eq_true_eq]
    omega
  match ps with
  | [] =>
    simp only [join, hhigh, hlow]
    rfl
  | .char c :: rest =>
    simp only [join, hhigh, hlow]
    cases join rest <;> rfl
  | .unit m :: rest =>
    rw [join, hhigh, hlow]
    cases join (.unit m :: rest) <;> rfl

/-- A spelt character is one piece of its string, and the text begins with it. -/
theorem Spelt.decode {c : Char} {t : Text} (h : Spelt c t) (rest : Text) :
    ∃ piece, pieces (t ++ rest) = (pieces rest).map (piece :: ·) ∧
      ∀ ps, join (piece :: ps) = (join ps).map (c :: ·) := by
  have hchar (ps : List Piece) : join (.char c :: ps) = (join ps).map (c :: ·) := by
    rw [join]
    cases join ps <;> rfl
  cases h with
  | plain hquote hbackslash hcode =>
    refine ⟨.char c, ?_, hchar⟩
    have hlegal : ¬ (c = '\\' ∨ c.toNat < 0x20) := by
      rintro (h | h)
      · exact hbackslash h
      · omega
    rw [List.cons_append, List.nil_append, pieces]
    · simp only [if_neg hlegal]
      cases pieces rest <;> rfl
    · exact fun _ _ _ _ _ h _ => hbackslash h
    · exact fun _ _ h _ => hbackslash h
  | @short letter hletter hescape =>
    refine ⟨.char c, ?_, hchar⟩
    rw [List.cons_append, List.cons_append, List.nil_append, pieces, hescape]
    · cases pieces rest <;> rfl
    · exact fun _ _ _ _ _ h _ => hletter h
  | code hcode =>
    refine ⟨.unit c.toNat, ?_, fun ps => ?_⟩
    · have hunit : unit? '0' '0' (hexDigit (c.toNat / 16)) (hexDigit (c.toNat % 16)) =
          some c.toNat := by
        obtain ⟨hfirst, -⟩ := hexDigit_spec (by omega : c.toNat / 16 < 16)
        obtain ⟨hsecond, -⟩ := hexDigit_spec (by omega : c.toNat % 16 < 16)
        have hzero : hexValue? '0' = some 0 := rfl
        simp only [unit?, hzero, hfirst, hsecond]
        refine congrArg some ?_
        omega
      simp only [List.cons_append, List.nil_append, pieces, hunit]
      cases pieces rest <;> rfl
    · rw [join_unit (by omega), Char.ofNat_toNat]

/-- A text is decoded from the string that was written for it. -/
theorem decode_encode (t : Text) : decode (encode t) = some t := by
  have hpieces : ∃ ps, pieces (encode t) = some ps ∧ join ps = some t := by
    induction t with
    | nil => exact ⟨[], rfl, rfl⟩
    | cons c t ih =>
      obtain ⟨ps, hps, hjoin⟩ := ih
      obtain ⟨piece, hpiece, hpieces⟩ := (spelt_encodeChar c).decode (encode t)
      refine ⟨piece :: ps, ?_, ?_⟩
      · rw [encode, List.flatMap_cons]
        exact hpiece.trans (by rw [hps]; rfl)
      · rw [hpieces, hjoin]
        rfl
  obtain ⟨ps, hps, hjoin⟩ := hpieces
  rw [Quoted.decode, hps]
  exact hjoin

end Quoted

end Json

end PromptTemplate
