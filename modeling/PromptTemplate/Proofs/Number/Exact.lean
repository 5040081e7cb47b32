import PromptTemplate.Number.Rounding

/-!
# Numbers that are integers

Every magnitude is the one nearest to its own value: its significand has the bits
that rounding keeps, and nothing is rounded away. So an integer that a number is
gives the number back, up to the sign of zero.
-/

namespace PromptTemplate

namespace Number

/-- A significand with all its bits, scaled by a power of two. -/
theorem log2_scaled {m e : Nat} (hlow : Nat.pow 2 52 ≤ m) (hhigh : m < Nat.pow 2 53) :
    (m * Nat.pow 2 e).log2 = 52 + e := by
  have hpos : 0 < Nat.pow 2 e := Nat.pow_pos (by decide)
  have hne : m * Nat.pow 2 e ≠ 0 := by
    have hm : 0 < m := Nat.lt_of_lt_of_le (Nat.pow_pos (by decide)) hlow
    exact Nat.ne_of_gt (Nat.mul_pos hm hpos)
  refine (Nat.log2_eq_iff hne).2 ⟨?_, ?_⟩
  · calc 2 ^ (52 + e) = Nat.pow 2 52 * Nat.pow 2 e := Nat.pow_add 2 52 e
      _ ≤ m * Nat.pow 2 e := Nat.mul_le_mul_right _ hlow
  · calc m * Nat.pow 2 e < Nat.pow 2 53 * Nat.pow 2 e := Nat.mul_lt_mul_of_pos_right hhigh hpos
      _ = 2 ^ (53 + e) := (Nat.pow_add 2 53 e).symm
      _ = 2 ^ (52 + e + 1) := by rw [Nat.add_right_comm]

/-- Nothing is rounded away from the value of a magnitude. -/
theorem rank_of_units (rank : Nat) :
    ((units rank).log2 - 52) * Nat.pow 2 52 +
      divHalfEven (units rank) (Nat.pow 2 ((units rank).log2 - 52)) = rank := by
  have hpow : Nat.pow 2 52 = 4503599627370496 := rfl
  by_cases hsmall : rank < Nat.pow 2 52
  · have hunits : units rank = rank :=
      units_eq_self (Nat.lt_trans hsmall (Nat.pow_lt_pow_right (by decide) (by decide)))
    have hlog : rank.log2 - 52 = 0 := by
      by_cases hzero : rank = 0
      · rw [hzero]
        rfl
      · exact Nat.sub_eq_zero_of_le (Nat.le_of_lt ((Nat.log2_lt hzero).2 hsmall))
    rw [hunits, hlog, Nat.zero_mul, Nat.zero_add]
    have hwhole := divHalfEven_mul rank (by decide : 0 < Nat.pow 2 0)
    rwa [show rank * Nat.pow 2 0 = rank from Nat.mul_one rank] at hwhole
  · have hsignificand : significand rank = Nat.pow 2 52 + rank % Nat.pow 2 52 := if_neg hsmall
    have hmod := Nat.mod_lt rank (Nat.pow_pos (by decide) : 0 < Nat.pow 2 52)
    have hlog : (units rank).log2 = 52 + exponent rank := by
      rw [units, hsignificand]
      refine log2_scaled (Nat.le_add_right _ _) ?_
      calc Nat.pow 2 52 + rank % Nat.pow 2 52 < Nat.pow 2 52 + Nat.pow 2 52 :=
            Nat.add_lt_add_left hmod _
        _ = Nat.pow 2 53 := rfl
    have hwhole := divHalfEven_mul (significand rank)
      (Nat.pow_pos (by decide) : 0 < Nat.pow 2 (exponent rank))
    have hdiv := Nat.div_add_mod rank (Nat.pow 2 52)
    rw [hlog, Nat.add_sub_cancel_left, units]
    calc exponent rank * Nat.pow 2 52 +
          divHalfEven (significand rank * Nat.pow 2 (exponent rank)) (Nat.pow 2 (exponent rank))
        = exponent rank * Nat.pow 2 52 + (Nat.pow 2 52 + rank % Nat.pow 2 52) := by
          rw [← hsignificand]
          exact congrArg _ hwhole
      _ = rank := by
          rw [exponent]
          rw [hpow] at hsmall hdiv ⊢
          omega

/-- The magnitude nearest to a whole number is the one that has this value. -/
theorem nearestRank_eq {rank n : Nat} (h : units rank = n * unitsOfOne) :
    nearestRank n 1 = rank := by
  have hrank := rank_of_units rank
  rw [h] at hrank
  rw [nearestRank]
  simp only [Nat.div_one, Nat.one_mul]
  exact hrank

/-- Only zero has no value. -/
theorem eq_zero_of_units {rank : Nat} (h : units rank = 0) : rank = 0 := by
  rcases Nat.mul_eq_zero.1 h with hsignificand | hpow
  · unfold significand at hsignificand
    split at hsignificand
    · exact hsignificand
    · exact absurd hsignificand (Nat.ne_of_gt (Nat.add_pos_left (Nat.pow_pos (by decide)) _))
  · exact absurd hpow (Nat.ne_of_gt (Nat.pow_pos (by decide)))

/-- What a number is that is an integer: below the bound, and of the sign and the magnitude
that the integer has. -/
theorem exists_of_exactInt? {x : Number} {n : Int} (h : x.exactInt? = some n) :
    n.natAbs < integerBound ∧ ∃ negative rank, x = .finite negative rank ∧
      units rank = n.natAbs * unitsOfOne ∧ if negative then n ≤ 0 else 0 ≤ n := by
  cases x with
  | nan => cases h
  | infinite negative => cases h
  | finite negative rank =>
    simp only [exactInt?] at h
    split at h
    · next hwhole =>
      have hunits : units rank = units rank / unitsOfOne * unitsOfOne :=
        (Nat.div_mul_cancel (Nat.dvd_of_mod_eq_zero hwhole.1)).symm
      generalize units rank / unitsOfOne = k at h hunits hwhole
      cases negative with
      | true =>
        cases h
        rw [if_pos rfl, Int.natAbs_neg, Int.natAbs_natCast]
        exact ⟨hwhole.2, true, rank, rfl, hunits, by rw [if_pos rfl]; omega⟩
      | false =>
        cases h
        rw [if_neg Bool.false_ne_true, Int.natAbs_natCast]
        exact ⟨hwhole.2, false, rank, rfl, hunits, by rw [if_neg Bool.false_ne_true]; omega⟩
    · cases h

/-- The integer that a number is gives a number equal to it. -/
theorem equals_ofInt {x : Number} {n : Int} (h : x.exactInt? = some n) :
    (ofInt n).equals x = true := by
  obtain ⟨-, negative, rank, rfl, hunits, hsign⟩ := exists_of_exactInt? h
  have hnumber : ofInt n = .finite (n < 0) rank := by
    rw [ofInt, ofRatio, nearestRank_eq hunits, ofRank, dif_pos rank.isLt]
  rw [hnumber, equals, Bool.and_eq_true, Bool.or_eq_true, beq_iff_eq, beq_iff_eq, beq_iff_eq]
  refine ⟨rfl, ?_⟩
  by_cases hzero : n = 0
  · right
    exact eq_zero_of_units (by rw [hunits, hzero, Int.natAbs_zero, Nat.zero_mul])
  · left
    cases negative with
    | true =>
      rw [if_pos rfl] at hsign
      exact decide_eq_true (by omega)
    | false =>
      rw [if_neg Bool.false_ne_true] at hsign
      exact decide_eq_false (by omega)

end Number

end PromptTemplate
