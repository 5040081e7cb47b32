import PromptTemplate.Number.Basic

/-!
# Rounding to a number

A quotient of natural numbers is rounded to the nearest magnitude, and on a tie
to the one of even rank. Sums are never needed; products and quotients of
magnitudes are exact quotients rounded once.
-/

namespace PromptTemplate

namespace Number

/-- The nearest whole number to a quotient; a half goes to the even neighbour. -/
def divHalfEven (num den : Nat) : Nat :=
  let q := num / den
  let twice := 2 * (num % den)
  if twice < den then q
  else if den < twice then q + 1
  else if q % 2 = 0 then q else q + 1

/-- A whole quotient is not changed. -/
theorem divHalfEven_mul {den : Nat} (q : Nat) (h : 0 < den) : divHalfEven (q * den) den = q := by
  simp [divHalfEven, Nat.mul_div_cancel _ h, h]

/-- The rank nearest to a quotient, which may lie beyond the finite ones. With the
quotient in smallest magnitudes, all bits but the leading 53 are rounded away; a carry
out of the significand lands on the next power of two. -/
def nearestRank (num den : Nat) : Nat :=
  let scaled := num * unitsOfOne
  let e := (scaled / den).log2 - 52
  e * Nat.pow 2 52 + divHalfEven scaled (den * Nat.pow 2 e)

/-- The number with a sign and a rank; beyond the finite ranks lies infinity. -/
def ofRank (negative : Bool) (rank : Nat) : Number :=
  if h : rank < finiteCount then .finite negative ⟨rank, h⟩ else .infinite negative

/-- The number nearest to a quotient with a sign. -/
def ofRatio (negative : Bool) (num den : Nat) : Number := ofRank negative (nearestRank num den)

/-- The number nearest to an integer. -/
def ofInt (n : Int) : Number := ofRatio (n < 0) n.natAbs 1

/-- The number nearest to a natural number. -/
def ofNat (n : Nat) : Number := ofRatio false n 1

/-- The rank nearest to a product of magnitudes. -/
def mulRank (a b : Nat) : Nat := nearestRank (units a * units b) (unitsOfOne * unitsOfOne)

/-- The rank nearest to a quotient of magnitudes. -/
def divRank (a b : Nat) : Nat := nearestRank (units a) (units b)

/-- The rank nearest to a power of ten. -/
def powerOfTenRank (n : Nat) : Nat := nearestRank (Nat.pow 10 n) 1

end Number

end PromptTemplate
