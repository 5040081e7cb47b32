/-!
# Numbers

The numbers of a template are the doubles. Their finite magnitudes are kept by
rank, the place in ascending order, so each number but zero has one form. The
exact value of a magnitude is a whole count of the smallest positive one; every
question about a value is a question about natural numbers. Powers are written with
`Nat.pow`, so that the definitions are the same terms whatever else is imported.
-/

namespace PromptTemplate

/-- The number of finite magnitudes. -/
def finiteCount : Nat := 2047 * Nat.pow 2 52

/-- A double: no number, one of the infinities, or a sign and a finite magnitude. -/
inductive Number where
  | nan
  | infinite (negative : Bool)
  | finite (negative : Bool) (rank : Fin finiteCount)
  deriving DecidableEq, Repr

namespace Number

/-- The significand of the magnitude with a rank: 53 bits, or fewer for the smallest. -/
def significand (rank : Nat) : Nat :=
  if rank < Nat.pow 2 52 then rank else Nat.pow 2 52 + rank % Nat.pow 2 52

/-- The power of two by which the significand is scaled, over the smallest positive
magnitude. -/
def exponent (rank : Nat) : Nat := rank / Nat.pow 2 52 - 1

/-- The exact value of a magnitude, counted in smallest positive magnitudes. -/
def units (rank : Nat) : Nat := significand rank * Nat.pow 2 (exponent rank)

/-- One is this many smallest positive magnitudes. -/
def unitsOfOne : Nat := Nat.pow 2 1074

/-- The smallest positive magnitude has rank one. -/
example : units 1 = 1 := by decide

/-- Rank and value agree up to the second power of two. -/
theorem units_eq_self {rank : Nat} (h : rank < Nat.pow 2 53) : units rank = rank := by
  have hhigh : Nat.pow 2 53 = 9007199254740992 := rfl
  have hlow : Nat.pow 2 52 = 4503599627370496 := rfl
  unfold units significand exponent
  rw [hhigh] at h
  rw [hlow]
  split
  · next hlt =>
    have hdiv : rank / 4503599627370496 - 1 = 0 := by omega
    rw [hdiv]
    exact Nat.mul_one rank
  · next hge =>
    have hdiv : rank / 4503599627370496 - 1 = 0 := by omega
    have hsum : 4503599627370496 + rank % 4503599627370496 = rank := by omega
    rw [hdiv, hsum]
    exact Nat.mul_one rank

/-- Numeric equality: no number equals nothing, and zero has no sign. -/
def equals : Number → Number → Bool
  | .nan, _ => false
  | _, .nan => false
  | .infinite a, .infinite b => a == b
  | .infinite _, .finite .. => false
  | .finite .., .infinite _ => false
  | .finite a r, .finite b s => r == s && (a == b || r.val == 0)

/-- Whether the number differs from zero; no number does not count. -/
def isNonzero : Number → Bool
  | .nan => false
  | .infinite _ => true
  | .finite _ rank => rank.val != 0

/-- Integers of this magnitude and above are not written as integers. -/
def integerBound : Nat := 9 * Nat.pow 10 15

/-- The integer that a number is, if it is one below the bound. -/
def exactInt? : Number → Option Int
  | .finite negative rank =>
    if units rank % unitsOfOne = 0 ∧ units rank / unitsOfOne < integerBound then
      let n : Int := (units rank / unitsOfOne : Nat)
      some (if negative then -n else n)
    else none
  | _ => none

/-- Whether the number is neither infinite nor no number. -/
def isFinite : Number → Bool
  | .finite .. => true
  | _ => false

end Number

end PromptTemplate
