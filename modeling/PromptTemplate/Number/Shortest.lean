import PromptTemplate.Number.Basic
import PromptTemplate.Text.Integer

/-!
# Shortest digits

A magnitude is written with the fewest decimal digits that read back as it. The
texts that read back are those in the interval between the two midpoints beside
the magnitude, ends included if its rank is even. On each grid of powers of ten
only the two neighbours of the value have to be tested; the first grid with a
hit wins, and of two hits the nearer.
-/

namespace PromptTemplate

namespace Number

/-- Which of two equally near candidates is taken. -/
inductive Tie where
  | even
  | up
  deriving DecidableEq, Repr

/-- Decimal digits and the power of ten of the last of them. -/
structure Decimal where
  /-- The digits, as a number. -/
  digits : Nat
  /-- The power of ten by which the digits are scaled. -/
  place : Int
  deriving DecidableEq, Repr

/-- The same value without zeros at the end of the digits. -/
def Decimal.reduce (d : Decimal) : Decimal :=
  if _ : d.digits ≠ 0 ∧ d.digits % 10 = 0 then reduce ⟨d.digits / 10, d.place + 1⟩ else d
termination_by d.digits
decreasing_by omega

/-- One step of a grid as a quotient of natural numbers, over half units. -/
def gridStep (place : Int) : Nat × Nat :=
  if 0 ≤ place then (2 * unitsOfOne * Nat.pow 10 place.toNat, 1)
  else (2 * unitsOfOne, Nat.pow 10 (-place).toNat)

/-- Whether the point `c` of a grid reads back as the magnitude. The bounds are the sums
with the two neighbours, that is, twice the midpoints. -/
def readsBack (rank : Nat) (place : Int) (c : Nat) : Bool :=
  let (num, den) := gridStep place
  let low := (units (rank - 1) + units rank) * den
  let high := (units rank + units (rank + 1)) * den
  if rank % 2 = 0 then low ≤ c * num && c * num ≤ high else low < c * num && c * num < high

/-- The digits on one grid that read back as the magnitude, if there are any. -/
def onGrid? (tie : Tie) (rank : Nat) (place : Int) : Option Nat :=
  let (num, den) := gridStep place
  let value := 2 * units rank * den
  let c := value / num
  match readsBack rank place c, readsBack rank place (c + 1) with
  | true, true =>
    if 2 * value < (2 * c + 1) * num then some c
    else if (2 * c + 1) * num < 2 * value then some (c + 1)
    else
      match tie with
      | .up => some (c + 1)
      | .even => some (if c % 2 = 0 then c else c + 1)
  | true, false => some c
  | false, true => some (c + 1)
  | false, false => none

/-- The power of ten of the leading digit of a positive magnitude, read off the length
of the whole part after a shift by 330 places. -/
def leadingPlace (rank : Nat) : Int :=
  (Text.ofNat (units rank * Nat.pow 10 330 / unitsOfOne)).length - 331

/-- The fewest digits that read back as the magnitude; zero is the digit zero. Seventeen
digits always suffice. -/
def shortest (tie : Tie) (rank : Nat) : Decimal :=
  if rank = 0 then ⟨0, 0⟩
  else
    let leading := leadingPlace rank
    let found := (List.range 17).findSome? fun (more : Nat) =>
      (onGrid? tie rank (leading - more)).map fun c => Decimal.mk c (leading - more)
    (found.getD ⟨units rank / unitsOfOne, 0⟩).reduce

end Number

end PromptTemplate
