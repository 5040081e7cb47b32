import PromptTemplate.Json.Basic
import PromptTemplate.Number.Decimal

/-!
# JSON numerals

A numeral without point and exponent that fits a machine word is an integer.
Any other numeral is read in two roundings: as many leading digits as fit an
unsigned word give a double, which is then scaled by a power of ten, itself a
double. Numerals beyond the largest double are refused.
-/

namespace PromptTemplate

namespace Json

namespace Numeral

/-- Characters that a numeral can hold. -/
def isPart (c : Char) : Bool :=
  c.isDigit || c == '-' || c == '+' || c == '.' || c == 'e' || c == 'E'

/-- A significand below this bound fits an unsigned word. -/
def wordBound : Nat := Nat.pow 2 64

/-- Continues a significand by digits as long as it fits a word; the digits that are left
over are counted. -/
def absorb (significand : Nat) : Text → Nat × Nat
  | [] => (significand, 0)
  | c :: rest =>
    let next := 10 * significand + Text.digitValue c
    if next < wordBound then absorb next rest else (significand, rest.length + 1)

/-- The largest power of ten that is a double. -/
def topPower : Nat := 308

/-- Scales a magnitude by a power of ten, in steps of the largest power when the exponent
is below all of them; nothing if the result is too large. -/
def scale? (rank : Nat) (exponent : Int) : Option Nat :=
  if exponent < -topPower then
    if rank = 0 then some 0
    else scale? (Number.divRank rank (Number.powerOfTenRank topPower)) (exponent + topPower)
  else if exponent < 0 then some (Number.divRank rank (Number.powerOfTenRank exponent.natAbs))
  else if exponent ≤ topPower then
    (some (Number.mulRank rank (Number.powerOfTenRank exponent.natAbs))).filter
      (· < finiteCount)
  else if rank = 0 then some 0
  else none
termination_by exponent.natAbs
decreasing_by simp only [topPower] at *; omega

/-- The parts of a numeral. -/
structure Parts where
  /-- Whether a minus sign stands before the digits. -/
  negative : Bool
  /-- The digits before the point: a single zero, or digits that do not start with one. -/
  whole : Text
  /-- The digits behind the point, empty if there is no point. -/
  fraction : Text
  /-- The exponent, if one is written. -/
  exponent? : Option Int
  deriving Repr

/-- The digits of a fraction, required behind a point. -/
def spanFraction? (t : Text) : Option (Text × Text) :=
  match t with
  | '.' :: rest =>
    match Number.spanDigits rest with
    | ([], _) => none
    | found => some found
  | rest => some ([], rest)

/-- The exponent at the end of a numeral, if any. -/
def readExponent? (t : Text) : Option (Option Int) :=
  match t with
  | [] => some none
  | rest => (Number.readExponent? rest).map some

/-- Takes a whole numeral apart. -/
def parts? (t : Text) : Option Parts := do
  let (negative, t) : Bool × Text :=
    match t with
    | '-' :: rest => (true, rest)
    | rest => (false, rest)
  let (whole, rest) := Number.spanDigits t
  if whole = [] ∨ (whole.head? = some '0' ∧ whole ≠ ['0']) then none
  let (fraction, rest) ← spanFraction? rest
  return ⟨negative, whole, fraction, ← readExponent? rest⟩

/-- Exponents beyond this one are not scaled by: they give zero or nothing. -/
def exponentBound : Int := 2147483648

/-- The document that a numeral denotes. -/
def Parts.value? (p : Parts) : Option Json :=
  let (start, skipped) := absorb 0 p.whole
  let (significand, ignored) := absorb start p.fraction
  let place : Int := skipped - (p.fraction.length - ignored : Nat)
  let signed (rank : Nat) : Json := .decimal (Number.ofRank p.negative rank)
  match p.exponent? with
  | none =>
    if p.fraction = [] ∧ skipped = 0 then
      if p.negative then
        if 1 ≤ significand ∧ significand ≤ Nat.pow 2 63 then some (.integer (-significand))
        else some (signed (Number.nearestRank significand 1))
      else some (.integer significand)
    else (scale? (Number.nearestRank significand 1) place).map signed
  | some e =>
    if exponentBound ≤ e ∨ e ≤ -exponentBound then
      if significand ≠ 0 ∧ 0 < e then none else some (signed 0)
    else (scale? (Number.nearestRank significand 1) (place + e)).map signed

/-- Reads a whole numeral. -/
def read? (t : Text) : Option Json := (parts? t).bind Parts.value?

end Numeral

end Json

end PromptTemplate
