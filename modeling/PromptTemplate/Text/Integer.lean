import PromptTemplate.Text.Basic

/-!
# Integers as texts

Indices and slice bounds are written in decimal and lie in the range of a
signed word of 64 bits. Reading accepts an optional sign and digits and refuses
what lies outside the range; writing uses the fewest digits.
-/

namespace PromptTemplate

namespace Text

/-- The value of a decimal digit. -/
def digitValue (c : Char) : Nat := c.toNat - '0'.toNat

/-- The digit with a value below ten. -/
def digitChar (n : Nat) : Char := Char.ofNat ('0'.toNat + n)

/-- The number that a run of digits continues, started at `acc`. -/
def readDigits (acc : Nat) : Text → Nat
  | [] => acc
  | c :: rest => readDigits (10 * acc + digitValue c) rest

/-- A number for a nonempty run of digits, nothing for any other text. -/
def readNat? (t : Text) : Option Nat :=
  if t ≠ [] ∧ t.all Char.isDigit then some (readDigits 0 t) else none

/-- Bounds of the integers that a text may name. -/
def isWord (n : Int) : Bool := -9223372036854775808 ≤ n && n ≤ 9223372036854775807

/-- Reads an optional sign and digits, within the range of a signed word. -/
def readInt? (t : Text) : Option Int :=
  let read : Option Int :=
    match t with
    | '-' :: rest => (readNat? rest).map fun n => -(n : Int)
    | '+' :: rest => (readNat? rest).map fun n => (n : Int)
    | rest => (readNat? rest).map fun n => (n : Int)
  read.filter isWord

/-- The decimal digits of a number, without leading zeros. -/
def ofNat (n : Nat) : Text :=
  if n < 10 then [digitChar n] else ofNat (n / 10) ++ [digitChar (n % 10)]
termination_by n
decreasing_by omega

/-- The decimal text of an integer, with a sign only if it is negative. -/
def ofInt (n : Int) : Text := if n < 0 then '-' :: ofNat n.natAbs else ofNat n.natAbs

/-- Exactly `width` digits and more only where the number needs them. -/
def padLeft (width : Nat) (fill : Char) (t : Text) : Text :=
  List.replicate (width - t.length) fill ++ t

end Text

end PromptTemplate
