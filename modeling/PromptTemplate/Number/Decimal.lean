import PromptTemplate.Number.Rounding
import PromptTemplate.Text.Integer

/-!
# Decimal numerals

A numeral names the number nearest to its exact value. Templates write a sign,
digits and perhaps a fraction; a general numeral may also have an exponent, may
leave out the digits on one side of the point, and has words for the infinities
and for no number.
-/

namespace PromptTemplate

namespace Number

/-- The number nearest to `digits · 10 ^ place`. Beyond 400 places the answer does not
depend on the digits: such a magnitude is infinite or zero. -/
def ofDecimal (negative : Bool) (digits : Text) (place : Int) : Number :=
  let n := Text.readDigits 0 digits
  if n = 0 then ofRank negative 0
  else if 400 < place then .infinite negative
  else if place + digits.length < -400 then ofRank negative 0
  else if 0 ≤ place then ofRatio negative (n * Nat.pow 10 place.toNat) 1
  else ofRatio negative n (Nat.pow 10 (-place).toNat)

/-- The digits at the start of a text, and the rest. -/
def spanDigits (t : Text) : Text × Text := t.span Char.isDigit

/-- Reads a template's numeral: an optional minus sign, digits, and optionally a point
with more digits. -/
def readLiteral? (t : Text) : Option Number :=
  let (negative, t) : Bool × Text :=
    match t with
    | '-' :: rest => (true, rest)
    | rest => (false, rest)
  match spanDigits t with
  | ([], _) => none
  | (whole, []) => some (ofDecimal negative whole 0)
  | (whole, '.' :: rest) =>
    match spanDigits rest with
    | ([], _) => none
    | (fraction, []) => some (ofDecimal negative (whole ++ fraction) (-fraction.length))
    | _ => none
  | _ => none

/-- Reads the exponent of a general numeral, the empty text being the exponent zero. -/
def readExponent? (t : Text) : Option Int :=
  match t with
  | [] => some 0
  | c :: rest =>
    if c = 'e' ∨ c = 'E' then
      match rest with
      | '-' :: digits => (Text.readNat? digits).map fun n => -(n : Int)
      | '+' :: digits => (Text.readNat? digits).map fun n => (n : Int)
      | digits => (Text.readNat? digits).map fun n => (n : Int)
    else none

/-- Reads a general numeral or one of the words for infinity and no number. -/
def read? (t : Text) : Option Number :=
  let (negative, t) : Bool × Text :=
    match t with
    | '-' :: rest => (true, rest)
    | '+' :: rest => (false, rest)
    | rest => (false, rest)
  let word := t.map Char.toLower
  if word = "inf".toList ∨ word = "infinity".toList then some (.infinite negative)
  else if word = "nan".toList then some .nan
  else
    let (whole, rest) := spanDigits t
    let (fraction, rest) : Text × Text :=
      match rest with
      | '.' :: rest => spanDigits rest
      | rest => ([], rest)
    if whole = [] ∧ fraction = [] then none
    else (readExponent? rest).map fun e =>
      ofDecimal negative (whole ++ fraction) (e - fraction.length)

end Number

end PromptTemplate
