import PromptTemplate.Number.Shortest

/-!
# The layout of digits

A number format says how shortest digits are laid out: which exponents of the
leading digit are written without an exponent mark, whether a whole number keeps
a point and a zero, and how ties between digits go.
-/

namespace PromptTemplate

namespace Number

/-- How a finite magnitude is written. -/
structure Format where
  /-- Which of two equally near digit strings is taken. -/
  tie : Tie
  /-- The exponents of the leading digit that are written positionally. -/
  positional : Int → Bool
  /-- A whole number is followed by a point and a zero. -/
  keepsPoint : Bool

/-- Digits with the point among, before or behind them. -/
def layPositional (keepsPoint : Bool) (d : Decimal) : Text :=
  let digits := Text.ofNat d.digits
  if 0 ≤ d.place then
    digits ++ List.replicate d.place.toNat '0' ++ (if keepsPoint then ['.', '0'] else [])
  else
    let places := (-d.place).toNat
    if places < digits.length then
      digits.take (digits.length - places) ++ '.' :: digits.drop (digits.length - places)
    else '0' :: '.' :: Text.padLeft places '0' digits

/-- One digit, a point before the others, and a signed exponent. -/
def layScientific (d : Decimal) : Text :=
  let digits := Text.ofNat d.digits
  let e : Int := d.place + digits.length - 1
  let fraction := match digits.drop 1 with
    | [] => []
    | rest => '.' :: rest
  digits.take 1 ++ fraction ++ 'e' :: (if e < 0 then '-' else '+') :: Text.ofNat e.natAbs

/-- The text of a finite number in a format. -/
def Format.write (format : Format) (negative : Bool) (rank : Nat) : Text :=
  let d := shortest format.tie rank
  let e : Int := d.place + (Text.ofNat d.digits).length - 1
  let body := if format.positional e then layPositional format.keepsPoint d else layScientific d
  if negative then '-' :: body else body

/-- Rendered output never uses an exponent mark and drops the point of whole numbers. -/
def rendered : Format := ⟨.up, fun _ => true, false⟩

/-- The rendered text of a number: an integer below the bound as such. -/
def toText (x : Number) : Text :=
  match x.exactInt? with
  | some n => Text.ofInt n
  | none =>
    match x with
    | .nan => "NaN".toList
    | .infinite negative => if negative then "-inf".toList else "inf".toList
    | .finite negative rank => rendered.write negative rank

end Number

end PromptTemplate
