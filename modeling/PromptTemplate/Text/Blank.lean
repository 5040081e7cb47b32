import PromptTemplate.Text.Basic

/-!
# Blank characters

The blanks are the characters with the Unicode property `White_Space`. A text
is trimmed of the blanks at its ends; a dash beside a marker trims the blanks
other than the line break.
-/

namespace PromptTemplate

namespace Text

/-- The ranges of the property `White_Space`, first and last code point. -/
def blankRanges : List (Nat × Nat) :=
  [(0x09, 0x0D), (0x20, 0x20), (0x85, 0x85), (0xA0, 0xA0), (0x1680, 0x1680), (0x2000, 0x200A),
    (0x2028, 0x2029), (0x202F, 0x202F), (0x205F, 0x205F), (0x3000, 0x3000)]

/-- The property holds of twenty-five code points. -/
example : (blankRanges.map fun r => r.2 + 1 - r.1).sum = 25 := by decide

/-- A blank is a character with the Unicode property `White_Space`. -/
def isBlank (c : Char) : Bool := blankRanges.any fun r => r.1 ≤ c.toNat && c.toNat ≤ r.2

/-- The blanks that a dash removes: every one but the line break. -/
def isInlineBlank (c : Char) : Bool := isBlank c && c != '\n'

/-- Drops the longest run at the end whose characters all satisfy `p`. -/
def dropEndWhile (p : Char → Bool) (t : Text) : Text := (t.reverse.dropWhile p).reverse

/-- Nothing is gained by dropping at the end. -/
theorem length_dropEndWhile_le (p : Char → Bool) (t : Text) :
    (dropEndWhile p t).length ≤ t.length := by
  have := (List.dropWhile_sublist p (l := t.reverse)).length_le
  simpa [dropEndWhile] using this

/-- The text without the blanks at its start. -/
def trimStart (t : Text) : Text := t.dropWhile isBlank

/-- The text without the blanks at its end. -/
def trimEnd (t : Text) : Text := dropEndWhile isBlank t

/-- The text without the blanks at its two ends. -/
def trim (t : Text) : Text := trimEnd (trimStart t)

/-- Trimming never lengthens a text. -/
theorem length_trim_le (t : Text) : (trim t).length ≤ t.length :=
  Nat.le_trans (length_dropEndWhile_le _ _) (List.dropWhile_sublist _).length_le

theorem length_trimStart_le (t : Text) : (trimStart t).length ≤ t.length :=
  (List.dropWhile_sublist _).length_le

theorem length_trimEnd_le (t : Text) : (trimEnd t).length ≤ t.length :=
  length_dropEndWhile_le _ _

end Text

/-- The two sides of a piece of output on which a dash asks for trimming. -/
structure Trim where
  /-- Remove the inline blanks at the start. -/
  left : Bool
  /-- Remove the inline blanks at the end. -/
  right : Bool
  deriving DecidableEq, Repr

/-- Removes the inline blanks on the flagged sides, first at the start. -/
def Trim.apply (trim : Trim) (t : Text) : Text :=
  let started := if trim.left then t.dropWhile Text.isInlineBlank else t
  if trim.right then Text.dropEndWhile Text.isInlineBlank started else started

end PromptTemplate
