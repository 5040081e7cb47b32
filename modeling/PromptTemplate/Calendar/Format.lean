import PromptTemplate.Calendar.Date
import PromptTemplate.Text.Integer

/-!
# Date formats

A date format is text in which a percent sign introduces a field of the date. A
field is either a number, whose padding a modifier can change, or a fixed text;
some conversions stand for several fields. One conversion that is not known
makes the whole format invalid, and an invalid format is replaced by the date
alone.
-/

namespace PromptTemplate

namespace Calendar

/-- What fills a number up to the width of its field. -/
inductive Pad where
  | none
  | zero
  | space
  deriving DecidableEq, Repr

/-- Fields that are numbers. -/
inductive NumberField where
  | year | century | yearOfCentury
  | isoYear | isoYearOfCentury | isoWeek
  | quarter | month | day | dayOfYear
  | weekFromSunday | weekFromMonday | weekday | isoWeekday
  | hour | hour12 | minute | second | nanosecond
  | timestamp
  deriving DecidableEq, Repr

/-- Fields that are texts. -/
inductive TextField where
  | shortMonth | longMonth | shortWeekday | longWeekday
  | lowerHalf | upperHalf
  /-- The fraction of a second with its point, in as few groups of three as are exact. -/
  | fraction
  /-- The leading digits of the fraction of a second. -/
  | fractionDigits (point : Bool) (digits : Nat)
  /-- The offset from universal time, by hours, minutes and seconds. -/
  | offset (text : String)
  /-- Date, time, fraction and offset in the form for interchange. -/
  | interchange
  deriving DecidableEq, Repr

/-- A piece of a date format. -/
inductive Item where
  | literal (t : Text)
  | number (field : NumberField) (pad : Pad)
  | text (field : TextField)
  deriving DecidableEq, Repr

/-- A number in a field: the sign counts towards the width unless it is asked for. -/
def padNumber (width : Nat) (pad : Pad) (signed : Bool) (n : Int) : Text :=
  let sign : Text := if n < 0 then ['-'] else if signed then ['+'] else []
  let width := if signed then width + 1 else width
  let digits := Text.ofNat n.natAbs
  match pad with
  | .none => sign ++ digits
  | .zero => sign ++ Text.padLeft (width - sign.length) '0' digits
  | .space => Text.padLeft width ' ' (sign ++ digits)

/-- A number in a field of two places, which holds one byte: of a larger number, and of a
negative one, the remainder by 256 is taken. The tens are one character, counted on from
the digit zero, so past nine tens they go on to the characters behind the digit nine. -/
def padPair (pad : Pad) (n : Int) : Text :=
  let byte := (n % 256).toNat
  let tens : Text :=
    if byte < 10 then
      match pad with
      | .none => []
      | .zero => ['0']
      | .space => [' ']
    else [Text.digitChar (byte / 10)]
  tens ++ [Text.digitChar (byte % 10)]

example : padPair .zero 20 = ['2', '0'] ∧ padPair .space 7 = [' ', '7'] := by decide

example : padPair .zero 207 = ['D', '7'] ∧ padPair .zero 256 = ['0', '0'] := by decide

/-- A year has four digits; one outside them has a sign too. -/
def padYear (pad : Pad) (year : Int) : Text :=
  padNumber 4 pad (year < 0 || 10000 ≤ year) year

/-- The text of a number field. -/
def NumberField.write (field : NumberField) (pad : Pad) (t : Instant) : Text :=
  match field with
  | .year => padYear pad t.date.year
  | .century => padPair pad (t.date.year.fdiv 100)
  | .yearOfCentury => padPair pad (t.date.year % 100)
  | .isoYear => padYear pad t.isoWeek.1
  | .isoYearOfCentury => padPair pad (t.isoWeek.1 % 100)
  | .isoWeek => padPair pad t.isoWeek.2
  | .quarter => padNumber 1 pad false t.date.quarter
  | .month => padPair pad t.date.month
  | .day => padPair pad t.date.day
  | .dayOfYear => padNumber 3 pad false t.date.dayOfYear
  | .weekFromSunday => padPair pad t.weekFromSunday
  | .weekFromMonday => padPair pad t.weekFromMonday
  | .weekday => padNumber 1 pad false t.weekday
  | .isoWeekday => padNumber 1 pad false t.isoWeekday
  | .hour => padPair pad t.hour
  | .hour12 => padPair pad t.hour12
  | .minute => padPair pad t.minute
  | .second => padPair pad t.second
  | .nanosecond => padNumber 9 pad false t.nanos
  | .timestamp => padNumber 9 pad false t.seconds

/-- The names of the months. -/
def monthNames : List String :=
  ["January", "February", "March", "April", "May", "June", "July", "August", "September",
    "October", "November", "December"]

/-- The names of the days of the week, from Sunday on. -/
def weekdayNames : List String :=
  ["Sunday", "Monday", "Tuesday", "Wednesday", "Thursday", "Friday", "Saturday"]

/-- The name of a date's month. -/
def monthName (t : Instant) : Text := (monthNames.getD (t.date.month - 1) "").toList

/-- The name of a date's day of the week. -/
def weekdayName (t : Instant) : Text := (weekdayNames.getD t.weekday "").toList

/-- The first `digits` of the nine digits of the nanoseconds. -/
def nanoDigits (digits : Nat) (t : Instant) : Text :=
  (Text.padLeft 9 '0' (Text.ofNat t.nanos)).take digits

/-- The fraction of a second with its point, nothing if it is zero. -/
def writeFraction (t : Instant) : Text :=
  if t.nanos = 0 then []
  else if t.nanos % 1000000 = 0 then '.' :: nanoDigits 3 t
  else if t.nanos % 1000 = 0 then '.' :: nanoDigits 6 t
  else '.' :: nanoDigits 9 t

/-- Hours, minutes and seconds. -/
def timeOfDay : List Item :=
  [.number .hour .zero, .literal [':'], .number .minute .zero, .literal [':'],
    .number .second .zero]

/-- The fields of the form for interchange, without fraction and offset. -/
def dateAndTime : List Item :=
  [.number .year .zero, .literal ['-'], .number .month .zero, .literal ['-'],
    .number .day .zero, .literal ['T']] ++ timeOfDay

/-- The text of the pieces that are literals and numbers. -/
def writePlain (t : Instant) (items : List Item) : Text :=
  items.flatMap fun item =>
    match item with
    | .literal text => text
    | .number field pad => field.write pad t
    | .text _ => []

/-- The text of a text field. -/
def TextField.write (field : TextField) (t : Instant) : Text :=
  match field with
  | .shortMonth => (monthName t).take 3
  | .longMonth => monthName t
  | .shortWeekday => (weekdayName t).take 3
  | .longWeekday => weekdayName t
  | .lowerHalf => (if t.hour < 12 then "am" else "pm").toList
  | .upperHalf => (if t.hour < 12 then "AM" else "PM").toList
  | .fraction => writeFraction t
  | .fractionDigits point digits => (if point then ['.'] else []) ++ nanoDigits digits t
  | .offset text => text.toList
  | .interchange => writePlain t dateAndTime ++ writeFraction t ++ "+00:00".toList

/-- The text of one piece. -/
def Item.write (t : Instant) : Item → Text
  | .literal s => s
  | .number field pad => field.write pad t
  | .text field => field.write t

/-- Month, day and year of the century between slashes. -/
def slashDate : List Item :=
  [.number .month .zero, .literal ['/'], .number .day .zero, .literal ['/'],
    .number .yearOfCentury .zero]

/-- What a conversion of one letter stands for. -/
def letter? (c : Char) : Option (List Item) :=
  match c with
  | 'Y' => some [.number .year .zero]
  | 'C' => some [.number .century .zero]
  | 'y' => some [.number .yearOfCentury .zero]
  | 'q' => some [.number .quarter .none]
  | 'm' => some [.number .month .zero]
  | 'b' => some [.text .shortMonth]
  | 'h' => some [.text .shortMonth]
  | 'B' => some [.text .longMonth]
  | 'd' => some [.number .day .zero]
  | 'e' => some [.number .day .space]
  | 'a' => some [.text .shortWeekday]
  | 'A' => some [.text .longWeekday]
  | 'w' => some [.number .weekday .none]
  | 'u' => some [.number .isoWeekday .none]
  | 'U' => some [.number .weekFromSunday .zero]
  | 'W' => some [.number .weekFromMonday .zero]
  | 'G' => some [.number .isoYear .zero]
  | 'g' => some [.number .isoYearOfCentury .zero]
  | 'V' => some [.number .isoWeek .zero]
  | 'j' => some [.number .dayOfYear .zero]
  | 'D' => some slashDate
  | 'x' => some slashDate
  | 'F' => some [.number .year .zero, .literal ['-'], .number .month .zero, .literal ['-'],
      .number .day .zero]
  | 'v' => some [.number .day .space, .literal ['-'], .text .shortMonth, .literal ['-'],
      .number .year .zero]
  | 'H' => some [.number .hour .zero]
  | 'k' => some [.number .hour .space]
  | 'I' => some [.number .hour12 .zero]
  | 'l' => some [.number .hour12 .space]
  | 'P' => some [.text .lowerHalf]
  | 'p' => some [.text .upperHalf]
  | 'M' => some [.number .minute .zero]
  | 'S' => some [.number .second .zero]
  | 'f' => some [.number .nanosecond .zero]
  | 'R' => some [.number .hour .zero, .literal [':'], .number .minute .zero]
  | 'T' => some timeOfDay
  | 'X' => some timeOfDay
  | 'r' => some [.number .hour12 .zero, .literal [':'], .number .minute .zero, .literal [':'],
      .number .second .zero, .literal [' '], .text .upperHalf]
  | 'Z' => some [.text (.offset "+00:00")]
  | 'z' => some [.text (.offset "+0000")]
  | 'c' => some ([.text .shortWeekday, .literal [' '], .text .shortMonth, .literal [' '],
      .number .day .space, .literal [' ']] ++ timeOfDay ++ [.literal [' '], .number .year .zero])
  | '+' => some [.text .interchange]
  | 's' => some [.number .timestamp .none]
  | 't' => some [.literal ['\t']]
  | 'n' => some [.literal ['\n']]
  | '%' => some [.literal ['%']]
  | _ => none

/-- The pieces of the conversion at the start of a text, and the text behind it. -/
def conversion? (t : Text) : Option (List Item × Text) :=
  match t with
  | '.' :: 'f' :: rest => some ([.text .fraction], rest)
  | '.' :: '3' :: 'f' :: rest => some ([.text (.fractionDigits true 3)], rest)
  | '.' :: '6' :: 'f' :: rest => some ([.text (.fractionDigits true 6)], rest)
  | '.' :: '9' :: 'f' :: rest => some ([.text (.fractionDigits true 9)], rest)
  | '3' :: 'f' :: rest => some ([.text (.fractionDigits false 3)], rest)
  | '6' :: 'f' :: rest => some ([.text (.fractionDigits false 6)], rest)
  | '9' :: 'f' :: rest => some ([.text (.fractionDigits false 9)], rest)
  | ':' :: 'z' :: rest => some ([.text (.offset "+00:00")], rest)
  | ':' :: ':' :: 'z' :: rest => some ([.text (.offset "+00:00:00")], rest)
  | ':' :: ':' :: ':' :: 'z' :: rest => some ([.text (.offset "+00")], rest)
  | c :: rest => (letter? c).map fun items => (items, rest)
  | [] => none

/-- The padding that a modifier asks for. -/
def modifier? (c : Char) : Option Pad :=
  match c with
  | '-' => some .none
  | '0' => some .zero
  | '_' => some .space
  | _ => none

/-- The conversion behind a percent sign, with its modifier. Only a single number can be
padded in another way. -/
def field? (t : Text) : Option (List Item × Text) :=
  match t with
  | [] => none
  | c :: rest =>
    match modifier? c with
    | none => conversion? (c :: rest)
    | some pad =>
      match conversion? rest with
      | some ([.number field _], after) => some ([.number field pad], after)
      | _ => none

theorem length_lt_of_conversion? {t after : Text} {items : List Item}
    (h : conversion? t = some (items, after)) : after.length < t.length := by
  unfold conversion? at h
  split at h
  case h_11 =>
    obtain ⟨_, _, hk⟩ := Option.map_eq_some_iff.1 h
    simp only [Prod.mk.injEq] at hk
    simp [hk.2]
  case h_12 => simp at h
  all_goals
    simp only [Option.some.injEq, Prod.mk.injEq] at h
    simp only [← h.2, List.length_cons]
    omega

theorem length_lt_of_field? {t after : Text} {items : List Item}
    (h : field? t = some (items, after)) : after.length < t.length := by
  unfold field? at h
  split at h
  · simp at h
  · split at h
    · exact length_lt_of_conversion? h
    · split at h
      · next hc =>
        simp only [Option.some.injEq, Prod.mk.injEq] at h
        have := length_lt_of_conversion? hc
        rw [← h.2, List.length_cons]
        omega
      · simp at h

/-- The pieces of a date format, if all its conversions are known. -/
def items? (format : Text) : Option (List Item) :=
  match format with
  | [] => some []
  | '%' :: rest =>
    match _ : field? rest with
    | some (items, after) => (items? after).map (items ++ ·)
    | none => none
  | c :: rest => (items? rest).map (.literal [c] :: ·)
termination_by format.length
decreasing_by
  · have := length_lt_of_field? ‹_›
    simp only [List.length_cons]
    omega
  · simp

/-- The format that replaces an invalid one: day, short month and year. -/
def fallback : Text := "%d %b %Y".toList

/-- An instant in a date format, or in the replacement if the format is invalid. -/
def format (t : Instant) (format : Text) : Text :=
  (((items? format).or (items? fallback)).getD []).flatMap (Item.write t)

/-- The replacement is a valid format. -/
example : (items? fallback).isSome = true := by decide +kernel

end Calendar

end PromptTemplate
