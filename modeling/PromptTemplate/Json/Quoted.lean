import PromptTemplate.Nesting.Literal

/-!
# JSON strings

Writing escapes the quote, the backslash and the characters below the space and
leaves every other character as it is. Reading accepts all escapes of the
format; a character beyond the first plane may be spelt as two escapes, and an
escape that is half of such a pair is refused.
-/

namespace PromptTemplate

namespace Json

namespace Quoted

/-- The lowercase hexadecimal digit with a value below sixteen. -/
def hexDigit (n : Nat) : Char :=
  if n < 10 then Char.ofNat ('0'.toNat + n) else Char.ofNat ('a'.toNat + (n - 10))

/-- The value of a hexadecimal digit of either case. -/
def hexValue? (c : Char) : Option Nat :=
  if '0' ≤ c ∧ c ≤ '9' then some (c.toNat - '0'.toNat)
  else if 'a' ≤ c ∧ c ≤ 'f' then some (c.toNat - 'a'.toNat + 10)
  else if 'A' ≤ c ∧ c ≤ 'F' then some (c.toNat - 'A'.toNat + 10)
  else none

/-- The spelling of one character inside quotes. -/
def encodeChar (c : Char) : Text :=
  if c = '"' then ['\\', '"']
  else if c = '\\' then ['\\', '\\']
  else if c = '\x08' then ['\\', 'b']
  else if c = '\x0c' then ['\\', 'f']
  else if c = '\n' then ['\\', 'n']
  else if c = '\r' then ['\\', 'r']
  else if c = '\t' then ['\\', 't']
  else if c.toNat < 0x20 then
    ['\\', 'u', '0', '0', hexDigit (c.toNat / 16), hexDigit (c.toNat % 16)]
  else [c]

/-- The spelling of a text inside quotes. -/
def encode (t : Text) : Text := t.flatMap encodeChar

/-- A text with its quotes. -/
def write (t : Text) : Text := '"' :: encode t ++ ['"']

/-- What a string's body is made of: characters, and code units spelt in hexadecimal. -/
inductive Piece where
  | char (c : Char)
  | unit (n : Nat)
  deriving DecidableEq, Repr

/-- The character that a letter stands for behind a backslash. -/
def escape? (c : Char) : Option Char :=
  match c with
  | '"' => some '"'
  | '\\' => some '\\'
  | '/' => some '/'
  | 'b' => some '\x08'
  | 'f' => some '\x0c'
  | 'n' => some '\n'
  | 'r' => some '\r'
  | 't' => some '\t'
  | _ => none

/-- The code unit spelt by four hexadecimal digits. -/
def unit? (a b c d : Char) : Option Nat := do
  return (((← hexValue? a) * 16 + (← hexValue? b)) * 16 + (← hexValue? c)) * 16 + (← hexValue? d)

/-- The pieces of a string's body. Characters below the space must be escaped. -/
def pieces : Text → Option (List Piece)
  | [] => some []
  | '\\' :: 'u' :: a :: b :: c :: d :: rest => do
    let n ← unit? a b c d
    return .unit n :: (← pieces rest)
  | '\\' :: c :: rest => do
    let e ← escape? c
    return .char e :: (← pieces rest)
  | c :: rest => do
    if c = '\\' ∨ c.toNat < 0x20 then none
    return .char c :: (← pieces rest)

/-- Whether a code unit is the first half of a pair. -/
def isHighHalf (n : Nat) : Bool := 0xD800 ≤ n && n < 0xDC00

/-- Whether a code unit is the second half of a pair. -/
def isLowHalf (n : Nat) : Bool := 0xDC00 ≤ n && n < 0xE000

/-- The text of the pieces. A first half joins with the second half right behind it; a
half on its own is no character. -/
def join : List Piece → Option Text
  | [] => some []
  | .char c :: rest => do return c :: (← join rest)
  | .unit n :: .unit m :: rest =>
    if isHighHalf n then
      if isLowHalf m then do
        return Char.ofNat (0x10000 + (n - 0xD800) * 0x400 + (m - 0xDC00)) :: (← join rest)
      else none
    else if isLowHalf n then none
    else do return Char.ofNat n :: (← join (.unit m :: rest))
  | .unit n :: rest =>
    if isHighHalf n || isLowHalf n then none
    else do return Char.ofNat n :: (← join rest)

/-- The text that a string's body spells. -/
def decode (body : Text) : Option Text := (pieces body).bind join

end Quoted

end Json

end PromptTemplate
