import PromptTemplate.Nesting.Scan

/-!
# String literals

A literal runs from a quote to the next unescaped quote of the same kind. Its
body spells a line break, a tab, a backslash and the two quotes with a
backslash; any other escape stands for itself, backslash included.
-/

namespace PromptTemplate

namespace Literal

/-- The body of a literal and the text behind its closing quote, once the opening quote
is read. A backslash takes the next character with it. -/
def close (quote : Char) : Text → Option (Text × Text)
  | [] => none
  | '\\' :: c :: rest =>
    (close quote rest).map fun found => ('\\' :: c :: found.1, found.2)
  | c :: rest =>
    if c = quote then some ([], rest)
    else (close quote rest).map fun found => (c :: found.1, found.2)

/-- The body of a literal, its last quote and the rest make the text whole again. -/
theorem eq_of_close {quote : Char} {t : Text} {found : Text × Text}
    (h : close quote t = some found) : t = found.1 ++ quote :: found.2 := by
  fun_induction close quote t generalizing found with
  | case1 => cases h
  | case2 c rest ih =>
    obtain ⟨later, hlater, rfl⟩ := Option.map_eq_some_iff.1 h
    rw [ih hlater]
    rfl
  | case3 rest =>
    cases h
    rfl
  | case4 c rest hpair hc ih =>
    obtain ⟨later, hlater, rfl⟩ := Option.map_eq_some_iff.1 h
    rw [ih hlater]
    rfl

/-- Replaces the escapes of a literal's body. -/
def unescape : Text → Text
  | '\\' :: 'n' :: rest => '\n' :: unescape rest
  | '\\' :: 't' :: rest => '\t' :: unescape rest
  | '\\' :: '\\' :: rest => '\\' :: unescape rest
  | '\\' :: '\'' :: rest => '\'' :: unescape rest
  | '\\' :: '"' :: rest => '"' :: unescape rest
  | '\\' :: c :: rest => '\\' :: c :: unescape rest
  | c :: rest => c :: unescape rest
  | [] => []

/-- The quote and the meaning of a text that is one literal from end to end. -/
def read? : Text → Option (Char × Text)
  | [] => none
  | quote :: rest =>
    if Nesting.isQuote quote then
      match close quote rest with
      | some (body, []) => some (quote, unescape body)
      | _ => none
    else none

end Literal

end PromptTemplate
