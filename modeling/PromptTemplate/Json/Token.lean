import PromptTemplate.Json.Quoted
import PromptTemplate.Json.Numeral

/-!
# JSON tokens

A JSON text is a sequence of tokens between which spaces, tabs and line ends may
stand: the six marks, strings, and atoms, which are the numerals and the three
words.
-/

namespace PromptTemplate

namespace Json

/-- A token of a JSON text. -/
inductive Token where
  | openObject
  | closeObject
  | openArray
  | closeArray
  | colon
  | comma
  | string (s : Text)
  | atom (j : Json)
  deriving Repr

namespace Token

/-- The four characters that may stand between tokens. -/
def isSpace (c : Char) : Bool := c == ' ' || c == '\t' || c == '\n' || c == '\r'

/-- The rest of a word behind its first letter, as a token. -/
def word? (ending : String) (j : Json) (rest : Text) : Option (Token × Text) :=
  (ending.toList.isPrefixOf? rest).map fun after => (.atom j, after)

/-- The token that begins with `c`, and the text behind it. -/
def read? (c : Char) (rest : Text) : Option (Token × Text) :=
  match c with
  | '{' => some (.openObject, rest)
  | '}' => some (.closeObject, rest)
  | '[' => some (.openArray, rest)
  | ']' => some (.closeArray, rest)
  | ':' => some (.colon, rest)
  | ',' => some (.comma, rest)
  | '"' => do
    let (body, after) ← Literal.close '"' rest
    return (.string (← Quoted.decode body), after)
  | 't' => word? "rue" (.bool true) rest
  | 'f' => word? "alse" (.bool false) rest
  | 'n' => word? "ull" .null rest
  | c =>
    if Numeral.isPart c then
      (Numeral.read? (c :: rest.takeWhile Numeral.isPart)).map fun j =>
        (.atom j, rest.dropWhile Numeral.isPart)
    else none

theorem length_le_of_word? {ending : String} {j : Json} {rest after : Text} {token : Token}
    (h : word? ending j rest = some (token, after)) : after.length ≤ rest.length := by
  obtain ⟨found, hf, hk⟩ := Option.map_eq_some_iff.1 h
  simp only [Prod.mk.injEq] at hk
  rw [Text.length_of_isPrefixOf? hf, ← hk.2]
  omega

end Token

end Json

/-- What stands behind a literal is part of the text that was searched. -/
theorem Literal.length_le_of_close {quote : Char} {t : Text} {found : Text × Text}
    (h : Literal.close quote t = some found) : found.2.length ≤ t.length := by
  rw [Literal.eq_of_close h, List.length_append, List.length_cons]
  omega

namespace Json

namespace Token

/-- Reading a token never gives more text than it was given. -/
theorem length_le_of_read? {c : Char} {rest after : Text} {token : Token}
    (h : read? c rest = some (token, after)) : after.length ≤ rest.length := by
  unfold read? at h
  split at h
  case h_7 =>
    obtain ⟨⟨body, found⟩, hf, hk⟩ := Option.bind_eq_some_iff.1 h
    obtain ⟨s, _, hs⟩ := Option.bind_eq_some_iff.1 hk
    simp only [Option.pure_def, Option.some.injEq, Prod.mk.injEq] at hs
    exact hs.2 ▸ Literal.length_le_of_close hf
  case h_8 => exact length_le_of_word? h
  case h_9 => exact length_le_of_word? h
  case h_10 => exact length_le_of_word? h
  case h_11 =>
    split at h
    · obtain ⟨j, _, hk⟩ := Option.map_eq_some_iff.1 h
      simp only [Prod.mk.injEq] at hk
      exact hk.2 ▸ (List.dropWhile_sublist _).length_le
    · simp at h
  all_goals
    simp only [Option.some.injEq, Prod.mk.injEq] at h
    simp [h.2]

/-- The tokens of a JSON text, if it is made of tokens. -/
def lex (t : Text) : Option (List Token) :=
  match _ : t.dropWhile isSpace with
  | [] => some []
  | c :: rest =>
    match _ : read? c rest with
    | none => none
    | some (token, after) => (lex after).map (token :: ·)
termination_by t.length
decreasing_by
  have hread := length_le_of_read? ‹_›
  have hdrop := (List.dropWhile_sublist isSpace (l := t)).length_le
  simp only [*, List.length_cons] at hdrop
  omega

end Token

end Json

end PromptTemplate
