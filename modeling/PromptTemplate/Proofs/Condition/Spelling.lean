import PromptTemplate.Condition.Reading
import PromptTemplate.Proofs.Nesting.Words

/-!
# Spelling conditions

A condition is written as words with single spaces between them. Parentheses
stand where `or`, then `and`, then `not` bind too loosely and where a connective
would group to the right; they may also stand where nothing demands them. A
parenthesised condition is one word, so no keyword in it is a word of the whole.
-/

namespace PromptTemplate

namespace Condition

/-- The words that no path begins with. -/
def reserved : List Text := ["and", "or", "not", "in", "is"].map String.toList

/-- A root and its attributes. -/
structure DottedName where
  root : Text
  attributes : List Text
  isName : ∀ name ∈ root :: attributes, Text.isIdentifier name = true
  notReserved : root ∉ reserved

/-- The names with dots between them. -/
def DottedName.text (p : DottedName) : Text := ['.'].intercalate (p.root :: p.attributes)

/-- A literal that needs no escapes. -/
structure QuotedText where
  quote : Char
  body : Text
  isQuote : Nesting.isQuote quote = true
  unescaped : ∀ c ∈ body, c ≠ quote ∧ c ≠ '\\'

/-- The body between its quotes. -/
def QuotedText.text (q : QuotedText) : Text := q.quote :: (q.body ++ [q.quote])

/-- A side of a comparison, or a condition of its own. -/
inductive Operand where
  | name (p : DottedName)
  | quoted (q : QuotedText)

/-- The text of an operand. -/
def Operand.text : Operand → Text
  | .name p => p.text
  | .quoted q => q.text

/-- The reserved words are keywords. -/
theorem isKeyword_of_mem_reserved : ∀ w ∈ reserved, Nesting.IsKeyword w := by decide

theorem isKeyword_not : Nesting.IsKeyword "not".toList := by decide

theorem isKeyword_in : Nesting.IsKeyword "in".toList := by decide

/-- The comparisons of two operands, as they are written. -/
inductive Comparison where
  | equal
  | unequal
  | member
  | notMember

/-- The words between the operands. -/
def Comparison.words : Comparison → List Text
  | .equal => ["==".toList]
  | .unequal => ["!=".toList]
  | .member => ["in".toList]
  | .notMember => ["not".toList, "in".toList]

/-- What a comparison stands for. -/
def Comparison.condition (left right : Text) : Comparison → Condition
  | .equal => .binary .equal (.literal left) (.literal right)
  | .unequal => .binary .unequal (.literal left) (.literal right)
  | .member => .binary .member (.literal left) (.literal right)
  | .notMember => .not (.binary .member (.literal left) (.literal right))

/-- The tests of a path, as they are written. -/
inductive Test where
  | isDefined
  | isNotDefined
  | isNotNone
  | isNone

/-- The words behind the path. -/
def Test.words : Test → List Text
  | .isDefined => ["is".toList, "defined".toList]
  | .isNotDefined => ["is".toList, "not".toList, "defined".toList]
  | .isNotNone => ["is".toList, "not".toList, "none".toList]
  | .isNone => ["is".toList, "none".toList]

/-- What a test stands for. -/
def Test.condition (name : Text) : Test → Condition
  | .isDefined => .isDefined name
  | .isNotDefined => .not (.isDefined name)
  | .isNotNone => .isNotNone name
  | .isNone => .not (.isNotNone name)

/-- The connectives of conditions. -/
inductive Joiner where
  | or
  | and
  deriving DecidableEq

/-- The word between the conditions. -/
def Joiner.text : Joiner → Text
  | .or => "or".toList
  | .and => "and".toList

/-- The operator of the joined condition. -/
def Joiner.connective : Joiner → Connective
  | .or => .or
  | .and => .and

/-- The word of a connective is a keyword. -/
theorem isKeyword_joiner (j : Joiner) : Nesting.IsKeyword j.text := by
  cases j <;> decide

/-- How tightly a connective binds. -/
def Joiner.level : Joiner → Nat
  | .or => 0
  | .and => 1

/-- Connectives bind more loosely than a negation. -/
theorem Joiner.level_le (j : Joiner) : j.level ≤ 1 := by
  cases j <;> decide

/-- A condition as it is written. A group is a pair of parentheses that nothing demands. -/
inductive Spelling where
  | literal (o : Operand)
  | compare (c : Comparison) (left right : Operand)
  | test (t : Test) (p : DottedName)
  | not (child : Spelling)
  | join (j : Joiner) (left right : Spelling)
  | group (inner : Spelling)

namespace Spelling

/-- The condition that is written. -/
def condition : Spelling → Condition
  | literal o => .literal o.text
  | compare c left right => c.condition left.text right.text
  | test t p => t.condition p.text
  | not child => .not child.condition
  | join j left right => .binary j.connective left.condition right.condition
  | group inner => inner.condition

/-- How tightly the outermost operator binds: `or`, `and`, `not`, then everything else. -/
def level : Spelling → Nat
  | join j _ _ => j.level
  | not _ => 2
  | _ => 3

/-- Words in parentheses. -/
def parens (ws : List Text) : Text := '(' :: (Nesting.unwords ws ++ [')'])

/-- The words of a part, in parentheses if the part binds more loosely than needed. -/
def guarded (needed level : Nat) (ws : List Text) : List Text :=
  if level < needed then [parens ws] else ws

/-- The words of a condition. On the left of a connective the same connective may stand as
it is, on the right only what binds more tightly. -/
def words : Spelling → List Text
  | literal o => [o.text]
  | compare c left right => left.text :: (c.words ++ [right.text])
  | test t p => p.text :: t.words
  | not child => "not".toList :: guarded 2 child.level child.words
  | join j left right =>
    guarded j.level left.level left.words ++
      j.text :: guarded (j.level + 1) right.level right.words
  | group inner => [parens inner.words]

/-- The text of a condition. -/
def text (s : Spelling) : Text := Nesting.unwords s.words

/-- Parentheses stand where a disjunction is negated, and nowhere else. -/
example :
    let a : DottedName := ⟨"a".toList, ["b".toList], by decide, by decide⟩
    let c : DottedName := ⟨"c".toList, [], by decide, by decide⟩
    (join .and (.not (.join .or (.literal (.name a)) (.test .isNone c)))
      (.compare .notMember (.name a) (.name c))).text =
        "not (a.b or c is none) and a.b not in c".toList := by decide

/-- A part as it is written where a level is needed. -/
def within (needed : Nat) (s : Spelling) : Spelling :=
  if s.level < needed then .group s else s

theorem words_within (needed : Nat) (s : Spelling) :
    (s.within needed).words = guarded needed s.level s.words := by
  unfold within guarded
  split <;> rfl

theorem condition_within (needed : Nat) (s : Spelling) :
    (s.within needed).condition = s.condition := by
  unfold within
  split <;> rfl

/-- A part binds as tightly as needed. -/
theorem le_level_within {needed : Nat} (h : needed ≤ 3) (s : Spelling) :
    needed ≤ (s.within needed).level := by
  unfold within
  split
  · exact h
  · next hlevel => exact Nat.le_of_not_lt hlevel

end Spelling

/-!
### Operands
-/

/-- Names with dots between them are made of characters of names, and dots. -/
theorem char_of_mem_dotted {names : List Text}
    (hnames : ∀ name ∈ names, Text.isIdentifier name = true) {c : Char}
    (h : c ∈ ['.'].intercalate names) : Text.isNameChar c = true ∨ c = '.' := by
  rcases Text.mem_intercalate h with hdot | ⟨name, hname, hc⟩
  · exact .inr hdot
  · exact .inl (Text.isNameChar_of_isIdentifier (hnames name hname) c hc)

/-- The text of a path is made of characters of names, and dots. -/
theorem DottedName.char_of_mem {p : DottedName} {c : Char} (h : c ∈ p.text) :
    Text.isNameChar c = true ∨ c = '.' := char_of_mem_dotted p.isName h

/-- A path is made of plain characters. -/
theorem DottedName.isPlain_of_mem {p : DottedName} {c : Char} (h : c ∈ p.text) :
    Nesting.isPlain c = true := by
  rcases char_of_mem h with hc | rfl
  · exact Nesting.isPlain_of_isNameChar hc
  · decide

theorem DottedName.text_ne_nil (p : DottedName) : p.text ≠ [] :=
  Text.intercalate_ne_nil (Text.ne_nil_of_isIdentifier (p.isName p.root List.mem_cons_self)) _ _

/-- A path is made like a keyword. -/
theorem DottedName.isKeyword_text (p : DottedName) : Nesting.IsKeyword p.text :=
  ⟨p.text_ne_nil, List.all_eq_true.2 fun _ hc => p.isPlain_of_mem hc⟩

/-- A path is none of the reserved words. -/
theorem DottedName.text_not_reserved (p : DottedName) : p.text ∉ reserved := by
  cases hattributes : p.attributes with
  | nil =>
    rw [text, hattributes, List.intercalate_singleton]
    exact p.notReserved
  | cons name names =>
    have hdot : '.' ∈ p.text := by
      rw [text, hattributes, List.intercalate_cons_cons]
      simp
    have hreserved : ∀ w ∈ reserved, '.' ∉ w := by decide
    exact fun h => hreserved _ h hdot

/-- A literal does not end with a word. -/
theorem QuotedText.isSuffixOf?_text (q : QuotedText) {last : Text} {c : Char}
    (hlast : last.getLast? = some c) (hc : Nesting.isQuote c = false) :
    last.isSuffixOf? q.text = none := by
  refine Text.isSuffixOf?_eq_none hlast ?_
  rw [text, ← List.cons_append, List.getLast?_concat]
  intro h
  rw [← Option.some.inj h, q.isQuote] at hc
  cases hc

/-- The characters that signs of comparisons begin with. -/
def IsSign (m : Char) : Prop := m = '=' ∨ m = '!'

theorem IsSign.ne_space {m : Char} (h : IsSign m) : m ≠ ' ' := by
  rcases h with rfl | rfl
  · decide
  · decide

namespace Operand

/-- An operand is a word. -/
theorem isWord (o : Operand) : Nesting.IsWord o.text := by
  cases o with
  | name p => exact p.isKeyword_text.isWord
  | quoted q => exact Nesting.isWord_literal q.isQuote q.unescaped

theorem text_ne_nil (o : Operand) : o.text ≠ [] := by
  obtain ⟨c, hc, -⟩ := o.isWord.first
  intro h
  rw [h] at hc
  cases hc

/-- An operand is trimmed. -/
theorem trim_text (o : Operand) : Text.trim o.text = o.text := o.isWord.trim

/-- An operand is none of the reserved words. -/
theorem text_not_reserved (o : Operand) : o.text ∉ reserved := by
  cases o with
  | name p => exact p.text_not_reserved
  | quoted q =>
    intro h
    have hplain := (isKeyword_of_mem_reserved _ h).plain q.quote List.mem_cons_self
    rw [(Nesting.isPlain_of_isQuote q.isQuote).1] at hplain
    cases hplain

/-- An operand is no group. -/
theorem stripParens?_text (o : Operand) : Nesting.stripParens? o.text = none := by
  have hfirst : o.text.head? ≠ some '(' := by
    intro h
    cases o with
    | name p => exact absurd (p.isPlain_of_mem (List.mem_of_head? h)) (by decide)
    | quoted q =>
      have hquote := q.isQuote
      rw [Option.some.inj h] at hquote
      cases hquote
  cases htext : o.text with
  | nil => rfl
  | cons c t =>
    rw [Nesting.stripParens?, if_neg]
    rintro ⟨rfl, -⟩
    exact hfirst (by rw [htext]; rfl)

/-- An operand does not end with a blank and more words. -/
theorem isSuffixOf?_text (o : Operand) {last : Text} {c : Char} (hblank : ' ' ∈ last)
    (hlast : last.getLast? = some c) (hc : Nesting.isQuote c = false) :
    last.isSuffixOf? o.text = none := by
  cases h : last.isSuffixOf? o.text with
  | none => rfl
  | some before =>
    have htext := (List.append_eq_of_isSuffixOf?_eq_some h).symm
    cases o with
    | name p =>
      have hmem : ' ' ∈ p.text := by
        rw [text] at htext
        rw [htext]
        exact List.mem_append_right before hblank
      exact absurd (p.isPlain_of_mem hmem) (by decide)
    | quoted q =>
      have hnone := q.isSuffixOf?_text hlast hc
      rw [text, hnone] at h
      cases h

/-- A blank does not stand before a word at the end of an operand. -/
theorem getLast?_of_isSuffixOf? (o : Operand) {last before : Text} {c : Char}
    (hlast : last.getLast? = some c) (hc : Nesting.isQuote c = false)
    (h : last.isSuffixOf? o.text = some before) : before.getLast?.any Text.isBlank = false := by
  cases o with
  | name p => exact p.isKeyword_text.getLast?_of_isSuffixOf? h
  | quoted q =>
    have hnone := q.isSuffixOf?_text hlast hc
    rw [text, hnone] at h
    cases h

/-- An operand shows characters of names and points, or one quote. -/
theorem char_of_mem_visible (o : Operand) {c : Char}
    (hc : c ∈ Nesting.State.start.visible o.text) :
    Text.isNameChar c = true ∨ c ∈ ['.', '\'', '"'] := by
  cases o with
  | name p =>
    have hvisible := (Nesting.scan_plain fun c hc => p.isPlain_of_mem hc).2
    rw [text, hvisible] at hc
    exact (p.char_of_mem hc).imp_right fun hdot => List.mem_cons.2 (.inl hdot)
  | quoted q =>
    rw [text, QuotedText.text, Nesting.visible_literal q.isQuote q.unescaped,
      List.mem_singleton] at hc
    rcases Nesting.eq_of_isQuote q.isQuote with hquote | hquote
    · exact .inr (by rw [hc, hquote]; decide)
    · exact .inr (by rw [hc, hquote]; decide)

/-- An operand shows no sign of a comparison. -/
theorem not_mem_visible (o : Operand) {m : Char} (hm : IsSign m) :
    m ∉ Nesting.State.start.visible o.text := by
  intro h
  have hchar := o.char_of_mem_visible h
  rcases hm with rfl | rfl
  · exact absurd hchar (by decide)
  · exact absurd hchar (by decide)

end Operand

/-!
### Words of conditions
-/

namespace Spelling

theorem words_ne_nil (s : Spelling) : s.words ≠ [] := by
  cases s with
  | literal o => exact List.cons_ne_nil _ _
  | compare c left right => exact List.cons_ne_nil _ _
  | test t p => exact List.cons_ne_nil _ _
  | not child => exact List.cons_ne_nil _ _
  | join j left right => exact List.append_ne_nil_of_right_ne_nil _ (List.cons_ne_nil _ _)
  | group inner => exact List.cons_ne_nil _ _

/-- Guarding a part keeps its words words. -/
theorem isWord_of_mem_guarded {ws : List Text} (h : ∀ w ∈ ws, Nesting.IsWord w)
    (needed level : Nat) : ∀ w ∈ guarded needed level ws, Nesting.IsWord w := by
  unfold guarded
  split
  · intro w hw
    rw [List.mem_singleton.1 hw]
    exact Nesting.isWord_group (Nesting.isBalanced_unwords h)
  · exact h

/-- A condition is written in words. -/
theorem isWord_of_mem_words (s : Spelling) : ∀ w ∈ s.words, Nesting.IsWord w := by
  induction s with
  | literal o =>
    intro w hw
    rw [List.mem_singleton.1 hw]
    exact o.isWord
  | compare c left right =>
    have hsign : ∀ w ∈ c.words, Nesting.IsKeyword w := by cases c <;> decide
    intro w hw
    simp only [words, List.mem_cons, List.mem_append, List.not_mem_nil, or_false] at hw
    rcases hw with rfl | hw | rfl
    · exact left.isWord
    · exact (hsign w hw).isWord
    · exact right.isWord
  | test t p =>
    have htest : ∀ w ∈ t.words, Nesting.IsKeyword w := by cases t <;> decide
    intro w hw
    rcases List.mem_cons.1 hw with rfl | hw
    · exact (Operand.name p).isWord
    · exact (htest w hw).isWord
  | not child ih =>
    intro w hw
    rcases List.mem_cons.1 hw with rfl | hw
    · exact isKeyword_not.isWord
    · exact isWord_of_mem_guarded ih 2 child.level w hw
  | join j left right ihl ihr =>
    intro w hw
    simp only [words, List.mem_append, List.mem_cons] at hw
    rcases hw with hw | rfl | hw
    · exact isWord_of_mem_guarded ihl _ _ w hw
    · exact (isKeyword_joiner j).isWord
    · exact isWord_of_mem_guarded ihr _ _ w hw
  | group inner ih =>
    intro w hw
    rw [List.mem_singleton.1 hw]
    exact Nesting.isWord_group (Nesting.isBalanced_unwords ih)

/-- A part in parentheses is no connective. -/
theorem joiner_ne_parens (j : Joiner) (ws : List Text) : j.text ≠ parens ws := by
  intro h
  cases j with
  | or => cases (List.cons.inj h).1
  | and => cases (List.cons.inj h).1

/-- An operand is no connective. -/
theorem joiner_ne_operand (j : Joiner) (o : Operand) : j.text ≠ o.text := by
  have hreserved : j.text ∈ reserved := by cases j <;> decide
  intro h
  exact o.text_not_reserved (h ▸ hreserved)

/-- The word of a connective is not among the words of a part that has to bind more
tightly. -/
theorem joiner_not_mem_guarded {j : Joiner} {ws : List Text} {needed level : Nat}
    (h : needed ≤ level → j.text ∉ ws) : j.text ∉ guarded needed level ws := by
  unfold guarded
  split
  · intro hmem
    exact joiner_ne_parens j ws (List.mem_singleton.1 hmem)
  · next hlevel => exact h (Nat.le_of_not_lt hlevel)

/-- The word of a connective is not among the words of a condition that binds more tightly:
where it occurs inside, it is in parentheses. -/
theorem joiner_not_mem_words (j : Joiner) (s : Spelling) (h : j.level < s.level) :
    j.text ∉ s.words := by
  induction s with
  | literal o =>
    intro hmem
    exact joiner_ne_operand j o (List.mem_singleton.1 hmem)
  | compare c left right =>
    have hsign : j.text ∉ c.words := by cases j <;> cases c <;> decide
    intro hmem
    simp only [words, List.mem_cons, List.mem_append, List.not_mem_nil, or_false] at hmem
    rcases hmem with hmem | hmem | hmem
    · exact joiner_ne_operand j left hmem
    · exact hsign hmem
    · exact joiner_ne_operand j right hmem
  | test t p =>
    have htest : j.text ∉ t.words := by cases j <;> cases t <;> decide
    intro hmem
    rcases List.mem_cons.1 hmem with hmem | hmem
    · exact joiner_ne_operand j (.name p) hmem
    · exact htest hmem
  | not child ih =>
    have hnot : j.text ≠ "not".toList := by cases j <;> decide
    intro hmem
    rcases List.mem_cons.1 hmem with hmem | hmem
    · exact hnot hmem
    · exact joiner_not_mem_guarded (fun hle => ih (Nat.lt_of_lt_of_le h hle)) hmem
  | join k left right ihl ihr =>
    have hlevel : j.level < k.level := h
    have hne : j.text ≠ k.text := by
      intro he
      cases j <;> cases k <;> first | exact absurd hlevel (by decide) | exact absurd he (by decide)
    intro hmem
    simp only [words, List.mem_append, List.mem_cons] at hmem
    rcases hmem with hmem | hmem | hmem
    · exact joiner_not_mem_guarded (fun hle => ihl (Nat.lt_of_lt_of_le hlevel hle)) hmem
    · exact hne hmem
    · exact joiner_not_mem_guarded (fun hle => ihr (by omega)) hmem
  | group inner ih =>
    intro hmem
    exact joiner_ne_parens j inner.words (List.mem_singleton.1 hmem)

end Spelling

end Condition

end PromptTemplate
