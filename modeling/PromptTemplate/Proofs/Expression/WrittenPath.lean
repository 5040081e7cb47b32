import PromptTemplate.Proofs.Expression.Parts
import PromptTemplate.Proofs.Expression.PathText

/-!
# Paths as they are written

A step without an operand has many spellings. A key is quoted in either kind of
quotes, or stands behind a point if it is a name; an index and the bounds of a
slice are written in decimal; and blanks may stand inside every bracket.
Whatever the spelling, a path is read back as the steps that were written.
-/

namespace PromptTemplate

/-- A run of blanks. -/
abbrev Blanks := {t : Text // ∀ c ∈ t, Text.isBlank c = true}

/-- No blank at all. -/
def Blanks.none : Blanks := ⟨[], fun _ h => absurd h List.not_mem_nil⟩

/-- A single space. -/
def Blanks.space : Blanks := ⟨[' '], List.forall_mem_singleton.2 (by decide)⟩

/-- A step as it is written. Blanks stand at the two ends of a bracket, and around the
colon of a slice. -/
inductive WrittenStep where
  | dotted (name : Text) (isName : Text.isIdentifier name = true)
  | quoted (key : Text) (quote : Char) (isQuote : Nesting.isQuote quote = true)
      (before after : Blanks)
  | index (i : Int) (isWord : Text.isWord i = true) (before after : Blanks)
  | slice (start? stop? : Option Int) (startIsWord : start?.all Text.isWord = true)
      (stopIsWord : stop?.all Text.isWord = true) (before left right after : Blanks)

namespace WrittenStep

/-- A bracket around an inside with blanks at its ends. -/
def bracket (before inside after : Text) : Text := '[' :: (before ++ (inside ++ after) ++ [']'])

/-- A bound in decimal, nothing for a missing one. -/
def boundText (bound? : Option Int) : Text := bound?.elim [] Text.ofInt

/-- Two bounds and the colon between them. -/
def boundsText (start? stop? : Option Int) (left right : Text) : Text :=
  boundText start? ++ left ++ ':' :: (right ++ boundText stop?)

/-- The text of a step. -/
def text : WrittenStep → Text
  | dotted name _ => '.' :: name
  | quoted key quote _ before after => bracket before (Literal.write quote key) after
  | index i _ before after => bracket before (Text.ofInt i) after
  | slice start? stop? _ _ before left right after =>
    bracket before (boundsText start? stop? left right) after

/-- The step that is written. -/
def step {ε : Type} : WrittenStep → Step ε
  | dotted name _ => .key name
  | quoted key _ _ _ _ => .key key
  | index i _ _ _ => .index i
  | slice start? stop? _ _ _ _ _ _ => .slice start? stop?

end WrittenStep

/-- A key with a quote and a bracket in it, then a slice. -/
example :
    (WrittenStep.quoted "it's]".toList '\'' rfl .space .none).text ++
      (WrittenStep.slice none (some (-1)) rfl rfl .none .none .space .none).text =
        "[ 'it\\'s]'][: -1]".toList := by decide +kernel

/-!
### Insides of brackets
-/

/-- Integers are written with plain characters. -/
theorem isPlain_of_mem_ofInt {i : Int} {c : Char} (h : c ∈ Text.ofInt i) :
    Nesting.isPlain c = true := by
  rcases Text.char_of_mem_ofInt h with hdigit | rfl
  · exact Nesting.isPlain_of_isNameChar (by simp [Text.isNameChar, Char.isAlphanum, hdigit])
  · decide

/-- An integer is made like a keyword. -/
theorem isKeyword_ofInt (i : Int) : Nesting.IsKeyword (Text.ofInt i) :=
  ⟨Text.ofInt_ne_nil i, List.all_eq_true.2 fun _ => isPlain_of_mem_ofInt⟩

namespace WrittenStep

/-- Bounds are written with plain characters. -/
theorem isPlain_of_mem_boundText {bound? : Option Int} {c : Char} (h : c ∈ boundText bound?) :
    Nesting.isPlain c = true := by
  cases bound? with
  | none => cases h
  | some i => exact isPlain_of_mem_ofInt h

/-- A bound is trimmed. -/
theorem trim_boundText (bound? : Option Int) :
    Text.trim (boundText bound?) = boundText bound? :=
  Text.trim_of_no_blank fun _ hc => Nesting.not_blank_of_isPlain (isPlain_of_mem_boundText hc)

/-- There is no colon in a bound. -/
theorem colon_not_mem_boundText (bound? : Option Int) : ':' ∉ boundText bound? := by
  intro h
  cases bound? with
  | none => cases h
  | some i => exact absurd (Text.char_of_mem_ofInt h) (by decide)

/-- Bounds and the blanks beside the colon neither open, close nor quote. -/
theorem nesting_of_mem_boundsText {start? stop? : Option Int} {left right : Blanks} {c : Char}
    (h : c ∈ boundsText start? stop? left right) :
    Nesting.isQuote c = false ∧ Nesting.isOpener c = false ∧ Nesting.isCloser c = false := by
  simp only [boundsText, List.mem_append, List.mem_cons] at h
  rcases h with (h | h) | rfl | h | h
  · exact Nesting.nesting_of_isPlain (isPlain_of_mem_boundText h)
  · exact Nesting.nesting_of_isBlank (left.2 c h)
  · decide
  · exact Nesting.nesting_of_isBlank (right.2 c h)
  · exact Nesting.nesting_of_isPlain (isPlain_of_mem_boundText h)

/-- Blanks around the bounds do not survive trimming, those beside the colon do. -/
theorem trim_boundsText (start? stop? : Option Int) (left right : Text) :
    Text.trim (boundsText start? stop? left right) =
      Text.trimStart (boundText start? ++ left) ++
        ':' :: Text.trimEnd (right ++ boundText stop?) :=
  Text.trim_append_cons (by decide) _ _

end WrittenStep

namespace Step

open WrittenStep

/-- A literal inside a bracket is a key. -/
theorem ofGroup?_write {quote : Char} (hq : Nesting.isQuote quote = true) (key : Text) :
    ofGroup? (Literal.write quote key) = some (.key key) := by
  rw [ofGroup?, if_neg (by simp [Literal.write]), Literal.read?_write hq]

/-- A number inside a bracket is an index. -/
theorem ofGroup?_ofInt {i : Int} (hi : Text.isWord i = true) :
    ofGroup? (Text.ofInt i) = some (.index i) := by
  have hliteral : Literal.read? (Text.ofInt i) = none := by
    refine Literal.read?_eq_none fun c hc => ?_
    exact (Nesting.nesting_of_isPlain (isPlain_of_mem_ofInt (List.mem_of_head? hc))).1
  rw [ofGroup?, if_neg (Text.ofInt_ne_nil i), hliteral, Text.readInt?_ofInt hi]

/-- A bound is read with blanks on either side. -/
theorem readBound?_boundText {bound? : Option Int} (hword : bound?.all Text.isWord = true)
    {t : Text} (ht : Text.trim t = boundText bound?) : readBound? t = some bound? := by
  cases bound? with
  | none => rw [readBound?, ht]; rfl
  | some i =>
    have hread : (Text.readInt? (Text.ofInt i)).map some = some (some i) := by
      rw [Text.readInt?_ofInt hword]
      rfl
    rw [readBound?, ht]
    split
    · next hnil => exact absurd hnil (Text.ofInt_ne_nil i)
    · exact hread

/-- Two bounds inside a bracket are a slice. -/
theorem ofGroup?_boundsText {start? stop? : Option Int} (hstart : start?.all Text.isWord = true)
    (hstop : stop?.all Text.isWord = true) (left right : Blanks) :
    ofGroup? (Text.trim (boundsText start? stop? left right)) = some (.slice start? stop?) := by
  have htrim := trim_boundsText start? stop? left right
  have hcolon : ':' ∈ Text.trim (boundsText start? stop? left right) := by
    rw [htrim]
    exact List.mem_append_right _ List.mem_cons_self
  have hliteral : Literal.read? (Text.trim (boundsText start? stop? left right)) = none := by
    refine Literal.read?_eq_none fun c hc => ?_
    have hmem := (Text.trim_isInfix _).subset (List.mem_of_head? hc)
    exact (nesting_of_mem_boundsText hmem).1
  have hinteger : Text.readInt? (Text.trim (boundsText start? stop? left right)) = none :=
    Text.readInt?_eq_none hcolon (by decide) (by decide) (by decide)
  have hbreak : Text.breakOn [':'] (Text.trim (boundsText start? stop? left right)) =
      some (Text.trimStart (boundText start? ++ left),
        Text.trimEnd (right ++ boundText stop?)) := by
    rw [htrim]
    refine Text.breakOn_singleton (fun hmem => ?_) _
    rcases List.mem_append.1 ((List.dropWhile_sublist _).subset hmem) with h | h
    · exact colon_not_mem_boundText start? h
    · exact absurd (left.2 ':' h) (by decide)
  have hfirst : readBound? (Text.trimStart (boundText start? ++ left)) = some start? := by
    refine readBound?_boundText hstart ?_
    rw [Text.trim_trimStart, Text.trim_append_blanks left.2, trim_boundText]
  have hsecond : readBound? (Text.trimEnd (right ++ boundText stop?)) = some stop? := by
    refine readBound?_boundText hstop ?_
    rw [Text.trim_trimEnd, Text.trim_blanks_append right.2, trim_boundText]
  rw [ofGroup?, if_neg (List.ne_nil_of_mem hcolon), hliteral, hinteger, hbreak]
  simp only [hfirst, hsecond]
  rfl

end Step

/-!
### Whole paths
-/

/-- A bracket is a group whatever blanks stand at its ends. -/
theorem StepText.bracket (before after : Blanks) {inside : Text} {step : Step Text}
    (hbalanced : Nesting.isBalanced inside = true)
    (hstep : Step.ofGroup? (Text.trim inside) = some step) :
    StepText (WrittenStep.bracket before inside after) step := by
  refine .group ?_ ?_
  · exact Nesting.isBalanced_append (Nesting.isBalanced_blanks before.2)
      (Nesting.isBalanced_append hbalanced (Nesting.isBalanced_blanks after.2))
  · rw [Text.trim_blanks_append before.2, Text.trim_append_blanks after.2, hstep]

/-- A step is read as what was written, whatever its spelling. -/
theorem WrittenStep.stepText (w : WrittenStep) : StepText w.text w.step := by
  cases w with
  | dotted name hname =>
    have hkey : Step.ofAttribute name = .key name := by
      rw [Step.ofAttribute, Text.readInt?_of_isIdentifier hname]
    have hdotted := StepText.dotted (Text.ne_nil_of_isIdentifier hname)
      (Text.isNameChar_of_isIdentifier hname)
    rwa [hkey] at hdotted
  | quoted key quote hq before after =>
    have hstep : Step.ofGroup? (Text.trim (Literal.write quote key)) = some (.key key) := by
      rw [(Nesting.isWord_write hq key).trim, Step.ofGroup?_write hq]
    exact .bracket before after (Nesting.isBalanced_write hq key) hstep
  | index i hi before after =>
    have hword := (isKeyword_ofInt i).isWord
    have hstep : Step.ofGroup? (Text.trim (Text.ofInt i)) = some (.index i) := by
      rw [hword.trim, Step.ofGroup?_ofInt hi]
    exact .bracket before after hword.balanced hstep
  | slice start? stop? hstart hstop before left right after =>
    have hstep := Step.ofGroup?_boundsText hstart hstop left right
    have hbalanced : Nesting.isBalanced (boundsText start? stop? left right) = true :=
      (Nesting.scan_neutral fun c hc => nesting_of_mem_boundsText hc).1
    exact .bracket before after hbalanced hstep

/-- Written steps in a row. -/
theorem WrittenStep.stepsText (ws : List WrittenStep) :
    StepsText (ws.flatMap text) (ws.map step) := by
  induction ws with
  | nil => exact .nil
  | cons w ws ih => exact .cons w.stepText ih

/-- The text of a path with a written root. -/
def pathText (root : Text) (ws : List WrittenStep) : Text := root ++ ws.flatMap WrittenStep.text

/-- A written path is the text of its root and its steps. -/
theorem PathText.pathText {root : Text} (hroot : Text.isIdentifier root = true)
    (ws : List WrittenStep) :
    PathText (pathText root ws) ⟨root, ws.map WrittenStep.step⟩ :=
  (PathText.root hroot).append (WrittenStep.stepsText ws)

end PromptTemplate
