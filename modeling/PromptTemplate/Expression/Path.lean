import PromptTemplate.Nesting.Group
import PromptTemplate.Nesting.Literal
import PromptTemplate.Text.Blank
import PromptTemplate.Text.Integer

/-!
# Paths

A path is a name followed by steps: attributes behind a point and groups in
square brackets. A group holds a quoted key, an integer, two slice bounds, or
else an expression whose value selects. Reading a path leaves that expression as
text, always shorter than the path.
-/

namespace PromptTemplate

/-- One step of a path, with operands of type `ε`. -/
inductive Step (ε : Type) where
  | key (key : Text)
  | index (index : Int)
  | slice (start? stop? : Option Int)
  /-- The value of the operand selects. -/
  | dynamic (operand : ε)
  deriving DecidableEq, Repr

/-- A name and the steps from its value. -/
structure Path (ε : Type) where
  root : Text
  steps : List (Step ε)
  deriving DecidableEq, Repr

/-- The operands of a step. -/
def Step.operands {ε : Type} : Step ε → List ε
  | .dynamic operand => [operand]
  | _ => []

/-- The operands of a path. -/
def Path.operands {ε : Type} (p : Path ε) : List ε := p.steps.flatMap Step.operands

namespace Step

/-- A slice bound: nothing, or an integer. -/
def readBound? (t : Text) : Option (Option Int) :=
  match Text.trim t with
  | [] => some none
  | bound => (Text.readInt? bound).map some

/-- The step of an attribute: digits name an index, anything else a key. -/
def ofAttribute (name : Text) : Step Text :=
  match Text.readInt? name with
  | some i => .index i
  | none => .key name

/-- The step of a bracketed group with a trimmed inside. -/
def ofGroup? (inside : Text) : Option (Step Text) :=
  if inside = [] then none
  else
    match Literal.read? inside, Text.readInt? inside, Text.breakOn [':'] inside with
    | some (_, name), _, _ => some (.key name)
    | none, some i, _ => some (.index i)
    | none, none, some (start, stop) => do return .slice (← readBound? start) (← readBound? stop)
    | none, none, none => some (.dynamic inside)

/-- The only operand that a group can have is its inside. -/
theorem eq_of_mem_operands_ofGroup? {inside e : Text} {step : Step Text}
    (h : ofGroup? inside = some step) (he : e ∈ step.operands) : e = inside := by
  unfold ofGroup? at h
  split at h
  · simp at h
  · split at h
    · simp only [Option.some.injEq] at h
      simp [← h, operands] at he
    · simp only [Option.some.injEq] at h
      simp [← h, operands] at he
    · obtain ⟨a, _, hk⟩ := Option.bind_eq_some_iff.1 h
      obtain ⟨b, _, hs⟩ := Option.bind_eq_some_iff.1 hk
      simp only [Option.pure_def, Option.some.injEq] at hs
      simp [← hs, operands] at he
    · simp only [Option.some.injEq] at h
      simpa [← h, operands] using he

/-- Reads steps to the end of a text. -/
def readAll? (t : Text) : Option (List (Step Text)) :=
  match t with
  | [] => some []
  | '.' :: rest =>
    match rest.takeWhile Text.isNameChar with
    | [] => none
    | name => (readAll? (rest.dropWhile Text.isNameChar)).map (ofAttribute name :: ·)
  | '[' :: rest =>
    match _ : Nesting.closeIndex rest with
    | none => none
    | some (inside, after) => do
      let step ← ofGroup? (Text.trim inside)
      return step :: (← readAll? after)
  | _ => none
termination_by t.length
decreasing_by
  · have := (List.dropWhile_sublist Text.isNameChar (l := rest)).length_le
    simp only [List.length_cons]
    omega
  · have hrest := congrArg List.length (Nesting.eq_of_closeIndex ‹Nesting.closeIndex rest = _›)
    simp only [List.length_cons, List.length_append] at hrest ⊢
    omega

/-- An attribute has no operand. -/
theorem operands_ofAttribute (name : Text) : (ofAttribute name).operands = [] := by
  unfold ofAttribute
  split <;> rfl

/-- Operands are shorter than the text of the steps. -/
theorem length_lt_of_readAll? {t e : Text} {steps : List (Step Text)}
    (h : readAll? t = some steps) (he : e ∈ steps.flatMap operands) : e.length < t.length := by
  fun_induction readAll? t generalizing steps with
  | case1 =>
    simp only [Option.some.injEq] at h
    simp [← h] at he
  | case2 => simp at h
  | case3 rest _ ih =>
    obtain ⟨later, hl, hk⟩ := Option.map_eq_some_iff.1 h
    rw [← hk, List.flatMap_cons, operands_ofAttribute, List.nil_append] at he
    have hlt := ih hl he
    have := (List.dropWhile_sublist Text.isNameChar (l := rest)).length_le
    simp only [List.length_cons]
    omega
  | case4 => simp at h
  | case5 rest inside after hc ih =>
    obtain ⟨step, hs, hk⟩ := Option.bind_eq_some_iff.1 h
    obtain ⟨later, hl, hk⟩ := Option.bind_eq_some_iff.1 hk
    simp only [Option.pure_def, Option.some.injEq] at hk
    have hrest := congrArg List.length (Nesting.eq_of_closeIndex hc)
    simp only [List.length_append, List.length_cons] at hrest ⊢
    rw [← hk, List.flatMap_cons, List.mem_append] at he
    rcases he with he | he
    · have hlen := Text.length_trim_le inside
      rw [eq_of_mem_operands_ofGroup? hs he]
      omega
    · have := ih hl he
      omega
  | case6 => simp at h

end Step

namespace Path

/-- Reads a path from one end of a text to the other. -/
def read? (t : Text) : Option (Path Text) :=
  let root := t.takeWhile Text.isNameChar
  if Text.isIdentifier root then
    (Step.readAll? (t.dropWhile Text.isNameChar)).map fun steps => ⟨root, steps⟩
  else none

/-- Operands are shorter than the path. -/
theorem length_lt_of_read? {t e : Text} {p : Path Text} (h : read? t = some p)
    (he : e ∈ p.operands) : e.length < t.length := by
  simp only [read?] at h
  split at h
  · obtain ⟨steps, hs, hk⟩ := Option.map_eq_some_iff.1 h
    rw [← hk] at he
    have := Step.length_lt_of_readAll? hs he
    have := (List.dropWhile_sublist Text.isNameChar (l := t)).length_le
    omega
  · simp at h

end Path

end PromptTemplate
