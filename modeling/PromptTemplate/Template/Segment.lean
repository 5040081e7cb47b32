import PromptTemplate.Nesting.Split
import PromptTemplate.Text.Blank

/-!
# Segments

Template source is cut into raw text, comments, interpolations and block tags.
The cut never fails: an interpolation without an end runs on to the first plain
end mark or to the end of the source, a comment without an end swallows the
rest, and a block tag without an end is a segment of its own that ends the list.
-/

namespace PromptTemplate

/-- The dashes of a marker: right behind its start and right before its end. -/
structure Dashes where
  opening : Bool
  closing : Bool
  deriving DecidableEq, Repr

/-- A piece of template source. -/
inductive Segment where
  | raw (text : Text)
  | comment (dashes : Dashes)
  | interpolation (dashes : Dashes) (content : Text)
  | block (dashes : Dashes) (content : Text)
  /-- A block tag without an end, with the rest of the source from its start on. -/
  | unclosed (rest : Text)
  deriving DecidableEq, Repr

namespace Segment

/-- The segment's marker has a dash at its start. -/
def opensWithDash : Segment → Bool
  | .comment dashes => dashes.opening
  | .interpolation dashes _ => dashes.opening
  | .block dashes _ => dashes.opening
  | _ => false

/-- The segment's marker has a dash before its end. -/
def closesWithDash : Segment → Bool
  | .comment dashes => dashes.closing
  | .interpolation dashes _ => dashes.closing
  | .block dashes _ => dashes.closing
  | _ => false

/-- Whether a marker starts here. -/
def startsMarker : Text → Bool
  | '{' :: c :: _ => c == '{' || c == '%' || c == '#'
  | _ => false

/-- Raw text up to the next marker, and the rest. -/
def spanRaw : Text → Text × Text
  | [] => ([], [])
  | c :: rest =>
    if startsMarker (c :: rest) then ([], c :: rest)
    else (c :: (spanRaw rest).1, (spanRaw rest).2)

/-- The raw text and the rest make the source whole again. -/
theorem spanRaw_append (t : Text) : (spanRaw t).1 ++ (spanRaw t).2 = t := by
  induction t with
  | nil => rfl
  | cons c rest ih =>
    unfold spanRaw
    split
    · rfl
    · simp [ih]

/-- Takes the dash behind the start of a marker. -/
def openDash : Text → Bool × Text
  | '-' :: rest => (true, rest)
  | rest => (false, rest)

theorem length_openDash_le (t : Text) : (openDash t).2.length ≤ t.length := by
  unfold openDash
  split <;> simp

/-- Takes the dash before the end of a marker and trims what remains. -/
def closeDash (content : Text) : Bool × Text :=
  match ['-'].isSuffixOf? (Text.trimEnd content) with
  | some before => (true, Text.trim before)
  | none => (false, Text.trim content)

/-- The content of an interpolation and the rest: up to the end mark at the top level,
else up to the first end mark, else everything. -/
def breakInterpolation (t : Text) : Text × Text :=
  ((Nesting.breakAt ['}', '}'] t).or (Text.breakOn ['}', '}'] t)).getD (t, [])

/-- The rest behind an interpolation is no longer than what was searched. -/
theorem length_breakInterpolation_le (t : Text) : (breakInterpolation t).2.length ≤ t.length := by
  unfold breakInterpolation
  cases h : Nesting.breakAt ['}', '}'] t with
  | some found =>
    rw [Nesting.length_of_breakAt h, Option.some_or, Option.getD_some]
    omega
  | none =>
    cases h : Text.breakOn ['}', '}'] t with
    | some found =>
      rw [Text.length_of_breakOn h, Option.none_or, Option.getD_some]
      omega
    | none => simp

/-- A comment behind its start: whether it ends with a dash, and the rest. -/
def breakComment (t : Text) : Bool × Text :=
  match Text.breakOn ['#', '}'] t with
  | some (content, rest) => (content.getLast? == some '-', rest)
  | none => (false, [])

theorem length_breakComment_le (t : Text) : (breakComment t).2.length ≤ t.length := by
  unfold breakComment
  split
  · next h =>
    rw [Text.length_of_breakOn h]
    simp only
    omega
  · simp

/-- The segment at the start of a source, given by its first character and what follows,
and the source behind the segment. -/
def first (c : Char) (rest : Text) : Segment × Text :=
  match c, rest with
  | '{', '#' :: rest =>
    let (opening, inside) := openDash rest
    let (closing, after) := breakComment inside
    (.comment ⟨opening, closing⟩, after)
  | '{', '{' :: rest =>
    let (opening, inside) := openDash rest
    let (content, after) := breakInterpolation inside
    let (closing, content) := closeDash content
    (.interpolation ⟨opening, closing⟩ content, after)
  | '{', '%' :: rest =>
    let (opening, inside) := openDash rest
    match Nesting.breakAt ['%', '}'] inside with
    | none => (.unclosed ('{' :: '%' :: rest), [])
    | some (content, after) =>
      let (closing, content) := closeDash content
      (.block ⟨opening, closing⟩ content, after)
  | c, rest => (.raw (c :: (spanRaw rest).1), (spanRaw rest).2)

/-- Every segment takes at least its first character. -/
theorem length_first_le (c : Char) (rest : Text) : (first c rest).2.length ≤ rest.length := by
  unfold first
  split
  · next rest =>
    have := length_openDash_le rest
    have := length_breakComment_le (openDash rest).2
    simp only [List.length_cons]
    omega
  · next rest =>
    have := length_openDash_le rest
    have := length_breakInterpolation_le (openDash rest).2
    simp only [List.length_cons]
    omega
  · next rest =>
    have hopen := length_openDash_le rest
    simp only [List.length_cons]
    split
    · simp
    · next h =>
      rw [Nesting.length_of_breakAt h] at hopen
      simp only at hopen ⊢
      omega
  · have := congrArg List.length (spanRaw_append rest)
    simp only [List.length_append] at this ⊢
    omega

/-- Cuts template source into segments. -/
def scan : Text → List Segment
  | [] => []
  | c :: rest =>
    match _ : first c rest with
    | (segment, after) => segment :: scan after
termination_by t => t.length
decreasing_by
  have := length_first_le c rest
  simp only [*, List.length_cons] at *
  omega

end Segment

end PromptTemplate
