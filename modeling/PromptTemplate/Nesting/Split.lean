import PromptTemplate.Nesting.Scan
import PromptTemplate.Text.Blank

/-!
# Cutting at the top level

Three ways to cut a text where the scan stands at the top level: at every
occurrence of a separator character, at the first occurrence of a mark, and at
a keyword that stands between blanks. The parts of a cut are never longer than
the text, and strictly shorter once there is a cut at all.
-/

namespace PromptTemplate

namespace Nesting

/-- The parts between the separators at the top level, for a scan on its way. -/
def State.split (s : State) (sep : Char) : Text → List Text
  | [] => [[]]
  | c :: rest =>
    if s.isTop c && c == sep then [] :: (s.step c).split sep rest
    else ((s.step c).split sep rest).modifyHead (c :: ·)

/-- The parts between the separators at the top level. -/
def split (sep : Char) (t : Text) : List Text := State.start.split sep t

/-- There is always a first part. -/
theorem State.split_ne_nil (s : State) (sep : Char) (t : Text) : s.split sep t ≠ [] := by
  induction t generalizing s with
  | nil => simp [State.split]
  | cons c rest ih =>
    unfold State.split
    split
    · simp
    · have := ih (s.step c)
      cases h : (s.step c).split sep rest with
      | nil => exact absurd h this
      | cons p ps => simp

/-- Joining the parts with the separator gives the text back. -/
theorem State.intercalate_split (s : State) (sep : Char) (t : Text) :
    [sep].intercalate (s.split sep t) = t := by
  induction t generalizing s with
  | nil => rfl
  | cons c rest ih =>
    have hne := State.split_ne_nil (s.step c) sep rest
    have hrest := ih (s.step c)
    unfold State.split
    cases hp : (s.step c).split sep rest with
    | nil => exact absurd hp hne
    | cons p ps =>
      rw [hp] at hrest
      split
      · next hc =>
        simp only [Bool.and_eq_true, beq_iff_eq] at hc
        simp [List.intercalate_cons_cons, hrest, hc.2]
      · cases ps with
        | nil => simpa using hrest
        | cons q qs => simpa [List.intercalate_cons_cons] using hrest

/-- A part together with the separators beside the other parts fits into the text. -/
theorem State.length_add_le_of_mem_split {s : State} {sep : Char} {t part : Text}
    (h : part ∈ s.split sep t) : part.length + (s.split sep t).length ≤ t.length + 1 := by
  induction t generalizing s part with
  | nil =>
    simp only [State.split, List.mem_singleton] at h
    simp [State.split, h]
  | cons c rest ih =>
    unfold State.split at h ⊢
    split at h
    · next hc =>
      simp only [hc, if_true, List.length_cons]
      rcases List.mem_cons.1 h with rfl | h
      · have hne := State.split_ne_nil (s.step c) sep rest
        cases hp : (s.step c).split sep rest with
        | nil => exact absurd hp hne
        | cons p ps =>
          have hfirst : p ∈ (s.step c).split sep rest := by simp [hp]
          have := ih hfirst
          simp only [hp, List.length_cons, List.length_nil] at this ⊢
          omega
      · have := ih h
        omega
    · next hc =>
      simp only [hc, Bool.false_eq_true, if_false, List.length_modifyHead, List.length_cons]
      cases hp : (s.step c).split sep rest with
      | nil => simp [hp] at h
      | cons p ps =>
        rw [hp] at h
        simp only [List.modifyHead_cons, List.mem_cons] at h
        rcases h with rfl | h
        · have hfirst : p ∈ (s.step c).split sep rest := by simp [hp]
          have := ih hfirst
          simp only [hp, List.length_cons] at this ⊢
          omega
        · have hlater : part ∈ (s.step c).split sep rest := by simp [hp, h]
          have := ih hlater
          simp only [hp, List.length_cons] at this ⊢
          omega

/-- No part is longer than the text. -/
theorem length_le_of_mem_split {sep : Char} {t part : Text} (h : part ∈ split sep t) :
    part.length ≤ t.length := by
  have := State.length_add_le_of_mem_split h
  have hpos : 0 < (State.start.split sep t).length :=
    List.length_pos_iff.2 (State.split_ne_nil _ _ _)
  omega

/-- Once there are two parts, each is shorter than the text. -/
theorem length_lt_of_mem_split {sep : Char} {t part : Text} (h : part ∈ split sep t)
    (two : 2 ≤ (split sep t).length) : part.length < t.length := by
  have := State.length_add_le_of_mem_split h
  unfold split at two
  omega

/-- What stands before and after the first top-level occurrence of a mark. -/
def State.breakAt (s : State) (mark : Text) : Text → Option (Text × Text)
  | [] => none
  | c :: rest =>
    match if s.isTop c then mark.isPrefixOf? (c :: rest) else none with
    | some after => some ([], after)
    | none => ((s.step c).breakAt mark rest).map fun found => (c :: found.1, found.2)

/-- What stands before and after the first top-level occurrence of a mark. -/
def breakAt (mark t : Text) : Option (Text × Text) := State.start.breakAt mark t

/-- Behind the part before it a text begins with the mark that is found, and the other part is
the remainder. -/
theorem State.exists_of_breakAt {s : State} {mark t : Text} {found : Text × Text}
    (h : s.breakAt mark t = some found) :
    ∃ behind, t = found.1 ++ behind ∧ mark.isPrefixOf? behind = some found.2 := by
  induction t generalizing s found with
  | nil => cases h
  | cons c rest ih =>
    rw [breakAt] at h
    split at h
    · next hmark =>
      cases h
      split at hmark
      · exact ⟨c :: rest, rfl, hmark⟩
      · cases hmark
    · obtain ⟨later, hlater, rfl⟩ := Option.map_eq_some_iff.1 h
      obtain ⟨behind, rfl, hbehind⟩ := ih hlater
      exact ⟨behind, rfl, hbehind⟩

/-- The two parts and the mark between them are as long as the text. -/
theorem length_of_breakAt {mark t : Text} {found : Text × Text} (h : breakAt mark t = some found) :
    t.length = found.1.length + (mark.length + found.2.length) := by
  obtain ⟨behind, rfl, hbehind⟩ := State.exists_of_breakAt h
  rw [List.length_append, Text.length_of_isPrefixOf? hbehind]

/-- A keyword ends before a blank or an opening parenthesis. -/
def endsWord : Text → Bool
  | [] => false
  | c :: _ => Text.isBlank c || c == '('

/-- What stands before and after the first top-level keyword, for a scan on its way
behind the character `previous`. A keyword has a blank before it, and a blank or an
opening parenthesis after it. -/
def State.breakWord (s : State) (previous : Option Char) (word : Text) :
    Text → Option (Text × Text)
  | [] => none
  | c :: rest =>
    match if s.isTop c && previous.any Text.isBlank then
      (word.isPrefixOf? (c :: rest)).filter endsWord else none with
    | some after => some ([], after)
    | none =>
      ((s.step c).breakWord (some c) word rest).map fun found => (c :: found.1, found.2)

/-- What stands before and after the first top-level keyword. A keyword at the very
start is no keyword, since no blank stands before it. -/
def breakWord (word t : Text) : Option (Text × Text) := State.start.breakWord none word t

/-- Behind the part before it a text begins with the keyword that is found, and the other part
is the remainder. -/
theorem State.exists_of_breakWord {s : State} {previous : Option Char} {word t : Text}
    {found : Text × Text} (h : s.breakWord previous word t = some found) :
    ∃ behind, t = found.1 ++ behind ∧ word.isPrefixOf? behind = some found.2 := by
  induction t generalizing s previous found with
  | nil => cases h
  | cons c rest ih =>
    rw [breakWord] at h
    split at h
    · next hword =>
      cases h
      split at hword
      · exact ⟨c :: rest, rfl, (Option.filter_eq_some_iff.1 hword).1⟩
      · cases hword
    · obtain ⟨later, hlater, rfl⟩ := Option.map_eq_some_iff.1 h
      obtain ⟨behind, rfl, hbehind⟩ := ih hlater
      exact ⟨behind, rfl, hbehind⟩

/-- Behind a keyword stands at least the character that ends it, and before it at least
a blank, so both parts are shorter than the text. -/
theorem length_lt_of_breakWord {word t before after : Text} (hw : word ≠ [])
    (h : breakWord word t = some (before, after)) :
    before.length < t.length ∧ after.length < t.length := by
  have hlen : 0 < word.length := List.length_pos_iff.2 hw
  obtain ⟨behind, rfl, hbehind⟩ := State.exists_of_breakWord h
  have hafter : behind.length = word.length + after.length := Text.length_of_isPrefixOf? hbehind
  simp only [List.length_append]
  omega

/-- The parts between the top-level occurrences of a keyword, not trimmed. -/
def splitWord (word t : Text) : List Text :=
  if _ : word = [] then [t] else
  match _ : breakWord word t with
  | none => [t]
  | some (before, after) => before :: splitWord word after
termination_by t.length
decreasing_by exact (length_lt_of_breakWord ‹_› ‹_›).2

/-- No part is longer than the text. -/
theorem length_le_of_mem_splitWord {word t part : Text} (h : part ∈ splitWord word t) :
    part.length ≤ t.length := by
  fun_induction splitWord word t with
  | case1 t => simp [List.mem_singleton.1 h]
  | case2 t => simp [List.mem_singleton.1 h]
  | case3 t hw before after hb ih =>
    have hlt := length_lt_of_breakWord hw hb
    rcases List.mem_cons.1 h with rfl | h
    · exact Nat.le_of_lt hlt.1
    · exact Nat.le_trans (ih h) (Nat.le_of_lt hlt.2)

/-- Once there are two parts, each is shorter than the text. -/
theorem length_lt_of_mem_splitWord {word t part : Text} (h : part ∈ splitWord word t)
    (two : 2 ≤ (splitWord word t).length) : part.length < t.length := by
  unfold splitWord at h two
  split at h
  · next hw => simp [hw] at two
  · next hw =>
    simp only [hw, dite_false] at two
    split at h
    · next hb =>
      split at two
      · simp at two
      · next hb' => simp [hb] at hb'
    · next before after hb =>
      have hlt := length_lt_of_breakWord hw hb
      rcases List.mem_cons.1 h with rfl | h
      · exact hlt.1
      · exact Nat.lt_of_le_of_lt (length_le_of_mem_splitWord h) hlt.2

end Nesting

end PromptTemplate
