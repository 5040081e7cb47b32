import PromptTemplate.Nesting.Scan

/-!
# Groups

A bracketed group may enclose a whole text, stand at its end, or open it. Each
of the three questions is answered by the scan, so brackets inside literals and
inner groups never count.
-/

namespace PromptTemplate

namespace Nesting

/-- The inside of parentheses that open at the start and close at the very end: the
two are the only characters at the top level. -/
def stripParens? : Text → Option Text
  | [] => none
  | c :: rest =>
    if c = '(' ∧ rest.getLast? = some ')' ∧ topOffsets (c :: rest) = [0, rest.length] then
      some rest.dropLast
    else none

/-- The inside is shorter than the group. -/
theorem length_lt_of_stripParens? {t inner : Text} (h : stripParens? t = some inner) :
    inner.length < t.length := by
  cases t with
  | nil => simp [stripParens?] at h
  | cons c rest =>
    simp only [stripParens?, Option.ite_none_right_eq_some, Option.some.injEq] at h
    rw [← h.2, List.length_dropLast, List.length_cons]
    omega

/-- What stands before and after the last square bracket that opens at the top level. -/
def State.lastIndex (s : State) : Text → Option (Text × Text)
  | [] => none
  | c :: rest =>
    match (s.step c).lastIndex rest with
    | some found => some (c :: found.1, found.2)
    | none => if s.isTop c ∧ c = '[' then some ([], rest) else none

/-- The parts around the bracket make the text whole again. -/
theorem State.eq_of_lastIndex {s : State} {t : Text} {found : Text × Text}
    (h : s.lastIndex t = some found) : t = found.1 ++ '[' :: found.2 := by
  induction t generalizing s found with
  | nil => simp [State.lastIndex] at h
  | cons c rest ih =>
    unfold State.lastIndex at h
    split at h
    · next later hf =>
      simp only [Option.some.injEq] at h
      simp [ih hf, ← h]
    · split at h
      · next hc =>
        simp only [Option.some.injEq] at h
        simp [← h, hc.2]
      · simp at h

/-- What stands before the last index group and inside it, for a text that ends with a
closing square bracket. -/
def trailingIndex? (t : Text) : Option (Text × Text) :=
  if t.getLast? = some ']' then
    (State.start.lastIndex t).map fun found => (found.1, found.2.dropLast)
  else none

/-- What stands before the group is shorter than the text. -/
theorem length_lt_of_trailingIndex? {t before inner : Text}
    (h : trailingIndex? t = some (before, inner)) : before.length < t.length := by
  unfold trailingIndex? at h
  split at h
  · obtain ⟨found, hf, hk⟩ := Option.map_eq_some_iff.1 h
    simp only [Prod.mk.injEq] at hk
    rw [State.eq_of_lastIndex hf, ← hk.1]
    simp only [List.length_append, List.length_cons]
    omega
  · simp at h

/-- What stands inside and behind an index group whose opening bracket is already read:
the bracket that closes it is the first closer outside inner groups and literals. -/
def State.closeIndex (s : State) : Text → Option (Text × Text)
  | [] => none
  | c :: rest =>
    if s.mode = .code ∧ s.depth = 0 ∧ isCloser c then
      if c = ']' then some ([], rest) else none
    else ((s.step c).closeIndex rest).map fun found => (c :: found.1, found.2)

/-- What stands inside and behind an index group whose opening bracket is already read. -/
def closeIndex (t : Text) : Option (Text × Text) := State.start.closeIndex t

/-- The inside, the closing bracket and the rest make the text whole again. -/
theorem State.eq_of_closeIndex {s : State} {t : Text} {found : Text × Text}
    (h : s.closeIndex t = some found) : t = found.1 ++ ']' :: found.2 := by
  induction t generalizing s found with
  | nil => simp [State.closeIndex] at h
  | cons c rest ih =>
    unfold State.closeIndex at h
    split at h
    · split at h
      · next hc =>
        simp only [Option.some.injEq] at h
        simp [← h, hc]
      · simp at h
    · obtain ⟨later, hf, rfl⟩ := Option.map_eq_some_iff.1 h
      simp [ih hf]

/-- The inside, the closing bracket and the rest make the text whole again. -/
theorem eq_of_closeIndex {t : Text} {found : Text × Text} (h : closeIndex t = some found) :
    t = found.1 ++ ']' :: found.2 := State.eq_of_closeIndex h

end Nesting

end PromptTemplate
