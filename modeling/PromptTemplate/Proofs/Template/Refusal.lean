import PromptTemplate.Proofs.Condition.RoundTrip
import PromptTemplate.Template.LoopSource

/-!
# What readers refuse

A reader fails with what one of its parts fails with. So a condition, whatever
its parts, is refused only as a condition, and a loop source only for a bound of
a slice.
-/

namespace PromptTemplate

section

variable {ε α β : Type}

/-- What a computation fails with is not changed by what would be done with its result. -/
theorem eq_error_of_map {x : Except ε α} {f : α → β} {e : ε} (h : x.map f = .error e) :
    x = .error e := by
  cases x with
  | error d =>
    cases h
    rfl
  | ok a => cases h

/-- One computation behind another fails with what the first or the second fails with. -/
theorem eq_error_of_bind {x : Except ε α} {f : α → Except ε β} {e : ε}
    (h : x >>= f = .error e) : x = .error e ∨ ∃ a, x = .ok a ∧ f a = .error e := by
  cases x with
  | error d =>
    cases h
    exact .inl rfl
  | ok a => exact .inr ⟨a, rfl, h⟩

/-- Computations in a row fail with what one of them fails with. -/
theorem exists_eq_error_of_mapM {f : α → Except ε β} {l : List α} {e : ε}
    (h : l.mapM f = .error e) : ∃ a ∈ l, f a = .error e := by
  induction l with
  | nil => cases h
  | cons a l ih =>
    rw [List.mapM_cons] at h
    rcases eq_error_of_bind h with ha | ⟨b, -, h⟩
    · exact ⟨a, List.mem_cons_self, ha⟩
    · rcases eq_error_of_bind h with hl | ⟨bs, -, h⟩
      · obtain ⟨c, hc, he⟩ := ih hl
        exact ⟨c, List.mem_cons_of_mem a hc, he⟩
      · cases h

end

/-- A condition is refused as such. -/
theorem Condition.exists_of_read_eq_error {t : Text} {e : SyntaxError}
    (h : Condition.read t = .error e) : ∃ text, e = .invalidCondition text := by
  have htrim := Text.length_trim_le t
  have hparts {word : Text} (hmap : 2 ≤ (Nesting.splitWord word (Text.trim t)).length)
      {op : Connective}
      (h : ((Nesting.splitWord word (Text.trim t)).mapM fun part =>
        Condition.read (Text.trim part)).map (Condition.joinLeft op) = .error e) :
      ∃ part, (Text.trim part).length < t.length ∧
        Condition.read (Text.trim part) = .error e := by
    obtain ⟨part, hpart, he⟩ := exists_eq_error_of_mapM (eq_error_of_map h)
    have hlt := Nesting.length_lt_of_mem_splitWord hpart hmap
    have hle := Text.length_trim_le part
    exact ⟨part, by omega, he⟩
  rw [Condition.read_eq] at h
  split at h
  · cases h
    exact ⟨t, rfl⟩
  · split at h
    · next inside hinside =>
      have hlt := Nesting.length_lt_of_stripParens? hinside
      exact Condition.exists_of_read_eq_error h
    · split at h
      · next hor =>
        obtain ⟨part, hlt, he⟩ := hparts hor h
        exact Condition.exists_of_read_eq_error he
      · split at h
        · next hand =>
          obtain ⟨part, hlt, he⟩ := hparts hand h
          exact Condition.exists_of_read_eq_error he
        · split at h
          · next rest hrest =>
            have hlt := Condition.length_lt_of_behindNot? hrest
            exact Condition.exists_of_read_eq_error (eq_error_of_map h)
          · cases hcut : Condition.cut? (Text.trim t) with
            | none =>
              rw [hcut] at h
              cases h
            | some c =>
              rw [hcut, Option.elim, Condition.ofCut] at h
              split at h
              · cases h
                exact ⟨_, rfl⟩
              · cases h
termination_by t.length

/-- A loop source is refused for a bound of a slice. -/
theorem LoopSource.exists_of_read_eq_error {t : Text} {e : SyntaxError}
    (h : LoopSource.read t = .error e) : ∃ text, e = .invalidSlice text := by
  have hbound {bound whole : Text} (h : LoopSource.readBound bound whole = .error e) :
      ∃ text, e = .invalidSlice text := by
    unfold LoopSource.readBound at h
    split at h
    · cases h
    · cases h
      exact ⟨whole, rfl⟩
  fun_induction LoopSource.read t with
  | case1 => cases h
  | case2 => cases h
  | case3 t trimmed before inside hgroup start stop hbreak ih =>
    rcases eq_error_of_bind h with h | ⟨inner, -, h⟩
    · exact ih h
    · rcases eq_error_of_bind h with h | ⟨start?, -, h⟩
      · exact hbound h
      · rcases eq_error_of_bind h with h | ⟨stop?, -, h⟩
        · exact hbound h
        · cases h

end PromptTemplate
