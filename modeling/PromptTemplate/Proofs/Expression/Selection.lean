import PromptTemplate.Expression.Evaluation
import PromptTemplate.Proofs.Dict

/-!
# What a step picks

A step without an operand picks by key, by position or by a range of positions.
Positions are stated here from the items themselves: a negative index is a
position of the reversed items, and a slice keeps the items whose positions lie
between two integers that are never moved. Selecting agrees with this whatever
the bounds are, also where they lie far outside the items or cross.
-/

namespace PromptTemplate

variable {α : Type}

/-- The item that an index names, a negative one from the end. -/
def itemAt? (items : List α) : Int → Option α
  | .ofNat n => items[n]?
  | .negSucc n => items.reverse[n]?

/-- The position that a bound names, perhaps outside the items. -/
def positionOf (bound : Int) (length : Nat) : Int := if bound < 0 then bound + length else bound

/-- The items at the positions from the first bound up to the second; a missing bound is
the end on its side. -/
def itemsBetween (items : List α) (start? stop? : Option Int) : List α :=
  let start := start?.elim 0 (positionOf · items.length)
  let stop := stop?.elim (items.length : Int) (positionOf · items.length)
  (items.zipIdx.filter fun item => start ≤ item.2 ∧ item.2 < stop).map Prod.fst

namespace Value

/-- The entry of a map under a key. -/
def lookup? (key : Text) : Value → Option Value
  | .map entries => entries.lookup key
  | _ => none

/-- What a step without an operand picks from a value. -/
def pick : Value → Step Empty → Value
  | .map entries, .key key => (entries.lookup key).getD .null
  | .list items, .key key => .list (items.filterMap (lookup? key))
  | .list items, .index i => (itemAt? items i).getD .null
  | .map entries, .index i => (entries.lookup (Text.ofInt i)).getD .null
  | .list items, .slice start? stop? => .list (itemsBetween items start? stop?)
  | .string s, .slice start? stop? => .string (itemsBetween s start? stop?)
  | _, _ => .null

end Value

/-!
### Positions
-/

theorem positionOf_ofNat (n length : Nat) : positionOf (.ofNat n) length = n :=
  if_neg (Int.not_lt.2 (Int.natCast_nonneg n))

theorem positionOf_negSucc (n length : Nat) :
    positionOf (.negSucc n) length = length - 1 - n := by
  rw [positionOf, if_pos (Int.negSucc_lt_zero n), Int.negSucc_eq]
  omega

/-- An index names a place if its position is one. -/
theorem placeOf?_eq (i : Int) (length : Nat) :
    placeOf? i length =
      if 0 ≤ positionOf i length ∧ positionOf i length < length then
        some (positionOf i length).toNat else none := rfl

/-- An index selects the item that it names. -/
theorem getElem?_placeOf? (items : List α) (i : Int) :
    (placeOf? i items.length).bind (items[·]?) = itemAt? items i := by
  cases i with
  | ofNat n =>
    rw [placeOf?_eq, positionOf_ofNat]
    split
    · rfl
    · next h => exact (List.getElem?_eq_none (by omega)).symm
  | negSucc n =>
    rw [placeOf?_eq, positionOf_negSucc]
    split
    · next h =>
      have hplace : ((items.length : Int) - 1 - n).toNat = items.length - 1 - n := by omega
      rw [hplace]
      exact (List.getElem?_reverse (by omega)).symm
    · next h =>
      have hlength : items.reverse.length ≤ n := by
        rw [List.length_reverse]
        omega
      exact (List.getElem?_eq_none hlength).symm

/-- The items at a range of positions follow one another. The first item stands at `k`. -/
theorem map_filter_zipIdx (items : List α) (k : Nat) (start stop : Int) :
    ((items.zipIdx k).filter fun item => start ≤ item.2 ∧ item.2 < stop).map Prod.fst =
      (items.take (stop - k).toNat).drop (start - k).toNat := by
  induction items generalizing k with
  | nil => simp
  | cons x items ih =>
    have hlater := ih (k + 1)
    rw [List.zipIdx_cons]
    by_cases hstop : (k : Int) < stop
    · have htake : (stop - k).toNat = (stop - (k + 1 : Nat)).toNat + 1 := by omega
      rw [htake, List.take_succ_cons]
      by_cases hstart : start ≤ k
      · have hdrop : (start - k).toNat = 0 := by omega
        have hdrop' : (start - (k + 1 : Nat)).toNat = 0 := by omega
        rw [hdrop', List.drop_zero] at hlater
        rw [List.filter_cons_of_pos (by simp [hstart, hstop]), List.map_cons, hlater, hdrop,
          List.drop_zero]
      · have hdrop : (start - k).toNat = (start - (k + 1 : Nat)).toNat + 1 := by omega
        rw [List.filter_cons_of_neg (by simp [hstart]), hlater, hdrop, List.drop_succ_cons]
    · have htake : (stop - k).toNat = 0 := by omega
      have htake' : (stop - (k + 1 : Nat)).toNat = 0 := by omega
      rw [htake', List.take_zero, List.drop_nil] at hlater
      rw [List.filter_cons_of_neg (by simp [hstop]), hlater, htake, List.take_zero, List.drop_nil]

/-- Moving a bound to the nearer end changes nothing about the items before it. -/
theorem min_boundOf (bound : Int) {length size : Nat} (h : size ≤ length) :
    min (boundOf bound length) size = min (positionOf bound length).toNat size := by
  have hbound : boundOf bound length = min (positionOf bound length).toNat length := rfl
  omega

/-- A slice keeps the items at the positions between its bounds. -/
theorem sliceOf_eq (items : List α) (start? stop? : Option Int) :
    sliceOf items start? stop? = itemsBetween items start? stop? := by
  have htake : items.take (stop?.elim items.length (boundOf · items.length)) =
      items.take (stop?.elim (items.length : Int) (positionOf · items.length)).toNat := by
    cases stop? with
    | none => rfl
    | some bound => exact List.take_eq_take_iff.2 (min_boundOf bound (Nat.le_refl _))
  have hdrop {later : List α} (h : later.length ≤ items.length) :
      later.drop (start?.elim 0 (boundOf · items.length)) =
        later.drop (start?.elim 0 (positionOf · items.length)).toNat := by
    cases start? with
    | none => rfl
    | some bound => exact List.drop_eq_drop_iff.2 (min_boundOf bound h)
  simp only [itemsBetween, map_filter_zipIdx, Int.natCast_zero, Int.sub_zero]
  rw [sliceOf, htake, hdrop (List.take_sublist _ _).length_le]

/-!
### Keys
-/

/-- What a value has under a key is its entry if it is a map. -/
theorem Value.under?_eq_lookup? (key : Text) (v : Value) : v.under? key = v.lookup? key := by
  cases v with
  | map entries => exact Dict.get?_eq_lookup entries key
  | _ => rfl

/-!
### Selecting is picking
-/

namespace Value

theorem atKey_eq_pick (v : Value) (key : Text) : v.atKey key = v.pick (.key key) := by
  cases v with
  | map entries => exact congrArg (·.getD .null) (Dict.get?_eq_lookup entries key)
  | list items =>
    have hentries : (·.under? key) = lookup? key := funext (under?_eq_lookup? key)
    exact congrArg (fun f => list (items.filterMap f)) hentries
  | _ => rfl

theorem atIndex_eq_pick (v : Value) (i : Int) : v.atIndex i = v.pick (.index i) := by
  cases v with
  | map entries => exact congrArg (·.getD .null) (Dict.get?_eq_lookup entries (Text.ofInt i))
  | list items => exact congrArg (·.getD .null) (getElem?_placeOf? items i)
  | _ => rfl

theorem atSlice_eq_pick (v : Value) (start? stop? : Option Int) :
    v.atSlice start? stop? = v.pick (.slice start? stop?) := by
  cases v with
  | list items => exact congrArg list (sliceOf_eq items start? stop?)
  | string s => exact congrArg string (sliceOf_eq s start? stop?)
  | _ => rfl

/-- Nothing is picked from null. -/
theorem foldl_pick_null (steps : List (Step Empty)) : steps.foldl pick .null = .null := by
  induction steps with
  | nil => rfl
  | cons step steps ih =>
    have hnull : pick .null step = .null := rfl
    rw [List.foldl_cons, hnull, ih]

end Value

end PromptTemplate
