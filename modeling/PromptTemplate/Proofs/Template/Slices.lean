import PromptTemplate.Proofs.Expression.Selection
import PromptTemplate.Proofs.Expression.WrittenPath
import PromptTemplate.Proofs.Template.Iteration
import PromptTemplate.Proofs.Template.LoopPath

/-!
# Slices

Bounds of slices and indices count from the end if they are negative. What lies
outside the items is treated differently: an index selects nothing there, and a
bound is moved to the nearer end. Still the two fit together. A slice between an
index and its successor keeps what the index selects, the two slices at one bound
make up all the items, and no bound is so far out that counting it from the end
leaves the range of a word. A loop source may end with any number of slices, each of
the items that those before it have kept.
-/

namespace PromptTemplate

variable {α : Type}

/-!
### Cuts
-/

/-- The cut that a bound makes, as the number of items before it: the position that it
names, moved to the nearer end. -/
def cutOf (bound : Int) (length : Nat) : Int := max 0 (min (positionOf bound length) length)

/-- The items at the positions from the first cut up to the second; a missing bound cuts at the
end on its side. -/
def itemsWithin (items : List α) (start? stop? : Option Int) : List α :=
  let start := start?.elim 0 (cutOf · items.length)
  let stop := stop?.elim (items.length : Int) (cutOf · items.length)
  (items.zipIdx.filter fun item => start ≤ item.2 ∧ item.2 < stop).map Prod.fst

/-- The range of positions that a slice keeps: its first, and the one behind its last. -/
def sliceRange (length : Nat) (start? stop? : Option Int) : Nat × Nat :=
  let start := start?.elim 0 (boundOf · length)
  (start, max start (stop?.elim length (boundOf · length)))

/-- Counting from the end stays in the range of a word: the sum has summands of both signs. -/
theorem isWord_positionOf {bound : Int} {length : Nat} (hbound : Text.isWord bound = true)
    (hlength : Text.isWord length = true) : Text.isWord (positionOf bound length) = true := by
  simp only [Text.isWord, Bool.and_eq_true, decide_eq_true_eq] at hbound hlength ⊢
  rw [positionOf]
  split <;> omega

/-- The range of a slice lies among the positions of the items. -/
theorem sliceRange_bounds (length : Nat) (start? stop? : Option Int) :
    (sliceRange length start? stop?).1 ≤ (sliceRange length start? stop?).2 ∧
      (sliceRange length start? stop?).2 ≤ length := by
  have hbound (bound : Int) : boundOf bound length ≤ length := Nat.min_le_right _ _
  have hstart : start?.elim 0 (boundOf · length) ≤ length := by
    cases start? with
    | none => exact Nat.zero_le _
    | some bound => exact hbound bound
  have hstop : stop?.elim length (boundOf · length) ≤ length := by
    cases stop? with
    | none => exact Nat.le_refl _
    | some bound => exact hbound bound
  exact ⟨Nat.le_max_left _ _, Nat.max_le.2 ⟨hstart, hstop⟩⟩

/-- A slice is what lies in its range. -/
theorem sliceOf_eq_range (items : List α) (start? stop? : Option Int) :
    sliceOf items start? stop? =
      (items.drop (sliceRange items.length start? stop?).1).take
        ((sliceRange items.length start? stop?).2 - (sliceRange items.length start? stop?).1) := by
  rw [sliceOf, List.drop_take, sliceRange]
  congr 1
  omega

/-- A cut separates the same positions of items as the bound that it is made at. -/
theorem cutOf_le_iff {bound : Int} {length position : Nat} (h : position < length) :
    cutOf bound length ≤ position ↔ positionOf bound length ≤ position := by
  rw [cutOf]
  omega

/-- A slice keeps the items between its two cuts. -/
theorem sliceOf_eq_itemsWithin (items : List α) (start? stop? : Option Int) :
    sliceOf items start? stop? = itemsWithin items start? stop? := by
  rw [sliceOf_eq, itemsBetween, itemsWithin]
  refine congrArg (List.map Prod.fst) (List.filter_congr fun item hitem => ?_)
  have hplace : item.2 < items.length := by
    simpa using List.snd_lt_of_mem_zipIdx hitem
  have hstart : start?.elim 0 (positionOf · items.length) ≤ item.2 ↔
      start?.elim 0 (cutOf · items.length) ≤ item.2 := by
    cases start? with
    | none => exact Iff.rfl
    | some bound => exact (cutOf_le_iff hplace).symm
  have hstop : item.2 < stop?.elim (items.length : Int) (positionOf · items.length) ↔
      item.2 < stop?.elim (items.length : Int) (cutOf · items.length) := by
    cases stop? with
    | none => exact Iff.rfl
    | some bound => exact Int.not_le.symm.trans ((not_congr (cutOf_le_iff hplace).symm).trans
        Int.not_le)
  exact decide_eq_decide.2 (and_congr hstart hstop)

/-!
### One bound, and one index
-/

/-- The items before a bound and those from it on are all the items. -/
theorem sliceOf_append_sliceOf (items : List α) (bound : Int) :
    sliceOf items none (some bound) ++ sliceOf items (some bound) none = items := by
  change (items.take (boundOf bound items.length)).drop 0 ++
    (items.take items.length).drop (boundOf bound items.length) = items
  rw [List.drop_zero, List.take_length, List.take_append_drop]

/-- The successor of an index names the next position, unless the index is the last that counts
from the end. -/
theorem positionOf_succ {i : Int} (h : i ≠ -1) (length : Nat) :
    positionOf (i + 1) length = positionOf i length + 1 := by
  simp only [positionOf]
  split <;> split <;> omega

/-- The slice from an index up to its successor keeps the item that the index selects, if there
is one. -/
theorem sliceOf_succ {i : Int} (h : i ≠ -1) (items : List α) :
    sliceOf items (some i) (some (i + 1)) =
      ((placeOf? i items.length).bind (items[·]?)).toList := by
  have hone (n : Nat) : (items.take (n + 1)).drop n = items[n]?.toList := by
    rw [List.drop_take, Nat.add_sub_cancel_left, List.take_one, List.head?_drop]
  rw [sliceOf_eq, itemsBetween, map_filter_zipIdx, placeOf?_eq]
  simp only [Option.elim_some, Int.natCast_zero, Int.sub_zero, positionOf_succ h]
  by_cases hfirst : 0 ≤ positionOf i items.length
  · have hnext : (positionOf i items.length + 1).toNat = (positionOf i items.length).toNat + 1 :=
      Int.toNat_add hfirst Int.one_nonneg
    rw [hnext, hone]
    by_cases hlast : positionOf i items.length < items.length
    · rw [if_pos ⟨hfirst, hlast⟩, Option.bind_some]
    · rw [if_neg fun hplace => hlast hplace.2, List.getElem?_eq_none (by omega)]
      rfl
  · have hnext : (positionOf i items.length + 1).toNat = 0 := by omega
    rw [hnext, if_neg fun hplace => hfirst hplace.1, List.take_zero, List.drop_nil]
    rfl

/-- The slice from an index up to its successor is one item long if the index names a place, and
empty if it does not. -/
theorem Value.atSlice_succ {i : Int} (h : i ≠ -1) (xs : List Value) :
    (list xs).atSlice (some i) (some (i + 1)) =
      list (if (placeOf? i xs.length).isSome then [(list xs).atIndex i] else []) := by
  have hslice : (list xs).atSlice (some i) (some (i + 1)) =
      list ((placeOf? i xs.length).bind (xs[·]?)).toList := congrArg list (sliceOf_succ h xs)
  have hindex : (list xs).atIndex i = ((placeOf? i xs.length).bind (xs[·]?)).getD .null := rfl
  rw [hslice, hindex]
  cases hplace : placeOf? i xs.length with
  | none => rfl
  | some place =>
    -- a list has an item at every place that an index names
    have hlt : place < xs.length := by
      rw [placeOf?_eq, Option.ite_none_right_eq_some] at hplace
      obtain ⟨hposition, hsome⟩ := hplace
      have := Option.some.inj hsome
      omega
    rw [Option.bind_some, List.getElem?_eq_getElem hlt]
    rfl

/-- What holds of the slices of items at all bounds. -/
structure SlicesFit (items : List α) : Prop where
  /-- The position that an index or a bound is counted to, the only sum that either needs, is
  in the range of a word. -/
  words : ∀ bound, Text.isWord bound = true → Text.isWord items.length = true →
    Text.isWord (positionOf bound items.length) = true
  /-- The range of a slice is in order and lies among the items, and the slice is what lies
  in it. -/
  range : ∀ start? stop?,
    let range := sliceRange items.length start? stop?
    range.1 ≤ range.2 ∧ range.2 ≤ items.length ∧
      sliceOf items start? stop? = (items.drop range.1).take (range.2 - range.1)
  /-- The slices at the two sides of a bound are the items. -/
  halves : ∀ bound, sliceOf items none (some bound) ++ sliceOf items (some bound) none = items
  /-- A slice has the items between its two cuts. -/
  between : ∀ start? stop?, sliceOf items start? stop? = itemsWithin items start? stop?

/-- The slices of any items fit together. -/
theorem SlicesFit.of_items (items : List α) : SlicesFit items where
  words _ := isWord_positionOf
  range start? stop? :=
    ⟨(sliceRange_bounds _ start? stop?).1, (sliceRange_bounds _ start? stop?).2,
      sliceOf_eq_range items start? stop?⟩
  halves := sliceOf_append_sliceOf items
  between := sliceOf_eq_itemsWithin items

/-!
### Slices of slices
-/

/-- A slice as it is written, with blanks at the two ends of the bracket and around the colon. -/
structure WrittenSlice where
  start? : Option Int
  stop? : Option Int
  startIsWord : start?.all Text.isWord = true
  stopIsWord : stop?.all Text.isWord = true
  before : Blanks
  left : Blanks
  right : Blanks
  after : Blanks

namespace WrittenSlice

/-- The slice as a step of a path. -/
def written (w : WrittenSlice) : WrittenStep :=
  .slice w.start? w.stop? w.startIsWord w.stopIsWord w.before w.left w.right w.after

/-- The text of a slice. -/
def text (w : WrittenSlice) : Text := w.written.text

/-- A loop source cut down to a slice. -/
def cut (source : LoopSource) (w : WrittenSlice) : LoopSource := .slice source w.start? w.stop?

/-- Items cut down to a slice. -/
def within (items : List α) (w : WrittenSlice) : List α := itemsWithin items w.start? w.stop?

end WrittenSlice

namespace LoopSource

/-- Slices behind a balanced text cut down the loop source that the text is, one after the
other. -/
theorem read_append_slices {t : Text} {source : LoopSource} (ht : Nesting.isBalanced t = true)
    (hread : read t = .ok source) (slices : List WrittenSlice) :
    read (t ++ slices.flatMap WrittenSlice.text) =
      .ok (slices.foldl WrittenSlice.cut source) := by
  induction slices generalizing t source with
  | nil => rwa [List.flatMap_nil, List.append_nil]
  | cons w slices ih =>
    have hstep : StepText w.text (.slice w.start? w.stop?) := w.written.stepText
    have hcut : read (t ++ w.text) = .ok (w.cut source) := by
      rw [read_append_slice ht hstep, hread]
      rfl
    rw [List.flatMap_cons, ← List.append_assoc]
    exact ih (Nesting.isBalanced_append ht hstep.balanced) hcut

/-- A loop source that is cut down has the items that are left of its own. -/
theorem items_foldl_cut (s : Scope) (source : LoopSource) (slices : List WrittenSlice) :
    (slices.foldl WrittenSlice.cut source).items s =
      slices.foldl WrittenSlice.within (source.items s) := by
  induction slices generalizing source with
  | nil => rfl
  | cons w slices ih =>
    have hcut : (w.cut source).items s = w.within (source.items s) :=
      sliceOf_eq_itemsWithin _ w.start? w.stop?
    rw [List.foldl_cons, ih, hcut, List.foldl_cons]

/-- A name that is bound to a list is a source of its items, if it is no word for a constant. -/
theorem items_of_isIdentifier {name : Text} (hname : Text.isIdentifier name = true)
    (hword : name ∉ constantWords) {s : Scope} {xs : List Value}
    (hbound : s.vars.get? name = some (.list xs)) : (expression name).items s = xs := by
  have hvalue : evaluate s name = .list xs := by
    rw [(PathText.root hname).evaluate_eq hword s, Path.eval, hbound]
    rfl
  rw [items, hvalue]
  rfl

end LoopSource

/-- Slices and indices fit together at all bounds, and those of lists and texts are slices of
their items and characters. A list has the one item that an index selects between the index
and its successor, and none if the index names no place; the index `-1` is apart, since its
successor is the first position. A loop over a source with any slices behind it
runs over the items that the slices leave, one after the other; and a name that is bound to a
list is a source of the items of the list. -/
theorem slices_fit :
    (∀ (α : Type) (items : List α), SlicesFit items) ∧
    (∀ (xs : List Value) (start? stop? : Option Int),
      (Value.list xs).atSlice start? stop? = .list (itemsWithin xs start? stop?)) ∧
    (∀ (t : Text) (start? stop? : Option Int),
      (Value.string t).atSlice start? stop? = .string (itemsWithin t start? stop?)) ∧
    (∀ (xs : List Value) (i : Int), i ≠ -1 →
      (Value.list xs).atSlice (some i) (some (i + 1)) =
        .list (if (placeOf? i xs.length).isSome then [(Value.list xs).atIndex i] else [])) ∧
    (∀ (t : Text) (source : LoopSource) (slices : List WrittenSlice),
      Nesting.isBalanced t = true → LoopSource.read t = .ok source →
        ∃ cut, LoopSource.read (t ++ slices.flatMap WrittenSlice.text) = .ok cut ∧
          ∀ (r : Registry) (o : Options) (c : Context) (item : Text) (children : List Node),
            let visited := slices.foldl WrittenSlice.within (source.items ⟨c, r⟩)
            cut.items ⟨c, r⟩ = visited ∧
              ((Node.loop item cut children).render r o c).result =
                ((iterationResults r o c item children visited).mapM id).map
                  o.loopSeparator.intercalate) ∧
    ∀ (name : Text) (s : Scope) (xs : List Value), Text.isIdentifier name = true →
      name ∉ constantWords → s.vars.get? name = some (.list xs) →
        Nesting.isBalanced name = true ∧ LoopSource.read name = .ok (.expression name) ∧
          (LoopSource.expression name).items s = xs := by
  refine ⟨fun _ => SlicesFit.of_items, fun xs start? stop? => ?_, fun t start? stop? => ?_,
    fun xs i h => Value.atSlice_succ h xs, fun t source slices ht hread => ?_,
    fun name s xs hname hword hbound => ?_⟩
  · exact congrArg Value.list (sliceOf_eq_itemsWithin xs start? stop?)
  · exact congrArg Value.string (sliceOf_eq_itemsWithin t start? stop?)
  · refine ⟨_, LoopSource.read_append_slices ht hread slices, fun r o c item children => ?_⟩
    have hitems := LoopSource.items_foldl_cut ⟨c, r⟩ source slices
    exact ⟨hitems, hitems ▸ Node.render_loop r o c item children _⟩
  · exact ⟨(PathText.root hname).balanced, LoopSource.read_of_isIdentifier hname,
      LoopSource.items_of_isIdentifier hname hword hbound⟩

/-- Bounds at the two ends of the range of a word, and a slice of what they keep. -/
theorem slices_fit_of_outermost_bounds :
    let xs : List Value := [.null, .bool true, .string "a".toList, .bool false]
    let s : Scope := ⟨[("xs".toList, .list xs)], Registry.empty⟩
    let t := "xs[-9223372036854775808:9223372036854775807][ -3 : -1]".toList
    Text.isWord (positionOf (-9223372036854775808) xs.length) = true ∧
      (Value.list xs).atSlice (some (-2)) (some (-1)) = .list [.string "a".toList] ∧
      ∃ cut, LoopSource.read t = .ok cut ∧ cut.items s = [.bool true, .string "a".toList] := by
  intro xs s t
  obtain ⟨hfit, -, -, hsucc, hloop, hname⟩ := slices_fit
  let slices : List WrittenSlice :=
    [⟨some (-9223372036854775808), some 9223372036854775807, by decide, by decide,
        .none, .none, .none, .none⟩,
      ⟨some (-3), some (-1), by decide, by decide, .space, .space, .space, .none⟩]
  have htext : "xs".toList ++ slices.flatMap WrittenSlice.text = t := by decide +kernel
  have hwithin (v w x y : Value) : slices.foldl WrittenSlice.within [v, w, x, y] = [w, x] := by
    simp only [slices, List.foldl_cons, List.foldl_nil, WrittenSlice.within,
      ← sliceOf_eq_itemsWithin]
    rfl
  obtain ⟨hbalanced, hroot, hlist⟩ := hname "xs".toList s xs (by decide) (by decide) rfl
  obtain ⟨cut, hread, hrun⟩ := hloop _ _ slices hbalanced hroot
  obtain ⟨hitems, -⟩ := hrun s.registry ⟨[], true⟩ s.vars "x".toList []
  refine ⟨(hfit Value xs).words _ (by decide) (by decide), hsucc xs (-2) (by decide), cut, ?_, ?_⟩
  · rw [← htext, hread]
  · rw [hitems, hlist, hwithin]

end PromptTemplate
