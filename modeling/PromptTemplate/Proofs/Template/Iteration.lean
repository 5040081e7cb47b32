import PromptTemplate.Proofs.Template.Noninterference

/-!
# Iterations of a loop

The iterations of a loop are independent of each other: what the body renders to
in one of them is decided by the context of the loop, by the item, and by the
place and the number of the items. A loop joins these outputs, or raises what
the first iteration raises that fails. If the body does not mention `loop`, then
the place and the number do not matter either, and a loop over two lists in a
row is a loop over the first and then one over the second.
-/

namespace PromptTemplate

/-!
### Results in order
-/

section

variable {ε α : Type}

/-- All results together are the values, if every one of them is a value. -/
theorem mapM_id_eq_ok_iff {results : List (Except ε α)} {values : List α} :
    results.mapM id = .ok values ↔ results = values.map .ok := by
  induction results generalizing values with
  | nil => cases values <;> simp [pure, Except.pure]
  | cons result results ih =>
    rw [List.mapM_cons]
    cases result with
    | error e => cases values <;> simp [bind, Except.bind]
    | ok value =>
      cases hrest : results.mapM id with
      | error e => cases values <;> simp [bind, Except.bind, ← ih, hrest]
      | ok rest => cases values <;> simp [bind, Except.bind, pure, Except.pure, ← ih, hrest]

/-- All results together are the first error, if one of them is an error. -/
theorem mapM_id_eq_error_iff {results : List (Except ε α)} {e : ε} :
    results.mapM id = .error e ↔
      ∃ i : Nat, results[i]? = some (.error e) ∧
        ∀ j < i, ∃ value, results[j]? = some (.ok value) := by
  induction results with
  | nil => simp [pure, Except.pure]
  | cons result results ih =>
    rw [List.mapM_cons]
    cases result with
    | error f =>
      constructor
      · intro h
        cases h
        exact ⟨0, rfl, fun j hj => absurd hj (Nat.not_lt_zero j)⟩
      · rintro ⟨i, hi, hbefore⟩
        cases i with
        | zero =>
          cases hi
          rfl
        | succ i =>
          -- an earlier result would have to be a value
          obtain ⟨value, hvalue⟩ := hbefore 0 (Nat.succ_pos i)
          cases hvalue
    | ok value =>
      have hcons : (do
          let first ← id (Except.ok value : Except ε α)
          let rest ← results.mapM id
          pure (first :: rest)) = .error e ↔ results.mapM id = .error e := by
        cases results.mapM id <;> simp [bind, Except.bind, pure, Except.pure]
      rw [hcons, ih]
      constructor
      · rintro ⟨i, hi, hbefore⟩
        refine ⟨i + 1, hi, fun j hj => ?_⟩
        cases j with
        | zero => exact ⟨value, rfl⟩
        | succ j => exact hbefore j (Nat.lt_of_succ_lt_succ hj)
      · rintro ⟨i, hi, hbefore⟩
        cases i with
        | zero => cases hi
        | succ i => exact ⟨i, hi, fun j hj => hbefore (j + 1) (Nat.succ_lt_succ hj)⟩

end

/-- Without a separator joining is a matter of the parts in order. -/
theorem intercalate_nil_append (first later : List Text) :
    ([] : Text).intercalate (first ++ later) =
      ([] : Text).intercalate first ++ ([] : Text).intercalate later := by
  have hflatten (parts : List Text) : ([] : Text).intercalate parts = parts.flatten := by
    induction parts with
    | nil => rfl
    | cons part parts ih =>
      cases parts with
      | nil => simp
      | cons next parts => simp [List.intercalate_cons_cons, ih]
  rw [hflatten, hflatten, hflatten, List.flatten_append]

/-!
### Iterations
-/

section

variable (r : Registry) (o : Options) (c : Context) (item : Text) (children : List Node)

/-- What the body of a loop renders to in each iteration over given items: alone, in the
context of the loop with the item bound first and then `loop`. -/
def iterationResults (items : List Value) : List (Except Raised Text) :=
  items.mapIdx fun i v =>
    (renderAll r o children ((c.insert item v).insert "loop".toList
      (.map [("index".toList, .ofNat (i + 1)), ("index0".toList, .ofNat i),
        ("first".toList, .bool (i = 0)), ("last".toList, .bool (i + 1 = items.length)),
        ("length".toList, .ofNat items.length)]))).result

/-- A loop renders to its iterations, in order. -/
theorem Node.render_loop (source : LoopSource) :
    ((Node.loop item source children).render r o c).result =
      ((iterationResults r o c item children (source.items ⟨c, r⟩)).mapM id).map
        o.loopSeparator.intercalate := by
  rw [iterationResults, List.mapIdx_eq_zipIdx_map, List.mapM_map]
  rfl

/-- A body that does not mention `loop` renders as if the item alone were bound. -/
theorem iterationResults_eq_map (h : ∀ t ∈ textsOf children, ¬ "loop".toList <:+: t)
    (items : List Value) : iterationResults r o c item children items =
      items.map fun v => (renderAll r o children (c.insert item v)).result := by
  have hunseen (v info : Value) :
      Agree (fun x => ∃ t ∈ textsOf children, x <:+: t)
        ((c.insert item v).insert "loop".toList info) (c.insert item v) := by
    rintro x ⟨t, ht, hx⟩
    refine Dict.get?_insert_of_ne info ?_
    rintro rfl
    exact h t ht hx
  have hbody (v info : Value) :
      (renderAll r o children ((c.insert item v).insert "loop".toList info)).result =
        (renderAll r o children (c.insert item v)).result :=
    (renderAll_alike r o children (fun t ht x hx => ⟨t, ht, hx⟩) (hunseen v info)).result
  let alone (v : Value) := (renderAll r o children (c.insert item v)).result
  calc iterationResults r o c item children items
      = items.mapIdx fun _ v => alone v := by simp only [iterationResults, hbody, alone]
    _ = (items.zipIdx.map Prod.fst).map alone := by
        rw [List.mapIdx_eq_zipIdx_map, List.map_map]
        rfl
    _ = items.map alone := by rw [List.zipIdx_map_fst]

end

/-- A loop gives the outputs of its iterations with separators between them, if all of
them have one, and else raises what the first raises that has none. The other items
matter to an iteration by their number only. Without a separator, and with a body that does
not mention `loop`, two lists in a row are rendered one after the other. -/
theorem loop_iterations (r : Registry) (o : Options) (c : Context) (item : Text)
    (children : List Node) :
    let results := iterationResults r o c item children
    let items (source : LoopSource) := source.items ⟨c, r⟩
    let render (source : LoopSource) := ((Node.loop item source children).render r o c).result
    (∀ source output, render source = .ok output ↔
      ∃ outputs : List Text, results (items source) = outputs.map .ok ∧
        output = o.loopSeparator.intercalate outputs) ∧
    (∀ source e, render source = .error e ↔
      ∃ i : Nat, (results (items source))[i]? = some (.error e) ∧
        ∀ j < i, ∃ output, (results (items source))[j]? = some (.ok output)) ∧
    (∀ (xs ys : List Value) (i : Nat), xs.length = ys.length → xs[i]? = ys[i]? →
      (results xs)[i]? = (results ys)[i]?) ∧
    (o.loopSeparator = [] → (∀ t ∈ textsOf children, ¬ "loop".toList <:+: t) →
      ∀ whole first second, items whole = items first ++ items second →
        render whole = do return (← render first) ++ (← render second)) := by
  intro results items render
  have hrender (source : LoopSource) : render source =
      ((results (items source)).mapM id).map o.loopSeparator.intercalate :=
    Node.render_loop r o c item children source
  refine ⟨fun source output => ?_, fun source e => ?_, fun xs ys i hlength hi => ?_, ?_⟩
  · rw [hrender]
    constructor
    · intro h
      cases hall : (results (items source)).mapM id with
      | error e => rw [hall] at h; cases h
      | ok outputs =>
        rw [hall] at h
        cases h
        exact ⟨outputs, mapM_id_eq_ok_iff.1 hall, rfl⟩
    · rintro ⟨outputs, hall, rfl⟩
      rw [mapM_id_eq_ok_iff.2 hall]
      rfl
  · rw [hrender, ← mapM_id_eq_error_iff]
    cases (results (items source)).mapM id <;> simp [Except.map]
  · simp only [results, iterationResults, List.getElem?_mapIdx, hi, hlength]
  · intro hseparator hunseen whole first second hitems
    have happend : results (items whole) = results (items first) ++ results (items second) := by
      simp only [results, iterationResults_eq_map r o c item children hunseen, hitems,
        List.map_append]
    rw [hrender, hrender, hrender, hseparator, happend, List.mapM_append]
    cases (results (items first)).mapM id with
    | error e => rfl
    | ok outputs =>
      cases (results (items second)).mapM id with
      | error e => rfl
      | ok later => exact congrArg Except.ok (intercalate_nil_append outputs later)

/-- A body that assigns and runs another loop over the item, under the name of the item. -/
theorem loop_iterations_of_halves :
    let children : List Node :=
      [.assign "y".toList "x".toList,
        .loop "x".toList (.expression "y".toList) [.interpolation "x + y".toList ⟨false, true⟩]]
    let c : Context := [("xs".toList, .list [.list [.null], .string "a".toList, .bool true])]
    let xs : LoopSource := .expression "xs".toList
    let render (source : LoopSource) :=
      ((Node.loop "x".toList source children).render Registry.empty ⟨[], true⟩ c).result
    (render xs = do
      return (← render (.slice xs none (some 1))) ++ (← render (.slice xs (some 1) none))) ∧
    (iterationResults Registry.empty ⟨[], true⟩ c "x".toList children [.null, .bool true])[1]? =
      (iterationResults Registry.empty ⟨[], true⟩ c "x".toList children
        [.list [.null], .bool true])[1]? := by
  intro children c xs render
  obtain ⟨-, -, hother, happend⟩ :=
    loop_iterations Registry.empty ⟨[], true⟩ c "x".toList children
  have hunseen : ∀ t ∈ textsOf children, ¬ "loop".toList <:+: t := by decide
  have hhalves (all : List Value) :
      all = sliceOf all none (some 1) ++ sliceOf all (some 1) none := by
    change all = (all.take (boundOf 1 all.length)).drop 0 ++
      (all.take all.length).drop (boundOf 1 all.length)
    rw [List.drop_zero, List.take_length, List.take_append_drop]
  have hitems : xs.items ⟨c, Registry.empty⟩ =
      (LoopSource.slice xs none (some 1)).items ⟨c, Registry.empty⟩ ++
        (LoopSource.slice xs (some 1) none).items ⟨c, Registry.empty⟩ := hhalves _
  exact ⟨happend rfl hunseen _ _ _ hitems, hother _ _ 1 rfl rfl⟩

end PromptTemplate
