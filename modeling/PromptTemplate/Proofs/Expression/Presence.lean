import PromptTemplate.Proofs.Expression.Resolution

/-!
# Presence

A path leads to something if every step finds what it names in the value that
the steps before it reach. What is found may be null where a key is looked up in
a map or an index in a list; for the other steps, an index into a map and every
dynamic subscript among them, null counts as missing even where it is an entry.
-/

namespace PromptTemplate

variable {ε : Type}

namespace Value

/-- There is something under a key: an entry of a map, be it null, or else a selection that
is not null. -/
def HasKey (v : Value) (key : Text) : Prop :=
  match v with
  | .map entries => key ∈ Dict.keys entries
  | v => (v.atKey key).isNull = false

/-- There is something at an index: an item of a list or an entry of a map, be it null. -/
def HasIndex (v : Value) (i : Int) : Prop :=
  match v with
  | .list items => 0 ≤ positionOf i items.length ∧ positionOf i items.length < items.length
  | .map entries => Text.ofInt i ∈ Dict.keys entries
  | _ => False

/-- There is something at a key or an index that is itself a value. -/
def HasValue (v selector : Value) : Prop :=
  match selector with
  | .string key => v.HasKey key
  | .number x => ∃ i, x.exactInt? = some i ∧ v.HasIndex i
  | _ => False

end Value

/-- What a step names is there. -/
def Step.Present (value : ε → Value) (v : Value) : Step ε → Prop
  | .key name => v.HasKey name
  | .index i => v.HasIndex i
  | .slice start? stop? => (v.atSlice start? stop?).isNull = false
  | .dynamic operand => v.HasValue (value operand)

/-- The steps that find null: a key in a map and an index in a list. -/
def Step.FindsNull (v : Value) : Step ε → Prop
  | .key _ => ∃ entries, v = .map entries
  | .index _ => ∃ items, v = .list items
  | _ => False

/-- What a step names is there, and if that is null the step finds null. -/
def Step.Found (value : ε → Value) (v : Value) (step : Step ε) : Prop :=
  step.Present value v ∧ ((step.select value v).isNull = true → step.FindsNull v)

/-- Each step is related to the value that the steps before it reach. -/
def Step.Along (value : ε → Value) (related : Value → Step ε → Prop) (v : Value) :
    List (Step ε) → Prop
  | [] => True
  | step :: steps => related v step ∧ Along value related (step.select value v) steps

/-- The root of a path is bound, and each step is related to the value it starts from. -/
def Path.Leads (s : Scope) (related : Value → Step Text → Prop) (p : Path Text) : Prop :=
  ∃ v, s.vars.get? p.root = some v ∧ Step.Along (evaluate s) related v p.steps

/-- A key under which there is anything but null is one of the keys. -/
theorem Dict.mem_keys_of_not_null {d : Dict Value} {key : Text}
    (h : ((d.get? key).getD .null).isNull = false) : key ∈ d.keys := by
  rw [← contains_iff, contains]
  cases hentry : d.get? key with
  | none =>
    rw [hentry] at h
    cases h
  | some v => rfl

namespace Value

theorem hasKey_of_not_null {v : Value} {key : Text} (h : (v.atKey key).isNull = false) :
    v.HasKey key := by
  cases v with
  | map entries => exact Dict.mem_keys_of_not_null h
  | _ => exact h

/-- An index names a place in a list if there is an item at it. -/
theorem isSome_placeOf?_iff (items : List Value) (i : Int) :
    (placeOf? i items.length).isSome = true ↔ HasIndex (.list items) i := by
  rw [placeOf?_eq]
  split
  · next h => exact ⟨fun _ => h, fun _ => rfl⟩
  · next h => exact ⟨fun hsome => absurd hsome Bool.false_ne_true, fun hindex => absurd hindex h⟩

theorem hasIndex_of_not_null {v : Value} {i : Int} (h : (v.atIndex i).isNull = false) :
    v.HasIndex i := by
  cases v with
  | map entries => exact Dict.mem_keys_of_not_null h
  | list items =>
    rw [← isSome_placeOf?_iff]
    cases hplace : placeOf? i items.length with
    | none =>
      rw [atIndex, hplace] at h
      cases h
    | some place => rfl
  | _ => cases h

theorem hasValue_of_not_null {v selector : Value} (h : (v.atValue selector).isNull = false) :
    v.HasValue selector := by
  cases selector with
  | string key => exact hasKey_of_not_null h
  | number x =>
    rw [atValue] at h
    cases hi : x.exactInt? with
    | none =>
      rw [hi] at h
      cases h
    | some i =>
      rw [hi] at h
      exact ⟨i, hi, hasIndex_of_not_null h⟩
  | _ => cases h

end Value

namespace Step

/-- What selects anything but null is there. -/
theorem present_of_not_null {value : ε → Value} {v : Value} {step : Step ε}
    (h : (step.select value v).isNull = false) : step.Present value v := by
  cases step with
  | key name => exact Value.hasKey_of_not_null h
  | index i => exact Value.hasIndex_of_not_null h
  | slice start? stop? => exact h
  | dynamic operand => exact Value.hasValue_of_not_null h

/-- For a step that finds null it is enough that something is there. -/
theorem found_iff_present {value : ε → Value} {v : Value} {step : Step ε}
    (h : step.FindsNull v) : step.Found value v ↔ step.Present value v :=
  ⟨And.left, fun hpresent => ⟨hpresent, fun _ => h⟩⟩

/-- For any other step it has to be something but null. -/
theorem found_iff_not_null {value : ε → Value} {v : Value} {step : Step ε}
    (h : ¬ step.FindsNull v) : step.Found value v ↔ (step.select value v).isNull = false := by
  constructor
  · rintro ⟨-, hnull⟩
    rw [← Bool.not_eq_true]
    exact fun hn => h (hnull hn)
  · intro hnull
    refine ⟨present_of_not_null hnull, fun hn => ?_⟩
    rw [hnull] at hn
    cases hn

/-- One step of the search for something. -/
theorem finds_iff (value : ε → Value) (v : Value) (step : Step ε) :
    step.finds value v = true ↔ step.Found value v := by
  have hother (hfinds : step.finds value v = !(step.select value v).isNull)
      (hnull : ¬ step.FindsNull v) : step.finds value v = true ↔ step.Found value v := by
    rw [found_iff_not_null hnull, hfinds, Bool.not_eq_true']
  cases step with
  | key name =>
    cases v with
    | map entries =>
      have hnull : (Step.key name : Step ε).FindsNull (.map entries) := ⟨entries, rfl⟩
      rw [found_iff_present hnull]
      exact Dict.contains_iff entries name
    | _ => exact hother rfl fun ⟨_, h⟩ => Value.noConfusion h
  | index i =>
    cases v with
    | list items =>
      have hnull : (Step.index i : Step ε).FindsNull (.list items) := ⟨items, rfl⟩
      rw [found_iff_present hnull]
      exact Value.isSome_placeOf?_iff items i
    | _ => exact hother rfl fun ⟨_, h⟩ => Value.noConfusion h
  | slice start? stop? => exact hother rfl id
  | dynamic operand => exact hother rfl id

/-- The whole search for something. -/
theorem findAll_iff (value : ε → Value) (v : Value) (steps : List (Step ε)) :
    findAll value v steps = true ↔ Along value (Found value) v steps := by
  induction steps generalizing v with
  | nil => exact ⟨fun _ => trivial, fun _ => rfl⟩
  | cons step steps ih => rw [findAll, Bool.and_eq_true, finds_iff, ih, Along]

end Step

/-- A path is defined if its root is bound and what each step names is there, where null
counts only for a key in a map and an index in a list. -/
theorem isDefined_iff_leads (s : Scope) {t : Text} {p : Path Text}
    (h : Path.read? (Text.trim t) = some p) :
    isDefined s t = true ↔ p.Leads s (Step.Found (evaluate s)) := by
  simp only [isDefined, h, Path.Leads]
  cases s.vars.get? p.root with
  | none =>
    constructor
    · intro hd
      cases hd
    · rintro ⟨v, hv, -⟩
      cases hv
  | some v =>
    constructor
    · intro hd
      exact ⟨v, rfl, (Step.findAll_iff (evaluate s) v p.steps).1 hd⟩
    · rintro ⟨w, hw, hd⟩
      cases hw
      exact (Step.findAll_iff (evaluate s) v p.steps).2 hd

/-- A null in a list that is an entry of a map is found. -/
theorem isDefined_iff_leads_of_null_item :
    let s : Scope := ⟨[("m".toList, .map [("xs".toList, .list [.null])])], Registry.empty⟩
    let p : Path Text := ⟨"m".toList, [.key "xs".toList, .index (-1)]⟩
    Path.read? (Text.trim "m.xs[-1]".toList) = some p ∧ isDefined s "m.xs[-1]".toList = true := by
  intro s p
  have hread : Path.read? (Text.trim "m.xs[-1]".toList) = some p := by
    have hroot : Text.isIdentifier "m".toList = true := by decide
    let ws : List WrittenStep := [.dotted "xs".toList rfl, .index (-1) rfl .none .none]
    have htext : "m.xs[-1]".toList = pathText "m".toList ws := by decide +kernel
    rw [htext]
    exact Path.read?_trim_pathText hroot ws
  have hkey : (Step.key "xs".toList).Present (evaluate s) (.map [("xs".toList, .list [.null])]) :=
    List.mem_cons_self
  have hindex : (Step.index (-1)).Present (evaluate s) (.list [.null]) :=
    ⟨by decide, by decide⟩
  refine ⟨hread, (isDefined_iff_leads s hread).2 ⟨_, rfl, ⟨hkey, fun _ => ⟨_, rfl⟩⟩, ?_, trivial⟩⟩
  exact ⟨hindex, fun _ => ⟨_, rfl⟩⟩

/-- An entry under a number whose value is null is there, yet the index does not find it. -/
theorem isDefined_not_iff_present_of_null_entry :
    let s : Scope := ⟨[("m".toList, .map [("0".toList, .null)])], Registry.empty⟩
    let p : Path Text := ⟨"m".toList, [.index 0]⟩
    Path.read? (Text.trim "m[0]".toList) = some p ∧
      ¬ (isDefined s "m[0]".toList = true ↔ p.Leads s (Step.Present (evaluate s))) := by
  intro s p
  have hread : Path.read? (Text.trim "m[0]".toList) = some p := by
    have hroot : Text.isIdentifier "m".toList = true := by decide
    let ws : List WrittenStep := [.index 0 rfl .none .none]
    have htext : "m[0]".toList = pathText "m".toList ws := by decide +kernel
    rw [htext]
    exact Path.read?_trim_pathText hroot ws
  have hzero : Text.ofInt 0 = "0".toList := by decide +kernel
  have hpresent : (Step.index 0).Present (evaluate s) (.map [("0".toList, .null)]) := by
    rw [Step.Present, Value.HasIndex, hzero]
    exact List.mem_cons_self
  have hselect : (Step.index 0).select (evaluate s) (.map [("0".toList, .null)]) = .null := by
    rw [Step.select, Value.atIndex, hzero]
    rfl
  have hfinds : (Step.index 0).finds (evaluate s) (.map [("0".toList, .null)]) = false :=
    congrArg (fun v : Value => !v.isNull) hselect
  have hundefined : isDefined s "m[0]".toList = false := by
    simp only [isDefined, hread]
    exact Bool.and_eq_false_imp.2 fun h => absurd h (by rw [hfinds]; decide)
  refine ⟨hread, fun h => ?_⟩
  rw [hundefined] at h
  exact Bool.false_ne_true (h.2 ⟨_, rfl, hpresent, trivial⟩)

end PromptTemplate
