import PromptTemplate.Proofs.Dict
import PromptTemplate.Tool

/-!
# Declarations of properties

A schema is what a log of declarations leaves. Its properties follow the log as
the entries of a dictionary do: a property that is declared again keeps its place
and is replaced. Its required names do not: a name is listed once for each time
that it is declared as required, and declaring it again takes nothing back. The
two agree as long as no name is declared again after it has been declared as
required, and in no other log.
-/

namespace PromptTemplate

/-- A declaration of a property. -/
structure Declaration where
  name : Text
  property : Property
  isRequired : Bool
  deriving DecidableEq, Repr

namespace Declaration

variable {d : Declaration} {log : List Declaration} {name : Text}

/-- The entry that a declaration makes. -/
def entry (d : Declaration) : Text × Property := (d.name, d.property)

/-- The names that a log declares as required, once for each time that it does. -/
def requiredNames (log : List Declaration) : List Text :=
  (log.filter Declaration.isRequired).map Declaration.name

/-- The last declaration of a name. -/
def last? (log : List Declaration) (name : Text) : Option Declaration :=
  log.reverse.find? fun d => d.name = name

/-- The last declaration of a name is a required one. -/
def IsRequiredLast (log : List Declaration) (name : Text) : Prop :=
  ∃ d, last? log name = some d ∧ d.isRequired = true

/-- The names are those whose last declaration is a required one, and each is there once. -/
def IsLatest (log : List Declaration) (names : List Text) : Prop :=
  names.Nodup ∧ ∀ name, name ∈ names ↔ IsRequiredLast log name

/-- No declaration as required is followed by another one of the same name. -/
def IsSettled (log : List Declaration) : Prop :=
  log.Pairwise fun earlier later => earlier.name = later.name → earlier.isRequired = false

theorem mem_requiredNames :
    name ∈ requiredNames log ↔ ∃ d ∈ log, d.isRequired = true ∧ d.name = name := by
  simp [requiredNames, and_assoc]

/-- A first declaration is the last of its name only if the others have other names. -/
theorem last?_cons (d : Declaration) (log : List Declaration) (name : Text) :
    last? (d :: log) name = (last? log name).or (if d.name = name then some d else none) := by
  rw [last?, List.reverse_cons, List.find?_append, List.find?_singleton, last?]
  simp

/-- The last declaration of a name is one of the log, under that name. -/
theorem mem_of_last? (h : last? log name = some d) : d ∈ log ∧ d.name = name :=
  ⟨List.mem_reverse.1 (List.mem_of_find?_eq_some h), by simpa using List.find?_some h⟩

/-- A name without a last declaration is not declared. -/
theorem last?_eq_none_iff : last? log name = none ↔ ∀ d ∈ log, d.name ≠ name := by
  simp [last?]

/-- What a log enters under a name is the property of its last declaration. -/
theorem lookup_entries (log : List Declaration) (name : Text) :
    (log.map entry).reverse.lookup name = (last? log name).map Declaration.property := by
  rw [last?, ← List.map_reverse]
  generalize log.reverse = declared
  induction declared with
  | nil => rfl
  | cons d declared ih =>
    rw [List.map_cons, List.lookup_cons, List.find?_cons, ih]
    by_cases hname : d.name = name
    · simp [entry, hname]
    · have hother : (name == d.name) = false := beq_eq_false_iff_ne.2 (Ne.symm hname)
      simp [entry, hname, hother]

/-- Declarations of other names do not matter to what is required last. -/
theorem isRequiredLast_cons_of_ne (h : d.name ≠ name) :
    IsRequiredLast (d :: log) name ↔ IsRequiredLast log name := by
  rw [IsRequiredLast, last?_cons, if_neg h, Option.or_none, IsRequiredLast]

/-- A name that is required last is listed. -/
theorem mem_of_isRequiredLast (h : IsRequiredLast log name) : name ∈ requiredNames log := by
  obtain ⟨d, hlast, hrequired⟩ := h
  obtain ⟨hmem, hname⟩ := mem_of_last? hlast
  exact mem_requiredNames.2 ⟨d, hmem, hrequired, hname⟩

/-- A first declaration that is not required changes nothing. -/
theorem isLatest_cons_of_optional (h : d.isRequired = false) :
    IsLatest (d :: log) (requiredNames (d :: log)) ↔ IsLatest log (requiredNames log) := by
  have hnames : requiredNames (d :: log) = requiredNames log := by simp [requiredNames, h]
  have hlast (name : Text) : IsRequiredLast (d :: log) name ↔ IsRequiredLast log name := by
    by_cases hname : d.name = name
    · rw [IsRequiredLast, last?_cons, if_pos hname, IsRequiredLast]
      cases last? log name with
      | none => simp [h]
      | some e => simp
    · exact isRequiredLast_cons_of_ne hname
  simp only [IsLatest, hnames, hlast]

/-- A first declaration that is required is the latest of its name only if there is no other. -/
theorem isLatest_cons_of_required (h : d.isRequired = true) :
    IsLatest (d :: log) (requiredNames (d :: log)) ↔
      (∀ e ∈ log, e.name ≠ d.name) ∧ IsLatest log (requiredNames log) := by
  have hnames : requiredNames (d :: log) = d.name :: requiredNames log := by
    simp [requiredNames, h]
  rw [IsLatest, hnames, List.nodup_cons]
  constructor
  · rintro ⟨⟨hnew, hnodup⟩, hlast⟩
    have hother : last? log d.name = none := by
      -- another declaration would be the last, required, and list the name again
      cases hfound : last? log d.name with
      | none => rfl
      | some e =>
        obtain ⟨f, hf, hrequired⟩ := (hlast d.name).1 List.mem_cons_self
        rw [last?_cons, hfound, Option.some_or] at hf
        obtain rfl : e = f := Option.some.inj hf
        exact absurd (mem_of_isRequiredLast ⟨e, hfound, hrequired⟩) hnew
    refine ⟨last?_eq_none_iff.1 hother, hnodup, fun name => ?_⟩
    by_cases hname : d.name = name
    · subst hname
      exact iff_of_false hnew fun hrequired => hnew (mem_of_isRequiredLast hrequired)
    · rw [← isRequiredLast_cons_of_ne hname, ← hlast, List.mem_cons, or_iff_right (Ne.symm hname)]
  · rintro ⟨hother, hnodup, hlast⟩
    have hnew : d.name ∉ requiredNames log := by
      intro hmem
      obtain ⟨e, he, -, hname⟩ := mem_requiredNames.1 hmem
      exact hother e he hname
    refine ⟨⟨hnew, hnodup⟩, fun name => ?_⟩
    by_cases hname : d.name = name
    · subst hname
      refine iff_of_true List.mem_cons_self ⟨d, ?_, h⟩
      rw [last?_cons, last?_eq_none_iff.2 hother, if_pos rfl, Option.none_or]
    · rw [isRequiredLast_cons_of_ne hname, ← hlast, List.mem_cons, or_iff_right (Ne.symm hname)]

/-- The required names of a log are the latest exactly if the log is settled. -/
theorem isLatest_iff_isSettled (log : List Declaration) :
    IsLatest log (requiredNames log) ↔ IsSettled log := by
  induction log with
  | nil => simp [IsLatest, IsRequiredLast, IsSettled, requiredNames, last?]
  | cons d log ih =>
    rw [IsSettled, List.pairwise_cons, ← IsSettled, ← ih]
    cases h : d.isRequired with
    | false => simp [isLatest_cons_of_optional h]
    | true => simp [isLatest_cons_of_required h, eq_comm]

end Declaration

namespace Parameters

/-- One more declaration. -/
def declare (p : Parameters) (d : Declaration) : Parameters :=
  p.property d.name d.property d.isRequired

/-- Declarations one after the other. -/
def declareAll (p : Parameters) (log : List Declaration) : Parameters := log.foldl declare p

/-- A declaration enters a property, and lists its name if it is required. -/
theorem declare_eq (p : Parameters) (d : Declaration) :
    p.declare d = ⟨p.type, p.required ++ Declaration.requiredNames [d],
      p.properties.insertAll [d.entry]⟩ := by
  cases h : d.isRequired <;>
    simp [declare, property, Declaration.requiredNames, Dict.insertAll, Declaration.entry, h]

/-- A run of declarations enters the properties, and lists the names of the required ones. -/
theorem declareAll_eq (p : Parameters) (log : List Declaration) :
    p.declareAll log = ⟨p.type, p.required ++ Declaration.requiredNames log,
      p.properties.insertAll (log.map Declaration.entry)⟩ := by
  induction log generalizing p with
  | nil => simp [declareAll, Declaration.requiredNames, Dict.insertAll]
  | cons d log ih =>
    have hlater : p.declareAll (d :: log) = (p.declare d).declareAll log := rfl
    have hnames : Declaration.requiredNames (d :: log) =
        Declaration.requiredNames [d] ++ Declaration.requiredNames log := by
      rw [← List.singleton_append, Declaration.requiredNames, List.filter_append, List.map_append]
      rfl
    rw [hlater, ih, declare_eq, hnames, List.append_assoc]
    rfl

/-- What a log of declarations leaves of an empty schema. Each property is there once, at the
place of its first declaration, and as its last one says. The required names are those of all
required declarations, in order and as often as there are; these are the names whose last
declaration is a required one, each of them once, exactly if no required declaration is
followed by another of its name. -/
theorem declareAll_empty (log : List Declaration) :
    let p := empty.declareAll log
    p.type = .object ∧
      (p.properties.keys = (log.map Declaration.name).eraseDups ∧ p.properties.keys.Nodup) ∧
      (∀ name, p.properties.get? name =
        (Declaration.last? log name).map Declaration.property) ∧
      p.required = Declaration.requiredNames log ∧
      (p.required.Nodup ∧ (∀ name, name ∈ p.required ↔
          ∃ d, Declaration.last? log name = some d ∧ d.isRequired = true) ↔
        log.Pairwise fun earlier later =>
          earlier.name = later.name → earlier.isRequired = false) := by
  intro p
  have hp : p = ⟨.object, Declaration.requiredNames log,
      Dict.ofEntries (log.map Declaration.entry)⟩ := declareAll_eq empty log
  rw [hp]
  refine ⟨rfl, ⟨?_, Dict.nodup_keys_ofEntries _⟩, fun name => ?_, rfl,
    Declaration.isLatest_iff_isSettled log⟩
  · rw [Dict.keys_ofEntries, List.map_map]
    rfl
  · rw [Dict.get?_ofEntries, Declaration.lookup_entries]

/-- A property that is declared as required twice is listed twice, and one that is declared
again without is still listed. -/
theorem not_forall_required_latest :
    (¬ ∀ log : List Declaration, (empty.declareAll log).required.Nodup) ∧
      ¬ ∀ (log : List Declaration) (name : Text), name ∈ (empty.declareAll log).required ↔
        ∃ d, Declaration.last? log name = some d ∧ d.isRequired = true := by
  let city (isRequired : Bool) : Declaration := ⟨"city".toList, ⟨.string, []⟩, isRequired⟩
  constructor
  · intro hall
    exact absurd (hall [city true, city true]) (by decide)
  · intro hall
    obtain ⟨d, hlast, hrequired⟩ := (hall [city true, city false] "city".toList).1 (by decide)
    have hagain : Declaration.last? [city true, city false] "city".toList = some (city false) := by
      decide
    rw [hagain] at hlast
    cases hlast
    cases hrequired

end Parameters

end PromptTemplate
