import PromptTemplate.Proofs.Dict
import PromptTemplate.Registry.Builtin

/-!
# Runs of registrations

A registry is what a log of registrations leaves. Its two tables follow the log
independently: each has the names of its own registrations in the order in which
they first occur, and under each name what was registered last. All that can be
asked of a registry is read off the log in this way, also of one that starts
with the built-in names, since these are registrations as well.
-/

namespace PromptTemplate

/-- A filter or a function with the name under which it is registered. -/
inductive Registration where
  | filter (name description : Text) (handler : Value → Arguments → Value)
  | function (name description : Text) (handler : Arguments → Value)

namespace Registration

/-- The registration is one of a filter. -/
def isFilter : Registration → Bool
  | .filter .. => true
  | .function .. => false

/-- The entry of a filter. -/
def filter? : Registration → Option (Text × Described (Value → Arguments → Value))
  | .filter name description handler => some (name, ⟨description, handler⟩)
  | .function .. => none

/-- The entry of a function. -/
def function? : Registration → Option (Text × Described (Arguments → Value))
  | .filter .. => none
  | .function name description handler => some (name, ⟨description, handler⟩)

/-- The filters of a log, those registered again included. -/
def filters (log : List Registration) : List (Text × Described (Value → Arguments → Value)) :=
  log.filterMap filter?

/-- The functions of a log, those registered again included. -/
def functions (log : List Registration) : List (Text × Described (Arguments → Value)) :=
  log.filterMap function?

theorem filters_cons (e : Registration) (log : List Registration) :
    filters (e :: log) = filters [e] ++ filters log := by
  cases e <;> rfl

theorem functions_cons (e : Registration) (log : List Registration) :
    functions (e :: log) = functions [e] ++ functions log := by
  cases e <;> rfl

/-- Without its functions a log has the same filters. -/
theorem filters_filter (log : List Registration) : filters (log.filter isFilter) = filters log := by
  rw [filters, List.filterMap_filter]
  refine List.filterMap_congr fun e _ => ?_
  cases e <;> rfl

/-- Without its filters a log has the same functions. -/
theorem functions_filter (log : List Registration) :
    functions (log.filter fun e => !e.isFilter) = functions log := by
  rw [functions, List.filterMap_filter]
  refine List.filterMap_congr fun e _ => ?_
  cases e <;> rfl

end Registration

/-!
### Entries of a log
-/

/-- Names that are different are all at their first places. -/
theorem eraseDups_of_nodup {names : List Text} (h : names.Nodup) : names.eraseDups = names := by
  induction names with
  | nil => rfl
  | cons name names ih =>
    obtain ⟨hnew, hnames⟩ := List.nodup_cons.1 h
    have hothers : names.filter (fun other => !other == name) = names := by
      refine List.filter_eq_self.2 fun other hother => ?_
      have hne : other ≠ name := fun he => hnew (he ▸ hother)
      simp [hne]
    rw [List.eraseDups_cons, hothers, ih hnames]

section

variable {η : Type}

/-- The names of entries, each at its first place. -/
def namesOf (entries : List (Text × Described η)) : List Text :=
  (entries.map Prod.fst).eraseDups

/-- What entries have last under a name. -/
def last? (entries : List (Text × Described η)) (name : Text) : Option (Described η) :=
  entries.reverse.lookup name

/-- The names and descriptions of entries. -/
def described (entries : List (Text × Described η)) : List (Text × Text) :=
  entries.map fun e => (e.1, e.2.description)

/-- Describing entries keeps their names. -/
theorem map_fst_described (entries : List (Text × Described η)) :
    (described entries).map Prod.fst = entries.map Prod.fst := by
  rw [described, List.map_map]
  rfl

/-- Under a name stands the description of its first entry. -/
theorem lookup_described (entries : List (Text × Described η)) (name : Text) :
    (described entries).lookup name = (entries.lookup name).map Described.description := by
  induction entries with
  | nil => rfl
  | cons e entries ih =>
    rw [described] at ih
    rw [described, List.map_cons, List.lookup_cons, List.lookup_cons, ih]
    cases name == e.1 <;> rfl

/-- The entries with different names are described alike from either end. -/
theorem last_described {d : Dict (Described η)} (h : d.keys.Nodup) (name : Text) :
    (described d).reverse.lookup name = (d.get? name).map Described.description := by
  have hnames : Dict.keys (described d).reverse |>.Nodup := by
    rw [Dict.keys, List.map_reverse, map_fst_described, List.nodup_reverse]
    exact h
  have hfirst := Dict.get?_of_perm hnames (List.reverse_perm (described d)) name
  rw [Dict.get?_eq_lookup, Dict.get?_eq_lookup, lookup_described] at hfirst
  rw [hfirst, Dict.get?_eq_lookup]

end

namespace Registry

/-- One more registration. -/
def register (r : Registry) : Registration → Registry
  | .filter name description handler => r.registerFilter name description handler
  | .function name description handler => r.registerFunction name description handler

/-- Registrations one after the other. -/
def run (r : Registry) (log : List Registration) : Registry := log.foldl register r

/-- A registration inserts into the table of its kind and leaves the other alone. -/
theorem tables_register (r : Registry) (e : Registration) :
    (r.register e).functions = r.functions.insertAll (Registration.functions [e]) ∧
      (r.register e).filters = r.filters.insertAll (Registration.filters [e]) := by
  cases e with
  | filter name description handler => exact ⟨rfl, rfl⟩
  | function name description handler => exact ⟨rfl, rfl⟩

/-- A run inserts the functions of the log into one table and its filters into the other. -/
theorem tables_run (r : Registry) (log : List Registration) :
    (r.run log).functions = r.functions.insertAll (Registration.functions log) ∧
      (r.run log).filters = r.filters.insertAll (Registration.filters log) := by
  induction log generalizing r with
  | nil => exact ⟨rfl, rfl⟩
  | cons e log ih =>
    obtain ⟨hfunctions, hfilters⟩ := r.tables_register e
    have hlater := ih (r.register e)
    rw [hfunctions, hfilters] at hlater
    rw [Registration.functions_cons, Registration.filters_cons, Dict.insertAll, Dict.insertAll,
      List.foldl_append, List.foldl_append]
    exact hlater

/-- The registrations that a registry holds. -/
def held (r : Registry) : List Registration :=
  r.functions.map (fun e => .function e.1 e.2.description e.2.handler)
    ++ r.filters.map fun e => .filter e.1 e.2.description e.2.handler

/-- The built-in names are registrations like any others. -/
theorem run_builtin (now : Instant) (steps : List Registration) :
    (builtin now).run steps = empty.run ((builtin now).held ++ steps) := by
  have hheld : List.foldl register empty (builtin now).held = builtin now := rfl
  rw [run, run, List.foldl_append, hheld]

/-- The functions of a registry that is run from nothing. -/
theorem functions_run (log : List Registration) :
    (empty.run log).functions = Dict.ofEntries (Registration.functions log) :=
  (empty.tables_run log).1

/-- The filters of a registry that is run from nothing. -/
theorem filters_run (log : List Registration) :
    (empty.run log).filters = Dict.ofEntries (Registration.filters log) :=
  (empty.tables_run log).2

/-!
### Sentinels
-/

/-- The bindings that a context gets for the free ones of some names. -/
def sentinels (names : List Text) (c : Context) : Context :=
  (names.filter fun name => name ∉ c.keys).map fun name => (name, .string sentinel)

/-- One name gets its sentinel at the end if it is free. -/
theorem bind_eq_append (c : Context) (name : Text) :
    (if c.contains name then c else c.insert name (.string sentinel)) =
      c ++ sentinels [name] c := by
  by_cases hbound : name ∈ c.keys
  · have hnone : sentinels [name] c = [] := by simp [sentinels, hbound]
    rw [if_pos ((Dict.contains_iff c name).2 hbound), hnone, List.append_nil]
  · have hfree : ¬ c.contains name = true := fun h => hbound ((Dict.contains_iff c name).1 h)
    have hone : sentinels [name] c = [(name, .string sentinel)] := by simp [sentinels, hbound]
    rw [if_neg hfree, hone, Dict.insert_of_not_mem hbound]

/-- Another name that is bound makes no difference. -/
theorem sentinels_append {names : List Text} {name : Text} (h : name ∉ names) (c : Context) :
    sentinels names (c ++ sentinels [name] c) = sentinels names c := by
  have hadded : ∀ other ∈ Dict.keys (sentinels [name] c), other = name := by
    intro other hother
    rw [Dict.keys, sentinels, List.map_map] at hother
    obtain ⟨added, hadded, rfl⟩ := List.mem_map.1 hother
    exact List.mem_singleton.1 (List.mem_filter.1 hadded).1
  have hfree : ∀ other ∈ names, other ∈ Dict.keys (c ++ sentinels [name] c) ↔ other ∈ c.keys := by
    intro other hother
    have hne : other ∉ Dict.keys (sentinels [name] c) := fun he => h (hadded other he ▸ hother)
    rw [Dict.keys_append, List.mem_append, or_iff_left hne]
  exact congrArg (List.map _)
    (List.filter_congr fun other hother => decide_eq_decide.2 (not_congr (hfree other hother)))

/-- Sentinels go behind the bindings of a context, one for each name that is free. -/
theorem injectSentinels_eq (r : Registry) (h : r.functions.keys.Nodup) (c : Context) :
    r.injectSentinels c = c ++ sentinels r.functions.keys c := by
  rw [injectSentinels]
  generalize r.functions = functions at h ⊢
  induction functions generalizing c with
  | nil => exact (List.append_nil c).symm
  | cons e rest ih =>
    rw [Dict.keys_cons, List.nodup_cons] at h
    have hfirst : sentinels (Dict.keys (e :: rest)) c =
        sentinels [e.1] c ++ sentinels (Dict.keys rest) c := by
      rw [sentinels, Dict.keys_cons, ← List.singleton_append, List.filter_append, List.map_append]
      rfl
    rw [List.foldl_cons, bind_eq_append, ih _ h.2, sentinels_append h.1, hfirst, List.append_assoc]

/-- Names that have their sentinels get no more of them. -/
theorem sentinels_again (names : List Text) (c : Context) :
    sentinels names (c ++ sentinels names c) = [] := by
  rw [sentinels, List.map_eq_nil_iff, List.filter_eq_nil_iff]
  intro name hname
  have hbound : name ∈ Dict.keys (c ++ sentinels names c) := by
    rw [Dict.keys_append, List.mem_append]
    by_cases hfree : name ∈ c.keys
    · exact .inl hfree
    · have hadded : name ∈ names.filter fun name => name ∉ c.keys :=
        List.mem_filter.2 ⟨hname, decide_eq_true hfree⟩
      exact .inr (List.mem_map.2 ⟨_, List.mem_map.2 ⟨name, hadded, rfl⟩, rfl⟩)
  simpa using hbound

/-!
### What a log leaves
-/

/-- All that can be asked of a registry is read off a log of registrations. -/
structure Follows (r : Registry) (log : List Registration) : Prop where
  /-- The filters have the names of their registrations, each at its first place. -/
  filterNames : r.filterNames = namesOf (Registration.filters log) ∧ r.filterNames.Nodup
  /-- A value goes through the filter that has the name last, unchanged if none has it. -/
  applyFilter (name : Text) (input : Value) (args : Arguments) :
    r.applyFilter name input args =
      match last? (Registration.filters log) name with
      | some filter => filter.handler input args
      | none => input
  /-- The function is called that has the name last. -/
  callFunction (name : Text) (args : Arguments) :
    r.callFunction name args =
      (last? (Registration.functions log) name).map fun function => function.handler args
  /-- Functions make no difference to the filters, nor filters to the functions. -/
  apart : r.filters = (empty.run (log.filter Registration.isFilter)).filters ∧
    r.functions = (empty.run (log.filter fun e => !e.isFilter)).functions
  /-- The functions are described in order, then the filters that have another name. -/
  describedNames : r.descriptions.keys = namesOf (Registration.functions log) ++
    (namesOf (Registration.filters log)).filter
      fun name => name ∉ namesOf (Registration.functions log)
  /-- Of a function and a filter with one name the filter is described. -/
  description (name : Text) : r.descriptions.get? name =
    ((last? (Registration.filters log) name).map Described.description).or
      ((last? (Registration.functions log) name).map Described.description)
  /-- Behind the bindings of a context stand the sentinels of the functions that it leaves
  free. -/
  injectSentinels (c : Context) : r.injectSentinels c = c ++
    ((namesOf (Registration.functions log)).filter fun name => name ∉ c.keys).map
      fun name => (name, .string sentinel)
  /-- A context with the sentinels gets no more of them. -/
  again (c : Context) : r.injectSentinels (r.injectSentinels c) = r.injectSentinels c

/-- The descriptions are those of the functions, then those of the filters with other names. -/
theorem keys_descriptions (r : Registry) (hfunctions : r.functions.keys.Nodup)
    (hfilters : r.filters.keys.Nodup) :
    r.descriptions.keys =
      r.functions.keys ++ r.filters.keys.filter fun name => name ∉ r.functions.keys := by
  have hnames : r.descriptions.keys = (r.functions.keys ++ r.filters.keys).eraseDups := by
    rw [descriptions, Dict.keys_ofEntries, List.map_append]
    exact congrArg List.eraseDups
      (congrArg₂ _ (map_fst_described r.functions) (map_fst_described r.filters))
  have hnew : r.filters.keys.removeAll r.functions.keys =
      r.filters.keys.filter fun name => name ∉ r.functions.keys :=
    List.filter_congr fun name _ => by simp
  rw [hnames, List.eraseDups_append, eraseDups_of_nodup hfunctions, hnew,
    eraseDups_of_nodup (hfilters.filter _)]

/-- A filter is described before a function with its name. -/
theorem get?_descriptions (r : Registry) (hfunctions : r.functions.keys.Nodup)
    (hfilters : r.filters.keys.Nodup) (name : Text) :
    r.descriptions.get? name = ((r.filters.get? name).map Described.description).or
      ((r.functions.get? name).map Described.description) := by
  rw [descriptions, Dict.get?_ofEntries, List.reverse_append, List.lookup_append,
    ← last_described hfilters, ← last_described hfunctions]
  rfl

/-- A registry that is run from nothing follows the registrations of the run. -/
theorem follows_run (log : List Registration) : (empty.run log).Follows log := by
  have hfunctions := functions_run log
  have hfilters := filters_run log
  have hfunctionNames := Dict.keys_ofEntries (Registration.functions log)
  have hfilterNames := Dict.keys_ofEntries (Registration.filters log)
  have hfunctionsNodup := Dict.nodup_keys_ofEntries (Registration.functions log)
  have hfiltersNodup := Dict.nodup_keys_ofEntries (Registration.filters log)
  rw [← hfunctions] at hfunctionNames hfunctionsNodup
  rw [← hfilters] at hfilterNames hfiltersNodup
  have hsentinels := injectSentinels_eq _ hfunctionsNodup
  constructor
  case filterNames => exact ⟨hfilterNames, hfiltersNodup⟩
  case applyFilter =>
    intro name input args
    rw [Registry.applyFilter, hfilters, Dict.get?_ofEntries]
    rfl
  case callFunction =>
    intro name args
    rw [Registry.callFunction, hfunctions, Dict.get?_ofEntries]
    rfl
  case apart =>
    rw [hfilters, hfunctions, filters_run (log.filter _), functions_run (log.filter _),
      Registration.filters_filter, Registration.functions_filter]
    exact ⟨rfl, rfl⟩
  case describedNames =>
    rw [keys_descriptions _ hfunctionsNodup hfiltersNodup, hfunctionNames, hfilterNames]
    rfl
  case description =>
    intro name
    rw [get?_descriptions _ hfunctionsNodup hfiltersNodup, hfunctions, hfilters,
      Dict.get?_ofEntries, Dict.get?_ofEntries]
    rfl
  case injectSentinels =>
    intro c
    rw [hsentinels, hfunctionNames]
    rfl
  case again =>
    intro c
    rw [hsentinels, hsentinels c, sentinels_again, List.append_nil]

/-- **Registries follow their registrations.** This holds of every run from nothing, and of every
run from the built-in names, which count as the first registrations. -/
theorem follows_registrations (steps : List Registration) :
    (empty.run steps).Follows steps ∧
      ∀ now, ((builtin now).run steps).Follows ((builtin now).held ++ steps) := by
  refine ⟨follows_run steps, fun now => ?_⟩
  rw [run_builtin]
  exact follows_run _

example (h : Arguments → Value) (f g : Value → Arguments → Value) :
    (empty.run [.filter ['a'] [] f, .function ['b'] [] h, .filter ['b'] ['x'] f,
      .filter ['a'] ['y'] g]).descriptions = [(['b'], ['x']), (['a'], ['y'])] := rfl

end Registry

end PromptTemplate
