import PromptTemplate.Text.Basic

/-!
# Dictionaries in order of first insertion

A dictionary is the list of its entries. Inserting a key that is present keeps
its place and replaces its value; a new key goes to the end.
-/

namespace PromptTemplate

/-- Entries in the order in which their keys were first inserted. -/
abbrev Dict (α : Type) := List (Text × α)

namespace Dict

variable {α β : Type}

/-- The value under a key. -/
def get? (d : Dict α) (key : Text) : Option α :=
  match d with
  | [] => none
  | (k, v) :: rest => if k = key then some v else get? rest key

/-- Binds a key: in place if it is present, at the end otherwise. -/
def insert (d : Dict α) (key : Text) (value : α) : Dict α :=
  match d with
  | [] => [(key, value)]
  | (k, v) :: rest => if k = key then (k, value) :: rest else (k, v) :: insert rest key value

/-- Whether a key is bound. -/
def contains (d : Dict α) (key : Text) : Bool := (d.get? key).isSome

/-- The keys in order. -/
def keys (d : Dict α) : List Text := d.map Prod.fst

/-- Inserts entries one after the other. -/
def insertAll (d : Dict α) (entries : List (Text × α)) : Dict α :=
  entries.foldl (fun d e => d.insert e.1 e.2) d

/-- The dictionary of a list of entries; of equal keys the first gives the place and
the last the value. -/
def ofEntries (entries : List (Text × α)) : Dict α := insertAll [] entries

@[simp] theorem get?_nil (key : Text) : get? ([] : Dict α) key = none := rfl

/-- A key reads as what was last inserted under it. -/
@[simp] theorem get?_insert_self (d : Dict α) (key : Text) (value : α) :
    (d.insert key value).get? key = some value := by
  induction d with
  | nil => simp [insert, get?]
  | cons e rest ih =>
    by_cases h : e.1 = key <;> simp [insert, get?, h, ih]

/-- Inserting under one key leaves the others alone. -/
theorem get?_insert_of_ne {d : Dict α} {key other : Text} (value : α) (h : other ≠ key) :
    (d.insert key value).get? other = d.get? other := by
  induction d with
  | nil => simp [insert, get?, Ne.symm h]
  | cons e rest ih =>
    by_cases hk : e.1 = key
    · simp [insert, get?, hk, Ne.symm h]
    · simp only [insert, if_neg hk, get?, ih]

/-- The keys after an insertion: unchanged, or with the new key at the end. -/
theorem keys_insert (d : Dict α) (key : Text) (value : α) :
    (d.insert key value).keys = if key ∈ d.keys then d.keys else d.keys ++ [key] := by
  induction d with
  | nil => simp [insert, keys]
  | cons e rest ih =>
    by_cases h : e.1 = key
    · simp [insert, keys, h]
    · have hne : ¬ key = e.1 := fun he => h he.symm
      simp only [keys] at ih
      simp only [insert, if_neg h, keys, List.map_cons, List.mem_cons, hne, false_or, ih]
      by_cases hm : key ∈ List.map Prod.fst rest <;> simp [hm]

end Dict

end PromptTemplate
