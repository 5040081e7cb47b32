import PromptTemplate.Dict
import Mathlib.Data.List.Induction
import Mathlib.Data.List.Nodup

/-!
# Laws of dictionaries

A dictionary is known from its keys and from what it has under each of them, as
long as the keys are different. Inserting entries puts new keys behind those that
are there, so a dictionary made of a list of entries has each key at the place of
its first entry, with the value of its last.
-/

namespace PromptTemplate

namespace Dict

variable {α : Type}

/-!
### Looking up
-/

/-- The entry under a key is the first one with the key. -/
theorem get?_eq_lookup (d : Dict α) (key : Text) : d.get? key = d.lookup key := by
  induction d with
  | nil => rfl
  | cons e d ih =>
    obtain ⟨k, v⟩ := e
    rw [get?, List.lookup_cons, ih]
    by_cases h : k = key
    · rw [if_pos h, h, beq_self_eq_true]
    · rw [if_neg h, beq_eq_false_iff_ne.2 (Ne.symm h)]

/-- The keys that a dictionary contains are those of its entries. -/
theorem contains_iff (d : Dict α) (key : Text) :
    d.contains key = true ↔ key ∈ d.keys := by
  induction d with
  | nil => simp [contains, keys]
  | cons e d ih =>
    rw [contains] at ih
    rw [contains, get?, keys, List.map_cons, List.mem_cons]
    by_cases hkey : e.1 = key
    · rw [if_pos hkey]
      exact ⟨fun _ => .inl hkey.symm, fun _ => rfl⟩
    · rw [if_neg hkey, ih]
      exact ⟨.inr, fun h => h.resolve_left fun he => hkey he.symm⟩

/-- The first entry has the first key. -/
theorem keys_cons (e : Text × α) (d : Dict α) : keys (e :: d) = e.1 :: keys d := rfl

/-- The keys of entries behind others stand behind theirs. -/
theorem keys_append (c d : Dict α) : keys (c ++ d) = keys c ++ keys d := List.map_append

/-!
### Inserting entries
-/

/-- Inserting entries leaves the other keys alone. -/
theorem get?_insertAll_of_not_mem {d : Dict α} {entries : List (Text × α)} {x : Text}
    (h : x ∉ keys entries) : (d.insertAll entries).get? x = d.get? x := by
  induction entries generalizing d with
  | nil => rfl
  | cons e entries ih =>
    simp only [keys, List.map_cons, List.mem_cons, not_or] at h
    have hlater := ih (d := d.insert e.1 e.2) h.2
    have hfirst := get?_insert_of_ne (d := d) e.2 h.1
    exact hlater.trans hfirst

/-- Inserting entries puts the keys that are new behind those that were there. -/
theorem keys_insertAll (d : Dict α) (entries : List (Text × α)) :
    ∃ added, (d.insertAll entries).keys = d.keys ++ added ∧
      ∀ x ∈ added, x ∈ keys entries ∧ x ∉ d.keys := by
  induction entries generalizing d with
  | nil => exact ⟨[], (List.append_nil _).symm, fun x hx => absurd hx List.not_mem_nil⟩
  | cons e entries ih =>
    obtain ⟨added, hkeys, hadded⟩ := ih (d.insert e.1 e.2)
    have hinsert := keys_insert d e.1 e.2
    have hmem : ∀ x ∈ keys entries, x ∈ keys (e :: entries) :=
      fun x hx => List.mem_cons_of_mem e.1 hx
    by_cases hknown : e.1 ∈ d.keys
    · rw [if_pos hknown] at hinsert
      rw [hinsert] at hkeys hadded
      exact ⟨added, hkeys, fun x hx => ⟨hmem x (hadded x hx).1, (hadded x hx).2⟩⟩
    · rw [if_neg hknown] at hinsert
      rw [hinsert] at hkeys hadded
      refine ⟨e.1 :: added, ?_, fun x hx => ?_⟩
      · rw [List.append_cons]
        exact hkeys
      · rcases List.mem_cons.1 hx with rfl | hx
        · exact ⟨List.mem_cons_self, hknown⟩
        · have hnew := (hadded x hx).2
          rw [List.mem_append, not_or] at hnew
          exact ⟨hmem x (hadded x hx).1, hnew.1⟩

/-!
### Different keys
-/

/-- A new key goes to the end. -/
theorem insert_of_not_mem {d : Dict α} {key : Text} (h : key ∉ d.keys) (value : α) :
    d.insert key value = d ++ [(key, value)] := by
  induction d with
  | nil => rfl
  | cons e d ih =>
    rw [keys, List.map_cons, List.mem_cons, not_or] at h
    rw [insert, if_neg (Ne.symm h.1), ih h.2]
    rfl

/-- Entries whose keys are all new and different keep their order behind the others. -/
theorem insertAll_of_nodup {d entries : Dict α} (h : (d ++ entries).keys.Nodup) :
    d.insertAll entries = d ++ entries := by
  induction entries generalizing d with
  | nil => exact (List.append_nil d).symm
  | cons e entries ih =>
    have hnew : e.1 ∉ d.keys := by
      intro hmem
      rw [keys, List.map_append, List.map_cons] at h
      exact (List.nodup_append.1 h).2.2 _ hmem _ List.mem_cons_self rfl
    have hstep : d.insertAll (e :: entries) = insertAll (d.insert e.1 e.2) entries := rfl
    rw [hstep, insert_of_not_mem hnew, ih (by rwa [List.append_assoc]), List.append_assoc]
    rfl

/-- In a dictionary with different keys every entry is found under its key. -/
theorem get?_of_mem {d : Dict α} (h : d.keys.Nodup) {key : Text} {value : α}
    (hmem : (key, value) ∈ d) : d.get? key = some value := by
  induction d with
  | nil => cases hmem
  | cons e d ih =>
    rw [keys, List.map_cons, List.nodup_cons] at h
    rw [get?]
    rcases List.mem_cons.1 hmem with rfl | hmem
    · exact if_pos rfl
    · have hne : e.1 ≠ key := fun hkey => h.1 (List.mem_map.2 ⟨_, hmem, hkey.symm⟩)
      rw [if_neg hne]
      exact ih h.2 hmem

/-- Reordering entries with different keys changes no look-up. -/
theorem get?_of_perm {c d : Dict α} (hn : c.keys.Nodup) (h : c.Perm d)
    (x : Text) : c.get? x = d.get? x := by
  induction h with
  | nil => rfl
  | cons e _ ih =>
    simp only [keys, List.map_cons, List.nodup_cons] at hn
    simp only [get?, ih hn.2]
  | swap e f rest =>
    simp only [keys, List.map_cons, List.nodup_cons, List.mem_cons, not_or] at hn
    have hne : ¬ f.1 = e.1 := hn.1.1
    simp only [get?]
    by_cases he : e.1 = x
    · have hf : ¬ f.1 = x := fun hf => hne (hf.trans he.symm)
      rw [if_neg hf, if_pos he, if_pos he]
    · rw [if_neg he, if_neg he]
  | trans hcd _ ihc ihd =>
    rw [ihc hn, ihd ((hcd.map Prod.fst).nodup_iff.1 hn)]

/-- A dictionary with different keys is what it has under its keys. -/
theorem eq_filterMap_keys {d : Dict α} (h : d.keys.Nodup) :
    d = d.keys.filterMap fun key => (d.get? key).map fun value => (key, value) := by
  have hentry : ∀ e ∈ d, ((d.get? e.1).map fun value => (e.1, value)) = some e := by
    intro e he
    rw [get?_of_mem h he]
    rfl
  rw [keys, List.filterMap_map]
  exact List.filterMap_some.symm.trans (List.filterMap_congr hentry).symm

/-!
### Dictionaries of entries
-/

/-- One more entry is inserted last. -/
theorem ofEntries_concat (entries : List (Text × α)) (e : Text × α) :
    ofEntries (entries ++ [e]) = (ofEntries entries).insert e.1 e.2 :=
  List.foldl_concat _ _ e entries

/-- The keys are those of the entries, each at the place of its first entry. -/
theorem keys_ofEntries (entries : List (Text × α)) :
    (ofEntries entries).keys = (entries.map Prod.fst).eraseDups := by
  induction entries using List.reverseRecOn with
  | nil => rfl
  | append_singleton entries e ih =>
    have hadded : ([e.1].removeAll (entries.map Prod.fst)) =
        if e.1 ∈ entries.map Prod.fst then [] else [e.1] := by
      by_cases hknown : e.1 ∈ entries.map Prod.fst <;> simp [List.removeAll, hknown]
    rw [ofEntries_concat, keys_insert, ih, List.map_append, List.eraseDups_append,
      List.map_singleton, hadded]
    simp only [List.mem_eraseDups]
    split
    · rw [List.eraseDups_nil, List.append_nil]
    · rfl

/-- The keys are different. -/
theorem nodup_keys_ofEntries (entries : List (Text × α)) : (ofEntries entries).keys.Nodup := by
  induction entries using List.reverseRecOn with
  | nil => exact List.nodup_nil
  | append_singleton entries e ih =>
    rw [ofEntries_concat, keys_insert]
    split
    next => exact ih
    next hnew => exact List.concat_eq_append ▸ ih.concat hnew

/-- Under a key stands the value of its last entry. -/
theorem get?_ofEntries (entries : List (Text × α)) (key : Text) :
    (ofEntries entries).get? key = entries.reverse.lookup key := by
  induction entries using List.reverseRecOn with
  | nil => rfl
  | append_singleton entries e ih =>
    rw [ofEntries_concat, List.reverse_append, List.reverse_singleton, List.singleton_append,
      List.lookup_cons]
    by_cases hkey : key = e.1
    · rw [hkey, get?_insert_self, beq_self_eq_true]
    · rw [get?_insert_of_ne e.2 hkey, ih, beq_eq_false_iff_ne.2 hkey]

/-- Each key of the entries stands at the place of its first entry, with the value of its
last. -/
theorem ofEntries_eq (entries : List (Text × α)) :
    ofEntries entries = (entries.map Prod.fst).eraseDups.filterMap fun key =>
      (entries.reverse.lookup key).map fun value => (key, value) := by
  have hentries := eq_filterMap_keys (nodup_keys_ofEntries entries)
  simp only [get?_ofEntries] at hentries
  rwa [keys_ofEntries] at hentries

end Dict

end PromptTemplate
