import PromptTemplate.Proofs.Value.Decoding
import PromptTemplate.Proofs.Value.Writers
import PromptTemplate.Tool

/-!
# The two forms of a tool

A tool is written as JSON from its record, and templates get a value of it that
is made up of maps by hand. The document of the value is the document of the
record, field by field, so both give the same text; and the record is read back
from its document, with the properties in their order.
-/

namespace PromptTemplate

/-!
### Values made of lists
-/

namespace Value

theorem toJsonItems_eq_map (xs : List Value) : toJsonItems xs = xs.map toJson := by
  induction xs with
  | nil => rfl
  | cons x xs ih => rw [toJsonItems, ih, List.map_cons]

theorem toJsonMembers_eq_map (entries : List (Text × Value)) :
    toJsonMembers entries = entries.map fun e => (e.1, e.2.toJson) := by
  induction entries with
  | nil => rfl
  | cons e entries ih => rw [toJsonMembers, ih, List.map_cons]

theorem ofJsonItems_eq_map (items : List Json) : ofJsonItems items = items.map ofJson := by
  induction items with
  | nil => rfl
  | cons j items ih => rw [ofJsonItems, ih, List.map_cons]

theorem ofJsonMembers_eq_map (members : List (Text × Json)) :
    ofJsonMembers members = members.map fun m => (m.1, ofJson m.2) := by
  induction members with
  | nil => rfl
  | cons m members ih => rw [ofJsonMembers, ih, List.map_cons]

/-- A list is plain if its items are. -/
theorem arePlain_of_forall {xs : List Value} (h : ∀ x ∈ xs, x.isPlain = true) :
    arePlain xs = true := by
  induction xs with
  | nil => rfl
  | cons x xs ih =>
    obtain ⟨hx, hxs⟩ := List.forall_mem_cons.1 h
    rw [arePlain, hx, ih hxs]
    rfl

/-- Entries are plain if their values are. -/
theorem arePlainEntries_of_forall {entries : List (Text × Value)}
    (h : ∀ e ∈ entries, e.2.isPlain = true) : arePlainEntries entries = true := by
  induction entries with
  | nil => rfl
  | cons e entries ih =>
    obtain ⟨he, hentries⟩ := List.forall_mem_cons.1 h
    rw [arePlainEntries, he, ih hentries]
    rfl

/-- A map is plain if its keys are different and its values are plain. -/
theorem isPlain_map {entries : List (Text × Value)} (hkeys : (Dict.keys entries).Nodup)
    (h : ∀ e ∈ entries, e.2.isPlain = true) : (map entries).isPlain = true := by
  rw [isPlain, decide_eq_true hkeys, arePlainEntries_of_forall h]
  rfl

/-- Items are no deeper than a bound for each of them. -/
theorem depthItems_le {xs : List Value} {n : Nat} (h : ∀ x ∈ xs, x.depth ≤ n) :
    depthItems xs ≤ n := by
  induction xs with
  | nil => exact Nat.zero_le n
  | cons x xs ih =>
    obtain ⟨hx, hxs⟩ := List.forall_mem_cons.1 h
    exact Nat.max_le.2 ⟨hx, ih hxs⟩

/-- Entries are no deeper than a bound for each of them. -/
theorem depthEntries_le {entries : List (Text × Value)} {n : Nat}
    (h : ∀ e ∈ entries, e.2.depth ≤ n) : depthEntries entries ≤ n := by
  induction entries with
  | nil => exact Nat.zero_le n
  | cons e entries ih =>
    obtain ⟨he, hentries⟩ := List.forall_mem_cons.1 h
    exact Nat.max_le.2 ⟨he, ih hentries⟩

end Value

/-- Reading each item of a list that was written item by item gives the list back. -/
theorem mapM_map_eq_some {α β : Type} {write : α → β} {read : β → Option α} {xs : List α}
    (h : ∀ x ∈ xs, read (write x) = some x) : (xs.map write).mapM read = some xs := by
  induction xs with
  | nil => rfl
  | cons x xs ih =>
    obtain ⟨hx, hxs⟩ := List.forall_mem_cons.1 h
    rw [List.map_cons, List.mapM_cons, hx, ih hxs]
    rfl

/-!
### Types and properties
-/

/-- A type is known by its word. -/
theorem SchemaType.ofName?_name (type : SchemaType) : ofName? type.name = some type := by
  cases type <;> decide

namespace Property

variable (p : Property)

/-- The value of a property has the document of the property. -/
theorem toJson_toValue : p.toValue.toJson = p.toJson := rfl

/-- The document of a property becomes the value of the property. -/
theorem ofJson_toJson : Value.ofJson p.toJson = p.toValue := rfl

/-- A property is read back from its document. -/
theorem ofJson?_toJson : ofJson? p.toJson = some p := by
  have htype : SchemaType.ofJson? (.string p.type.name) = some p.type := p.type.ofName?_name
  have hfields : ofJson? p.toJson = (SchemaType.ofJson? (.string p.type.name)).bind fun type =>
      some ⟨type, p.description⟩ := rfl
  rw [hfields, htype]
  rfl

end Property

/-!
### Schemas and tools
-/

namespace Parameters

variable (p : Parameters)

/-- The value of a schema has the document of the schema. -/
theorem toJson_toValue : p.toValue.toJson = p.toJson := by
  have hrequired : (p.required.map Value.string).map Value.toJson = p.required.map .string :=
    List.map_map
  have hproperties : ((p.properties.map fun e => (e.1, e.2.toValue)).map fun e =>
      (e.1, e.2.toJson)) = p.properties.map fun e => (e.1, e.2.toJson) := List.map_map
  rw [toValue, toJson, Value.toJson, Value.toJsonMembers_eq_map]
  simp only [List.map_cons, List.map_nil, Value.toJson, Value.toJsonItems_eq_map,
    Value.toJsonMembers_eq_map, hrequired, hproperties]

/-- The document of a schema becomes the value of the schema. -/
theorem ofJson_toJson : Value.ofJson p.toJson = p.toValue := by
  have hrequired : (p.required.map Json.string).map Value.ofJson = p.required.map .string :=
    List.map_map
  have hproperties : ((p.properties.map fun e => (e.1, e.2.toJson)).map fun e =>
      (e.1, Value.ofJson e.2)) = p.properties.map fun e => (e.1, e.2.toValue) := List.map_map
  rw [toValue, toJson, Value.ofJson, Value.ofJsonMembers_eq_map]
  simp only [List.map_cons, List.map_nil, Value.ofJson, Value.ofJsonItems_eq_map,
    Value.ofJsonMembers_eq_map, hrequired, hproperties]

/-- A schema is read back from its document. -/
theorem ofJson?_toJson : ofJson? p.toJson = some p := by
  have htype : SchemaType.ofJson? (.string p.type.name) = some p.type := p.type.ofName?_name
  have hrequired : namesOfJson? (.array (p.required.map .string)) = some p.required :=
    mapM_map_eq_some fun _ _ => rfl
  have hproperties : propertiesOfJson? (.object (p.properties.map fun e => (e.1, e.2.toJson))) =
      some p.properties := by
    refine mapM_map_eq_some fun e _ => ?_
    rw [Property.ofJson?_toJson]
    rfl
  have hfields : ofJson? p.toJson = (SchemaType.ofJson? (.string p.type.name)).bind fun type =>
      (namesOfJson? (.array (p.required.map .string))).bind fun required =>
        (propertiesOfJson? (.object (p.properties.map fun e => (e.1, e.2.toJson)))).bind
          fun properties => some ⟨type, required, properties⟩ := rfl
  rw [hfields, htype, hrequired, hproperties]
  rfl

end Parameters

namespace Tool

/-- The value of a tool has the document of the tool. -/
theorem toJson_toValue (t : Tool) : t.toValue.toJson = t.toJson := by
  rw [toValue, toJson, Value.toJson, Value.toJsonMembers_eq_map]
  simp only [List.map_cons, List.map_nil, Value.toJson, Parameters.toJson_toValue]

/-- The document of a tool becomes the value of the tool. -/
theorem ofJson_toJson (t : Tool) : Value.ofJson t.toJson = t.toValue := by
  rw [toValue, toJson, Value.ofJson, Value.ofJsonMembers_eq_map]
  simp only [List.map_cons, List.map_nil, Value.ofJson, Parameters.ofJson_toJson]

/-- A tool is read back from its document. -/
theorem ofJson?_toJson (t : Tool) : ofJson? t.toJson = some t := by
  have hfields : ofJson? t.toJson = (Parameters.ofJson? t.parameters.toJson).bind
      fun parameters => some ⟨t.name, t.description, parameters⟩ := rfl
  rw [hfields, Parameters.ofJson?_toJson]
  rfl

/-- The value of a list of tools has the document of the list. -/
theorem toJson_listToValue (tools : List Tool) :
    (listToValue tools).toJson = listToJson tools := by
  rw [listToValue, listToJson, Value.toJson, Value.toJsonItems_eq_map, List.map_map]
  exact congrArg Json.array (List.map_congr_left fun t _ => t.toJson_toValue)

/-- The document of a list of tools becomes the value of the list. -/
theorem ofJson_listToJson (tools : List Tool) :
    Value.ofJson (listToJson tools) = listToValue tools := by
  rw [listToValue, listToJson, Value.ofJson, Value.ofJsonItems_eq_map, List.map_map]
  exact congrArg Value.list (List.map_congr_left fun t _ => t.ofJson_toJson)

/-- A list of tools is read back from its document. -/
theorem listOfJson?_listToJson (tools : List Tool) :
    listOfJson? (listToJson tools) = some tools :=
  mapM_map_eq_some fun t _ => t.ofJson?_toJson

end Tool

/-!
### Texts of tools
-/

/-- The value of a property is plain. -/
theorem Property.isPlain_toValue (p : Property) : p.toValue.isPlain = true := by
  have hkeys : ["type".toList, "description".toList].Nodup := by decide
  refine Value.isPlain_map hkeys ?_
  simp only [List.forall_mem_cons]
  exact ⟨rfl, rfl, fun _ he => absurd he List.not_mem_nil⟩

namespace Parameters

/-- The value of a schema whose properties have different names is plain. -/
theorem isPlain_toValue {p : Parameters} (h : p.properties.keys.Nodup) :
    p.toValue.isPlain = true := by
  have hrequired : (Value.list (p.required.map .string)).isPlain = true := by
    refine Value.arePlain_of_forall fun x hx => ?_
    obtain ⟨name, -, rfl⟩ := List.mem_map.1 hx
    rfl
  have hnames : Dict.keys (p.properties.map fun e => (e.1, e.2.toValue)) = p.properties.keys :=
    List.map_map
  have hproperties :
      (Value.map (p.properties.map fun e => (e.1, e.2.toValue))).isPlain = true := by
    refine Value.isPlain_map (hnames ▸ h) fun e he => ?_
    obtain ⟨property, -, rfl⟩ := List.mem_map.1 he
    exact property.2.isPlain_toValue
  have hkeys : ["type".toList, "required".toList, "properties".toList].Nodup := by decide
  refine Value.isPlain_map hkeys ?_
  simp only [List.forall_mem_cons]
  exact ⟨rfl, hrequired, hproperties, fun _ he => absurd he List.not_mem_nil⟩

/-- A schema has three levels at most. -/
theorem depth_toValue_le (p : Parameters) : p.toValue.depth ≤ 3 := by
  have hrequired : (Value.list (p.required.map .string)).depth ≤ 1 := by
    refine Nat.succ_le_succ (Value.depthItems_le fun x hx => ?_)
    obtain ⟨name, -, rfl⟩ := List.mem_map.1 hx
    exact Nat.le_refl 0
  have hproperties : (Value.map (p.properties.map fun e => (e.1, e.2.toValue))).depth ≤ 2 := by
    refine Nat.succ_le_succ (Value.depthEntries_le fun e he => ?_)
    obtain ⟨property, -, rfl⟩ := List.mem_map.1 he
    exact Nat.le_refl 1
  refine Nat.succ_le_succ (Value.depthEntries_le ?_)
  simp only [List.forall_mem_cons]
  exact ⟨Nat.zero_le 2, Nat.le_succ_of_le hrequired, hproperties,
    fun _ he => absurd he List.not_mem_nil⟩

end Parameters

namespace Tool

/-- The value of a tool whose properties have different names is plain. -/
theorem isPlain_toValue {t : Tool} (h : t.parameters.properties.keys.Nodup) :
    t.toValue.isPlain = true := by
  have hkeys : ["name".toList, "description".toList, "parameters".toList].Nodup := by decide
  refine Value.isPlain_map hkeys ?_
  simp only [List.forall_mem_cons]
  exact ⟨rfl, rfl, Parameters.isPlain_toValue h, fun _ he => absurd he List.not_mem_nil⟩

/-- A tool has four levels at most. -/
theorem depth_toValue_le (t : Tool) : t.toValue.depth ≤ 4 := by
  refine Nat.succ_le_succ (Value.depthEntries_le ?_)
  simp only [List.forall_mem_cons]
  exact ⟨Nat.zero_le 3, Nat.zero_le 3, t.parameters.depth_toValue_le,
    fun _ he => absurd he List.not_mem_nil⟩

/-- Whatever its layout, a text of tools is read as their document. -/
theorem read?_text (l : Value.Layout) {tools : List Tool}
    (h : ∀ t ∈ tools, t.parameters.properties.keys.Nodup) (level : Nat) :
    Json.read? (l.text level (listToValue tools)) = some (listToJson tools) := by
  have hplain : (listToValue tools).isPlain = true := by
    refine Value.arePlain_of_forall fun v hv => ?_
    obtain ⟨t, ht, rfl⟩ := List.mem_map.1 hv
    exact isPlain_toValue (h t ht)
  have hdepth : (listToValue tools).depth ≤ 5 := by
    refine Nat.succ_le_succ (Value.depthItems_le fun v hv => ?_)
    obtain ⟨t, -, rfl⟩ := List.mem_map.1 hv
    exact t.depth_toValue_le
  have hread := Value.read?_text l hplain (Nat.le_trans hdepth (by decide)) level
  rwa [toJson_listToValue] at hread

/-- Records of tools and their values agree, if the properties of each tool have different names.
The compact JSON text of the records is the text of the value; the compact text and the indented
one, whatever the indentation, both become the value when they are decoded; and the records are
read back from either. -/
theorem listToJson_agrees {tools : List Tool}
    (h : ∀ t ∈ tools, t.parameters.properties.keys.Nodup) :
    (listToJson tools).compact = (listToValue tools).toText ∧
      (∀ width, (Json.read? ((listToJson tools).indented width 0)).map Value.ofJson =
        some (listToValue tools)) ∧
      (Json.read? (listToJson tools).compact).map Value.ofJson = some (listToValue tools) ∧
      (Json.read? (listToJson tools).compact).bind listOfJson? = some tools ∧
      ∀ width, (Json.read? ((listToJson tools).indented width 0)).bind listOfJson? =
        some tools := by
  have htext : (listToJson tools).compact = (listToValue tools).toText := by
    rw [← toJson_listToValue]
    rfl
  have hcompact : Json.read? (listToJson tools).compact = some (listToJson tools) := by
    have hread := read?_text .tight h 0
    rwa [Value.Layout.text_tight, toJson_listToValue] at hread
  have hindented (width : Nat) :
      Json.read? ((listToJson tools).indented width 0) = some (listToJson tools) := by
    have hread := read?_text (.lines width) h 0
    rwa [Value.Layout.text_lines, Value.indented_eq, toJson_listToValue] at hread
  refine ⟨htext, fun width => ?_, ?_, ?_, fun width => ?_⟩
  · rw [hindented, Option.map_some, ofJson_listToJson]
  · rw [hcompact, Option.map_some, ofJson_listToJson]
  · rw [hcompact, Option.bind_some, listOfJson?_listToJson]
  · rw [hindented, Option.bind_some, listOfJson?_listToJson]

/-- Escaped characters, a name that is required twice, properties that are in no order, and a
tool without any. -/
theorem listToJson_agrees_of_escapes :
    let parameters : Parameters := ⟨.array, ["z".toList, "z".toList],
      [("z".toList, ⟨.integer, "\"\\".toList⟩), ([], ⟨.object, []⟩)]⟩
    let tools : List Tool := [⟨"f\n".toList, [Char.ofNat 0x7, 'é'], parameters⟩, ⟨[], [], .empty⟩]
    (∀ t ∈ tools, t.parameters.properties.keys.Nodup) ∧
      (listToJson tools).compact = (listToValue tools).toText ∧
      (Json.read? ((listToJson tools).indented 2 0)).map Value.ofJson =
        some (listToValue tools) ∧
      (Json.read? (listToJson tools).compact).bind listOfJson? = some tools ∧
      (Json.read? ((listToJson tools).indented 2 0)).bind listOfJson? = some tools := by
  intro parameters tools
  have h : ∀ t ∈ tools, t.parameters.properties.keys.Nodup := by decide
  obtain ⟨htext, hvalue, -, hcompact, hindented⟩ := listToJson_agrees h
  exact ⟨h, htext, hvalue 2, hcompact, hindented 2⟩

end Tool

end PromptTemplate
